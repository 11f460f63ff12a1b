import EmbeddedMqttc.Component

/-!
# What a loop over pending entries writes

The entries of `send_publish` and `send_pubrel` wait to be written for the first time. A loop goes
over them by their index: an entry that is sent leaves the queue, and the index moves past one for
which there is no space. Space that is used up does not come back during the loop, so what is sent of
one kind is what stood first.
-/

namespace EmbeddedMqttc

open Prog EmbeddedMqttc.Comp

namespace Env

/-- What the `k`-th of the coming readings of the clock gives. -/
def reading (e : Env) (k : Nat) : Instant := e.now + (e.ticks.take k).sum

/-- The clock has been read `k` times from `e` to `e'`. -/
structure Ticked (e : Env) (k : Nat) (e' : Env) : Prop where
  now : e'.now = e.reading k
  ticks : e'.ticks = e.ticks.drop k

variable {e e' e'' : Env} {k l : Nat}

theorem Ticked.refl : e.Ticked 0 e := ⟨rfl, rfl⟩

theorem Ticked.congr (h : e.Ticked k e') (hnow : e''.now = e'.now) (hticks : e''.ticks = e'.ticks) :
    e.Ticked k e'' := ⟨hnow.trans h.now, hticks.trans h.ticks⟩

theorem Ticked.reading_add (h : e.Ticked k e') (l : Nat) : e'.reading l = e.reading (k + l) := by
  simp only [reading, h.now, h.ticks, List.take_add, List.sum_append]
  exact Nat.add_assoc ..

theorem Ticked.trans (h : e.Ticked k e') (h' : e'.Ticked l e'') : e.Ticked (k + l) e'' where
  now := h'.now.trans (h.reading_add l)
  ticks := by rw [h'.ticks, h.ticks, List.drop_drop]

theorem Ticked.read (e : Env) : e.Ticked 1 e.read where
  now := by
    rcases e with ⟨_, _ | ⟨d, ds⟩, _, _, _, _, _, _⟩ <;> simp [Env.read, reading]
  ticks := by simp [Env.read]

theorem Ticked.wrote_read (e : Env) (w : Written) : e.Ticked 1 (e.wrote w).read :=
  have hread := Ticked.read e
  ⟨hread.now, hread.ticks⟩

end Env

/-- A queue of entries that wait to be sent. There is `space` for an entry by its `kind`, sending it
reads the clock `reads` times and leaves `rest` alone. That an entry is `unowned` is a panic. -/
structure Pending (σ α κ ρ : Type) (n : Nat) where
  queue : σ → BoundedVec α n
  kind : α → κ
  space : σ → κ → Bool
  offer : α → Written
  reads : α → Nat
  rest : σ → ρ
  unowned : α → Prop

namespace Pending

variable {σ α κ ρ : Type} {n : Nat}

/-- The entry `a` at `i` has been sent. -/
structure Took (p : Pending σ α κ ρ n) (c : Ctx σ) (i : Nat) (a : α) (s : Ctx σ) : Prop where
  space : p.space c.inner (p.kind a) = true
  queue : p.queue s.inner = (p.queue c.inner).removeAt i
  written : s.env.written = c.env.written ++ [p.offer a]
  ticked : c.env.Ticked (p.reads a) s.env
  rest : p.rest s.inner = p.rest c.inner

/-- What a turn of the loop does with the entry `a` at `i`. -/
inductive Turned (p : Pending σ α κ ρ n) (c : Ctx σ) (i : Nat) (a : α) :
    Except (Stop MqttError) (SendResult ⊕ Nat) → Ctx σ → Prop
  | blocked (hspace : p.space c.inner (p.kind a) = false) : Turned p c i a (.ok (.inr (i + 1))) c
  | refused : Turned p c i a (.ok (.inl .partiallySent)) { c with env := c.env.asked }
  | failed (e : MqttError) : Turned p c i a (.error (.fail e)) { c with env := c.env.asked }
  | sent (htook : p.Took c i a s)
      (hfull : ∀ k, p.space c.inner k = false → p.space s.inner k = false) :
      Turned p c i a (.ok (.inr i)) s
  | broken (htook : p.Took c i a s) (hunowned : p.unowned a) : Turned p c i a (.error .panic) s

variable [DecidableEq κ]

/-- From `c` to `s` the entries `sent` have been sent. Of each kind they stood before those that are
left, and these keep their order. -/
structure Drained (p : Pending σ α κ ρ n) (c s : Ctx σ) (sent : List α) : Prop where
  written : s.env.written = c.env.written ++ sent.map p.offer
  order : ∀ k, (p.queue c.inner).toList.filter (p.kind · = k) =
    sent.filter (p.kind · = k) ++ (p.queue s.inner).toList.filter (p.kind · = k)
  sublist : (p.queue s.inner).toList.Sublist (p.queue c.inner).toList
  ticked : c.env.Ticked (sent.map p.reads).sum s.env
  rest : p.rest s.inner = p.rest c.inner

variable {p : Pending σ α κ ρ n} {c s s' : Ctx σ} {i : Nat} {a : α} {sent : List α}

omit [DecidableEq κ] in
/-- There is no space for an entry that the loop has passed. -/
def Passed (p : Pending σ α κ ρ n) (i : Nat) (s : Ctx σ) : Prop :=
  ∀ k < i, ∀ b, (p.queue s.inner).get? k = some b → p.space s.inner (p.kind b) = false

theorem Drained.refl : p.Drained c c [] where
  written := (List.append_nil _).symm
  order _ := rfl
  sublist := .refl _
  ticked := .refl
  rest := rfl

theorem Drained.asked (h : p.Drained c s sent) : p.Drained c { s with env := s.env.asked } sent where
  written := h.written
  order := h.order
  sublist := h.sublist
  ticked := h.ticked.congr rfl rfl
  rest := h.rest

/-- The entries before the one that is sent are of other kinds. -/
theorem Drained.took (h : p.Drained c s sent) (hget : (p.queue s.inner).get? i = some a)
    (hpassed : p.Passed i s) (htook : p.Took s i a s') : p.Drained c s' (sent ++ [a]) where
  written := by simp [htook.written, h.written]
  order k := by
    rw [h.order, htook.queue]
    by_cases hk : p.kind a = k
    · have hbefore (j : Nat) (hj : j < i) (b : α) (hb : (p.queue s.inner).get? j = some b) :
          decide (p.kind b = k) = false := by
        refine decide_eq_false fun hkind => ?_
        have hspace := hpassed j hj b hb
        rw [hkind, ← hk, htook.space] at hspace
        cases hspace
      rw [BoundedVec.filter_removeAt_of_pos hget (decide_eq_true hk) hbefore]
      simp [hk]
    · rw [BoundedVec.filter_removeAt_of_neg hget (decide_eq_false hk), List.filter_append,
        List.filter_cons_of_neg (by simpa using hk)]
      simp
  sublist := by
    rw [htook.queue]
    exact (List.eraseIdx_sublist ..).trans h.sublist
  ticked := by
    rw [List.map_append, List.sum_append, List.map_singleton, List.sum_singleton]
    exact h.ticked.trans htook.ticked
  rest := htook.rest.trans h.rest

theorem Drained.mem (h : p.Drained c s sent) (ha : a ∈ sent) : a ∈ p.queue c.inner := by
  have hmem : a ∈ sent.filter (p.kind · = p.kind a) ++
      (p.queue s.inner).toList.filter (p.kind · = p.kind a) := by simp [ha]
  rw [← h.order] at hmem
  exact List.mem_of_mem_filter hmem

omit [DecidableEq κ] in
theorem Passed.took (hpassed : p.Passed i s) (htook : p.Took s i a s')
    (hfull : ∀ k, p.space s.inner k = false → p.space s'.inner k = false) : p.Passed i s' := by
  intro k hk b hb
  rw [htook.queue, BoundedVec.get?, BoundedVec.toList_removeAt, List.getElem?_eraseIdx_of_lt hk] at hb
  exact hfull _ (hpassed k hk b hb)

omit [DecidableEq κ] in
theorem Passed.succ (hpassed : p.Passed i s) (hget : (p.queue s.inner).get? i = some a)
    (hspace : p.space s.inner (p.kind a) = false) : p.Passed (i + 1) s := by
  intro k hk b hb
  rcases Nat.lt_succ_iff_lt_or_eq.mp hk with hk | rfl
  · exact hpassed k hk b hb
  · cases hget.symm.trans hb
    exact hspace

/-- How the loop ends. -/
structure Ends (p : Pending σ α κ ρ n) (res : Except (Stop MqttError) SendResult) (s : Ctx σ)
    (sent : List α) : Prop where
  blocked : res = .ok .sentAll → ∀ a ∈ p.queue s.inner, p.space s.inner (p.kind a) = false
  unowned : res = .error .panic → ∃ a, sent.getLast? = some a ∧ p.unowned a

/-- The rule for the loop. -/
theorem whileIndex_drained {turn : Nat → Comp σ (SendResult ⊕ Nat)}
    (hturn : ∀ c i a, (p.queue c.inner).get? i = some a →
      ∃ r s, (turn i).exec c = (r, s) ∧ p.Turned c i a r s) (c : Ctx σ) :
    ∃ res s sent, (whileIndex (fun c => (p.queue c.inner).len) turn SendResult.sentAll
        (p.queue c.inner).len 0).exec c = (res, s) ∧ p.Drained c s sent ∧ p.Ends res s sent := by
  have hturns : LoopTurns (fun s : Ctx σ => (p.queue s.inner).len) turn
      (fun i s => (∃ sent, p.Drained c s sent) ∧ p.Passed i s)
      (fun r s => ∃ sent, p.Drained c s sent ∧ p.Ends r s sent) := by
    rintro i s ⟨⟨sent, h⟩, hpassed⟩ hi
    dsimp only at hi ⊢
    obtain ⟨a, ha⟩ : ∃ a, (p.queue s.inner).get? i = some a := ⟨_, List.getElem?_eq_getElem hi⟩
    obtain ⟨r, s', hexec, hr⟩ := hturn s i a ha
    rw [hexec]
    cases hr with
    | blocked hspace => exact ⟨⟨⟨sent, h⟩, hpassed.succ ha hspace⟩, by omega⟩
    | refused => exact ⟨sent, h.asked, nofun, nofun⟩
    | failed e => exact ⟨sent, h.asked, nofun, nofun⟩
    | sent htook hfull =>
      have hlen := BoundedVec.removeAt_length ha
      refine ⟨⟨⟨_, h.took ha hpassed htook⟩, hpassed.took htook hfull⟩, ?_⟩
      rw [htook.queue]
      omega
    | broken htook hunowned =>
      exact ⟨_, h.took ha hpassed htook, nofun, fun _ => ⟨a, List.getLast?_concat, hunowned⟩⟩
  have hlast (i : Nat) (s : Ctx σ) (h : (∃ sent, p.Drained c s sent) ∧ p.Passed i s)
      (hlen : (p.queue s.inner).len ≤ i) :
      ∃ sent, p.Drained c s sent ∧ p.Ends (.ok .sentAll) s sent := by
    obtain ⟨⟨sent, h⟩, hpassed⟩ := h
    refine ⟨sent, h, fun _ a ha => ?_, nofun⟩
    obtain ⟨k, hk, rfl⟩ := List.getElem_of_mem ha
    exact hpassed k (Nat.lt_of_lt_of_le hk hlen) _ (List.getElem?_eq_getElem hk)
  obtain ⟨r, s, hexec, sent, hdrained, hends⟩ :=
    hturns.exec hlast (s := c) ⟨⟨[], .refl⟩, fun k hk => absurd hk (Nat.not_lt_zero k)⟩
  exact ⟨r, s, sent, hexec, hdrained, hends⟩

end Pending

end EmbeddedMqttc
