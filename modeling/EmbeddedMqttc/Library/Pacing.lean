import Mathlib

/-!
# Pacing

A sender writes what it has accepted, and writes it again when it has waited for longer than `D`.
Then nothing is written twice in a time that is no longer than `D`.
-/

namespace Pacing

variable {κ : Type}

/-- `pending` is still to be written. `waiting` has been written, the last time at the time beside
it. `known`, what was ever accepted, and `written` are history. -/
structure Sender (κ : Type) where
  now : Nat
  pending : Multiset κ
  waiting : Multiset (κ × Nat)
  known : Set κ
  written : List κ

/-- In every step time goes by, and entries may be forgotten. -/
structure Onward (s t : Sender κ) : Prop where
  now : s.now ≤ t.now
  known : s.known ⊆ t.known

inductive Step (D : Nat) (s t : Sender κ) : Prop
  | accept (new : Multiset κ) (honward : Onward s t) (hnew : new.Nodup)
      (hfresh : ∀ k ∈ new, k ∉ s.known) (hknown : ∀ k ∈ new, k ∈ t.known)
      (hpending : t.pending ≤ new + s.pending) (hwaiting : t.waiting ≤ s.waiting)
      (hwritten : t.written = s.written)
  | first (k : κ) (time : Nat) (honward : Onward s t) (htime : s.now ≤ time)
      (hpending : k ::ₘ t.pending ≤ s.pending) (hwaiting : t.waiting ≤ (k, time) ::ₘ s.waiting)
      (hwritten : t.written = s.written ++ [k])
  | again (k : κ) (sent time : Nat) (rest : Multiset (κ × Nat)) (honward : Onward s t)
      (hsent : s.waiting = (k, sent) ::ₘ rest) (hdue : sent + D < s.now) (htime : s.now ≤ time)
      (hpending : t.pending ≤ s.pending) (hwaiting : t.waiting ≤ (k, time) ::ₘ rest)
      (hwritten : t.written = s.written ++ [k])

variable {D start : Nat} {s t : Sender κ} {ws : List κ}

theorem Step.onward (h : Step D s t) : Onward s t := by
  cases h with
  | accept _ honward | first _ _ honward | again _ _ _ _ honward => exact honward

/-- Nothing is accepted or written. -/
theorem Step.settle (honward : Onward s t) (hpending : t.pending ≤ s.pending)
    (hwaiting : t.waiting ≤ s.waiting) (hwritten : t.written = s.written) : Step D s t :=
  .accept 0 honward Multiset.nodup_zero (by simp) (by simp) (by simpa using hpending) hwaiting
    hwritten

/-- The entries of another sender are put beside those of a sender. -/
def Sender.beside (s : Sender κ) (pending : Multiset κ) (waiting : Multiset (κ × Nat)) : Sender κ :=
  { s with pending := s.pending + pending, waiting := s.waiting + waiting }

theorem Step.beside (h : Step D s t) (pending : Multiset κ) (waiting : Multiset (κ × Nat)) :
    Step D (s.beside pending waiting) (t.beside pending waiting) := by
  cases h with
  | accept new honward hnew hfresh hknown hpending hwaiting hwritten =>
    refine .accept new ⟨honward.now, honward.known⟩ hnew hfresh hknown ?_
      (add_le_add_left hwaiting _) hwritten
    exact (add_le_add_left hpending pending).trans (le_of_eq (add_assoc ..))
  | first k time honward htime hpending hwaiting hwritten =>
    refine .first k time ⟨honward.now, honward.known⟩ htime ?_ ?_ hwritten
    · exact (le_of_eq (Multiset.cons_add ..).symm).trans (add_le_add_left hpending pending)
    · exact (add_le_add_left hwaiting waiting).trans (le_of_eq (Multiset.cons_add ..))
  | again k sent time rest honward hsent hdue htime hpending hwaiting hwritten =>
    refine .again k sent time (rest + waiting) ⟨honward.now, honward.known⟩ ?_ hdue htime
      (add_le_add_left hpending pending) ?_ hwritten
    · exact (congrArg (· + waiting) hsent).trans (Multiset.cons_add ..)
    · exact (add_le_add_left hwaiting waiting).trans (le_of_eq (Multiset.cons_add ..))

def Sender.keys (s : Sender κ) : Multiset κ := s.pending + s.waiting.map Prod.fst

structure Sender.Valid (s : Sender κ) : Prop where
  once : s.keys.Nodup
  known : ∀ k ∈ s.keys, k ∈ s.known
  written : ∀ k ∈ s.written, k ∈ s.known

namespace Sender.Valid

theorem of_empty (hkeys : s.keys = 0) (hwritten : s.written = []) : s.Valid where
  once := hkeys ▸ Multiset.nodup_zero
  known k hk := by simp [hkeys] at hk
  written k hk := by simp [hwritten] at hk

/-- A key that is pending does not wait. -/
theorem disjoint (h : s.Valid) {k : κ} (hk : k ∈ s.pending) {e : κ × Nat} (he : e ∈ s.waiting) :
    e.1 ≠ k := by
  rintro rfl
  have hdisjoint := (Multiset.nodup_add.mp h.once).2.2
  exact Multiset.disjoint_left.mp hdisjoint hk (Multiset.mem_map_of_mem _ he)

/-- A step that writes a key leaves no new one. -/
theorem write (h : s.Valid) (honward : Onward s t) (hkeys : t.keys ≤ s.keys) {k : κ}
    (hk : k ∈ s.keys) (hwritten : t.written = s.written ++ [k]) : t.Valid where
  once := Multiset.nodup_of_le hkeys h.once
  known k hk := honward.known (h.known k (Multiset.mem_of_le hkeys hk))
  written k' hk' := by
    rw [hwritten] at hk'
    rcases List.mem_append.mp hk' with hk' | hk'
    · exact honward.known (h.written k' hk')
    · obtain rfl := List.mem_singleton.mp hk'
      exact honward.known (h.known _ hk)

theorem step (h : s.Valid) (hstep : Step D s t) : t.Valid := by
  cases hstep with
  | accept new honward hnew hfresh hknown hpending hwaiting hwritten =>
    have hkeys : t.keys ≤ new + s.keys := by
      unfold keys
      rw [← add_assoc]
      exact add_le_add hpending (Multiset.map_le_map hwaiting)
    have hdisjoint : Disjoint new s.keys :=
      Multiset.disjoint_left.mpr fun hk hk' => hfresh _ hk (h.known _ hk')
    refine ⟨Multiset.nodup_of_le hkeys (Multiset.nodup_add.mpr ⟨hnew, h.once, hdisjoint⟩),
      fun k hk => ?_, fun k hk => honward.known (h.written k (hwritten ▸ hk))⟩
    rcases Multiset.mem_add.mp (Multiset.mem_of_le hkeys hk) with hk | hk
    · exact hknown k hk
    · exact honward.known (h.known k hk)
  | first k time honward htime hpending hwaiting hwritten =>
    have hkeys : t.keys ≤ s.keys := calc
      t.pending + t.waiting.map Prod.fst
        ≤ t.pending + ((k, time) ::ₘ s.waiting).map Prod.fst :=
          add_le_add_right (Multiset.map_le_map hwaiting) _
      _ = (k ::ₘ t.pending) + s.waiting.map Prod.fst := by simp
      _ ≤ s.keys := add_le_add_left hpending _
    have hk : k ∈ s.pending := Multiset.mem_of_le hpending (Multiset.mem_cons_self k _)
    exact h.write honward hkeys (Multiset.mem_add.mpr (.inl hk)) hwritten
  | again k sent time rest honward hsent hdue htime hpending hwaiting hwritten =>
    have hkeys : t.keys ≤ s.keys := calc
      t.pending + t.waiting.map Prod.fst
        ≤ s.pending + ((k, time) ::ₘ rest).map Prod.fst :=
          add_le_add hpending (Multiset.map_le_map hwaiting)
      _ = s.keys := by rw [keys, hsent, Multiset.map_cons, Multiset.map_cons]
    have hk : k ∈ s.waiting.map Prod.fst := by simp [hsent]
    exact h.write honward hkeys (Multiset.mem_add.mpr (.inr hk)) hwritten

end Sender.Valid

/-- `ws` is what has been written since `start`, and what of it waits has a time since then. -/
structure Paced (start : Nat) (ws : List κ) (s : Sender κ) : Prop where
  nodup : ws.Nodup
  pending : ∀ k ∈ ws, k ∉ s.pending
  waiting : ∀ e ∈ s.waiting, e.1 ∈ ws → start ≤ e.2
  known : ∀ k ∈ ws, k ∈ s.known

/-- A key that has not been written since `start` is written. -/
theorem Paced.write (h : Paced start ws s) (honward : Onward s t) {k : κ} (hk : k ∉ ws)
    (hknown : k ∈ t.known) (hpending : t.pending ≤ s.pending) (hnone : k ∉ t.pending)
    (hwaiting : ∀ e ∈ t.waiting, e.1 ≠ k → e ∈ s.waiting)
    (htime : ∀ e ∈ t.waiting, e.1 = k → start ≤ e.2) : Paced start (ws ++ [k]) t where
  nodup := List.nodup_append.mpr
    ⟨h.nodup, List.nodup_singleton k, fun _ ha _ hb => by
      obtain rfl := List.mem_singleton.mp hb
      rintro rfl
      exact hk ha⟩
  pending k' hk' hmem := by
    rcases List.mem_append.mp hk' with hk' | hk'
    · exact h.pending k' hk' (Multiset.mem_of_le hpending hmem)
    · exact hnone (List.mem_singleton.mp hk' ▸ hmem)
  waiting e he hmem := by
    by_cases hek : e.1 = k
    · exact htime e he hek
    · refine h.waiting e (hwaiting e he hek) ?_
      exact (List.mem_append.mp hmem).resolve_right fun hk' => hek (List.mem_singleton.mp hk')
  known k' hk' := by
    rcases List.mem_append.mp hk' with hk' | hk'
    · exact honward.known (h.known k' hk')
    · exact List.mem_singleton.mp hk' ▸ hknown

theorem Paced.step (h : Paced start ws s) (hvalid : s.Valid) (hstart : start ≤ s.now)
    (hsoon : s.now ≤ start + D) (hstep : Step D s t) :
    ∃ new, t.written = s.written ++ new ∧ Paced start (ws ++ new) t := by
  cases hstep with
  | accept new honward hnew hfresh hknown hpending hwaiting hwritten =>
    refine ⟨[], by rw [hwritten, List.append_nil], ?_⟩
    rw [List.append_nil]
    refine ⟨h.nodup, fun k hk hmem => ?_, fun e he => h.waiting e (Multiset.mem_of_le hwaiting he),
      fun k hk => honward.known (h.known k hk)⟩
    rcases Multiset.mem_add.mp (Multiset.mem_of_le hpending hmem) with hmem | hmem
    · exact hfresh k hmem (h.known k hk)
    · exact h.pending k hk hmem
  | first k time honward htime hpending hwaiting hwritten =>
    have hk : k ∈ s.pending := Multiset.mem_of_le hpending (Multiset.mem_cons_self k _)
    have hnone : k ∉ t.pending := by
      have hnodup := Multiset.nodup_of_le hpending (Multiset.nodup_add.mp hvalid.once).1
      exact (Multiset.nodup_cons.mp hnodup).1
    have hcases (e : κ × Nat) (he : e ∈ t.waiting) : e = (k, time) ∨ e ∈ s.waiting :=
      Multiset.mem_cons.mp (Multiset.mem_of_le hwaiting he)
    refine ⟨[k], hwritten, h.write honward (fun hmem => h.pending k hmem hk)
      (honward.known (hvalid.known k (Multiset.mem_add.mpr (.inl hk))))
      ((Multiset.le_cons_self _ k).trans hpending) hnone (fun e he hek => ?_) fun e he hek => ?_⟩
    · exact (hcases e he).resolve_left fun heq => hek (congrArg Prod.fst heq)
    · rcases hcases e he with rfl | he
      · exact hstart.trans htime
      · exact absurd hek (hvalid.disjoint hk he)
  | again k sent time rest honward hsent hdue htime hpending hwaiting hwritten =>
    have hmem : (k, sent) ∈ s.waiting := by simp [hsent]
    have hpresent : k ∈ s.keys := Multiset.mem_add.mpr (.inr (Multiset.mem_map_of_mem _ hmem))
    have hrest (e : κ × Nat) (he : e ∈ rest) : e.1 ≠ k := by
      have hnodup := (Multiset.nodup_add.mp hvalid.once).2.1
      rw [hsent, Multiset.map_cons] at hnodup
      rintro rfl
      exact (Multiset.nodup_cons.mp hnodup).1 (Multiset.mem_map.mpr ⟨e, he, rfl⟩)
    have hcases (e : κ × Nat) (he : e ∈ t.waiting) : e = (k, time) ∨ e ∈ rest :=
      Multiset.mem_cons.mp (Multiset.mem_of_le hwaiting he)
    -- an entry that is due was written before `start`
    have hk : k ∉ ws := fun hws => by
      have := h.waiting _ hmem hws
      omega
    refine ⟨[k], hwritten, h.write honward hk (honward.known (hvalid.known k hpresent))
      hpending (fun hk' => ?_) (fun e he hek => ?_) fun e he hek => ?_⟩
    · exact hvalid.disjoint (Multiset.mem_of_le hpending hk') hmem rfl
    · have he := (hcases e he).resolve_left fun heq => hek (congrArg Prod.fst heq)
      exact hsent ▸ Multiset.mem_cons_of_mem he
    · rcases hcases e he with rfl | he
      · exact hstart.trans htime
      · exact absurd hek (hrest e he)

/-- Nothing is written twice while no more than `D` goes by. -/
theorem nodup_of_steps (h : Relation.ReflTransGen (Step D) s t) (hs : s.Valid)
    (hsoon : t.now ≤ s.now + D) : ∃ ws, t.written = s.written ++ ws ∧ ws.Nodup := by
  suffices hall : t.Valid ∧ s.now ≤ t.now ∧
      ∃ ws, t.written = s.written ++ ws ∧ Paced s.now ws t by
    obtain ⟨-, -, ws, hwritten, hpaced⟩ := hall
    exact ⟨ws, hwritten, hpaced.nodup⟩
  induction h with
  | refl =>
    exact ⟨hs, Nat.le_refl _, [], (List.append_nil _).symm,
      ⟨List.nodup_nil, fun _ hk => (List.not_mem_nil hk).elim,
        fun _ _ hmem => (List.not_mem_nil hmem).elim, fun _ hk => (List.not_mem_nil hk).elim⟩⟩
  | @tail u t _ hstep ih =>
    have hnow := hstep.onward.now
    obtain ⟨hvalid, hstart, ws, hwritten, hpaced⟩ := ih (hnow.trans hsoon)
    obtain ⟨new, hnew, hpaced'⟩ := hpaced.step hvalid hstart (hnow.trans hsoon) hstep
    exact ⟨hvalid.step hstep, hstart.trans hnow, ws ++ new,
      by rw [hnew, hwritten, List.append_assoc], hpaced'⟩

theorem valid_of_steps (h : Relation.ReflTransGen (Step D) s t) (hs : s.Valid) : t.Valid := by
  induction h with
  | refl => exact hs
  | tail _ hstep ih => exact ih.step hstep

end Pacing
