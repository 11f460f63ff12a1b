import Mathlib

/-!
# Programs over a state that can fail, panic or be suspended

`Prog σ ε α` is a computation that changes a state `σ` and either returns a value or stops. The
state of a stopped program is kept: it is what a caller finds after an error, and what is left
when a suspended computation is dropped.

Three kinds of facts are proved about programs. `MovesAt R m s` says that every exit of `m` from `s`
is reached through steps of a relation `R`, so that whatever the steps of `R` preserve holds at
every exit, and `ExitsAt R S m s` says in addition how `m` may stop. `Triple P m Q E` is the usual
specification with one postcondition for a returned value and one for a stop.
-/

/-- Why a program did not return a value: it returned an error, it panicked, or it is suspended. -/
inductive Stop (ε : Type) where
  | fail (e : ε)
  | panic
  | parked
  deriving DecidableEq, Repr

abbrev Prog (σ ε : Type) := ExceptT (Stop ε) (StateM σ)

namespace Prog

variable {σ ε α β ρ : Type}

/-- Run a program: its outcome and the state it leaves. -/
def exec (m : Prog σ ε α) (s : σ) : Except (Stop ε) α × σ := Id.run (m.run.run s)

def fail (e : ε) : Prog σ ε α := throw (.fail e)

def abort : Prog σ ε α := throw .panic

def park : Prog σ ε α := throw .parked

/-- The value of an `Option` that the program takes to be present. -/
def unwrap : Option α → Prog σ ε α
  | some a => pure a
  | none => abort

/-- Stop with `x` unless the condition holds. -/
def ensure (c : Prop) [Decidable c] (x : Stop ε) : Prog σ ε Unit := if c then pure () else throw x

/-- `loop n body` repeats `body` until it gives a value. A loop that has used up its `n` turns is
suspended: `n` is chosen so that this happens only when the environment has no answer left. -/
def loop : Nat → Prog σ ε (Option α) → Prog σ ε α
  | 0, _ => park
  | n + 1, body => do
    match ← body with
    | some a => pure a
    | none => loop n body

/-- `while i < size { turn i }`, where a turn ends the loop with a result or names the next index.
The first number bounds the turns, so it is at least `size - i` for a loop that counts upwards. -/
def whileIndex (size : σ → Nat) (turn : Nat → Prog σ ε (ρ ⊕ Nat)) (last : ρ) :
    Nat → Nat → Prog σ ε ρ
  | 0, _ => pure last
  | n + 1, i => do
    let s ← get
    if i < size s then
      match ← turn i with
      | .inl r => pure r
      | .inr j => whileIndex size turn last n j
    else pure last

/-! ## Running the primitives -/

@[simp] theorem exec_pure (a : α) (s : σ) : (pure a : Prog σ ε α).exec s = (.ok a, s) := rfl

@[simp] theorem exec_throw (x : Stop ε) (s : σ) :
    (throw x : Prog σ ε α).exec s = (.error x, s) := rfl

@[simp] theorem exec_fail (e : ε) (s : σ) :
    (fail e : Prog σ ε α).exec s = (.error (.fail e), s) := rfl

@[simp] theorem exec_abort (s : σ) : (abort : Prog σ ε α).exec s = (.error .panic, s) := rfl

@[simp] theorem exec_park (s : σ) : (park : Prog σ ε α).exec s = (.error .parked, s) := rfl

@[simp] theorem exec_get (s : σ) : (get : Prog σ ε σ).exec s = (.ok s, s) := rfl

@[simp] theorem exec_set (t s : σ) : (set t : Prog σ ε PUnit).exec s = (.ok ⟨⟩, t) := rfl

@[simp] theorem exec_modify (f : σ → σ) (s : σ) :
    (modify f : Prog σ ε PUnit).exec s = (.ok ⟨⟩, f s) := rfl

@[simp] theorem exec_unwrap_some (a : α) (s : σ) :
    (unwrap (some a) : Prog σ ε α).exec s = (.ok a, s) := rfl

@[simp] theorem exec_unwrap_none (s : σ) :
    (unwrap none : Prog σ ε α).exec s = (.error .panic, s) := rfl

theorem exec_ensure (c : Prop) [Decidable c] (x : Stop ε) (s : σ) :
    (ensure c x : Prog σ ε Unit).exec s = (if c then .ok () else .error x, s) := by
  unfold ensure; split <;> rfl

theorem exec_bind (m : Prog σ ε α) (f : α → Prog σ ε β) (s : σ) :
    (m >>= f).exec s =
      match m.exec s with
      | (.ok a, s') => (f a).exec s'
      | (.error x, s') => (.error x, s') := by
  simp only [exec, ExceptT.run_bind, StateT.run_bind]
  change Id.run (match (m.run.run s : Except (Stop ε) α × σ) with | (r, s') => _) = _
  rcases (m.run.run s : Except (Stop ε) α × σ) with ⟨_ | _, _⟩ <;> rfl

theorem exec_eq_of_fst {m : Prog σ ε α} {r : Except (Stop ε) α} (h : (m.exec s).1 = r) :
    m.exec s = (r, (m.exec s).2) := Prod.ext h rfl

theorem exec_bind_ok {m : Prog σ ε α} {f : α → Prog σ ε β} (h : m.exec s = (.ok a, s')) :
    (m >>= f).exec s = (f a).exec s' := by rw [exec_bind, h]

theorem exec_bind_error {m : Prog σ ε α} {f : α → Prog σ ε β} (h : m.exec s = (.error x, s')) :
    (m >>= f).exec s = (.error x, s') := by rw [exec_bind, h]

@[simp] theorem exec_pure_bind (a : α) (f : α → Prog σ ε β) (s : σ) :
    (pure a >>= f).exec s = (f a).exec s := exec_bind_ok rfl

@[simp] theorem exec_get_bind (f : σ → Prog σ ε β) (s : σ) :
    (get >>= f).exec s = (f s).exec s := exec_bind_ok rfl

@[simp] theorem exec_set_bind (t : σ) (f : PUnit → Prog σ ε β) (s : σ) :
    (set t >>= f).exec s = (f ⟨⟩).exec t := exec_bind_ok rfl

@[simp] theorem exec_modify_bind (g : σ → σ) (f : PUnit → Prog σ ε β) (s : σ) :
    (modify g >>= f).exec s = (f ⟨⟩).exec (g s) := exec_bind_ok rfl

@[simp] theorem exec_unwrap_some_bind (a : α) (f : α → Prog σ ε β) (s : σ) :
    (unwrap (some a) >>= f).exec s = (f a).exec s := exec_bind_ok rfl

@[simp] theorem exec_map (g : α → β) (m : Prog σ ε α) (s : σ) :
    (g <$> m).exec s = ((m.exec s).1.map g, (m.exec s).2) := by
  rw [map_eq_pure_bind, exec_bind]
  rcases m.exec s with ⟨_ | _, _⟩ <;> rfl

@[simp] theorem map_ok (g : α → β) (a : α) : (Except.ok a : Except (Stop ε) α).map g = .ok (g a) := rfl

/-- Everything a sequence of two programs can do. -/
theorem exec_bind_cases (m : Prog σ ε α) (f : α → Prog σ ε β) (s : σ) :
    (∃ a s', m.exec s = (.ok a, s') ∧ (m >>= f).exec s = (f a).exec s') ∨
      (∃ x s', m.exec s = (.error x, s') ∧ (m >>= f).exec s = (.error x, s')) := by
  rcases h : m.exec s with ⟨x | a, s'⟩
  · exact .inr ⟨x, s', rfl, exec_bind_error h⟩
  · exact .inl ⟨a, s', rfl, exec_bind_ok h⟩

theorem exec_bind_eq_ok {m : Prog σ ε α} {f : α → Prog σ ε β} {b : β}
    (h : (m >>= f).exec s = (.ok b, t)) :
    ∃ a s', m.exec s = (.ok a, s') ∧ (f a).exec s' = (.ok b, t) := by
  rcases exec_bind_cases m f s with ⟨a, s', hm, hb⟩ | ⟨x, s', hm, hb⟩
  · exact ⟨a, s', hm, hb ▸ h⟩
  · rw [hb] at h; cases h

theorem exec_ensure_eq_ok {c : Prop} [Decidable c] {x : Stop ε} {u : Unit}
    (h : (ensure c x : Prog σ ε Unit).exec s = (.ok u, t)) : c ∧ t = s := by
  rw [exec_ensure] at h
  split at h <;> cases h
  exact ⟨by assumption, rfl⟩

/-! ## Steps a program is made of -/

/-- Every exit of `m` from `s` is reached through steps of `R`. -/
def MovesAt (R : σ → σ → Prop) (m : Prog σ ε α) (s : σ) : Prop :=
  Relation.ReflTransGen R s (m.exec s).2

variable {R : σ → σ → Prop} {m : Prog σ ε α} {f : α → Prog σ ε β} {s s' : σ}

theorem MovesAt.pure (a : α) : MovesAt R (pure a : Prog σ ε α) s := .refl

theorem MovesAt.fail (e : ε) : MovesAt R (fail e : Prog σ ε α) s := .refl

theorem MovesAt.park : MovesAt R (park : Prog σ ε α) s := .refl

theorem MovesAt.get : MovesAt R (get : Prog σ ε σ) s := .refl

theorem MovesAt.unwrap (o : Option α) : MovesAt R (unwrap o : Prog σ ε α) s := by
  cases o <;> exact .refl

theorem MovesAt.ensure (c : Prop) [Decidable c] (x : Stop ε) :
    MovesAt R (ensure c x : Prog σ ε Unit) s := by
  rw [MovesAt, exec_ensure]

theorem MovesAt.modify (g : σ → σ) (h : Relation.ReflTransGen R s (g s)) :
    MovesAt R (modify g : Prog σ ε PUnit) s := h

/-- A sequence is made of steps when its first part is, and its second part is from every state in
which the first part returns. -/
theorem MovesAt.bind (hm : MovesAt R m s)
    (hf : ∀ a s', m.exec s = (.ok a, s') → MovesAt R (f a) s') : MovesAt R (m >>= f) s := by
  rcases exec_bind_cases m f s with ⟨a, s', h, hb⟩ | ⟨x, s', h, hb⟩
  · have hm : Relation.ReflTransGen R s s' := by simpa [MovesAt, h] using hm
    exact hm.trans (by simpa [MovesAt, hb] using hf a s' h)
  · simpa [MovesAt, h, hb] using hm

theorem MovesAt.mono {R' : σ → σ → Prop} (hm : MovesAt R m s) (h : ∀ s s', R s s' → R' s s') :
    MovesAt R' m s := Relation.ReflTransGen.mono (fun s s' => h s s') _ _ hm

theorem MovesAt.map {g : α → β} (hm : MovesAt R m s) : MovesAt R (g <$> m) s := by
  rwa [MovesAt, exec_map]

theorem MovesAt.get_bind {f : σ → Prog σ ε β} (h : MovesAt R (f s) s) :
    MovesAt R (MonadState.get >>= f) s := .bind .get fun _ _ h' => by cases h'; exact h

theorem MovesAt.loop {body : Prog σ ε (Option α)} (h : ∀ s, MovesAt R body s) (n : Nat) :
    MovesAt R (loop n body) s := by
  induction n generalizing s with
  | zero => exact .park
  | succ n ih =>
    refine .bind (h s) fun a s' _ => ?_
    cases a with
    | none => exact ih
    | some a => exact .pure a

/-- What every step preserves holds at every exit. -/
theorem MovesAt.invariant {I : σ → Prop} (hm : MovesAt R m s)
    (hR : ∀ s s', R s s' → I s → I s') (hs : I s) : I (m.exec s).2 := by
  unfold MovesAt at hm
  generalize (m.exec s).2 = t at hm
  induction hm with
  | refl => exact hs
  | tail _ hstep ih => exact hR _ _ hstep ih

/-! ## Specifications -/

/-- From a state that satisfies `P`, `m` returns a value and a state related by `Q`, or stops in a
way and in a state related by `E`. -/
def Triple (P : σ → Prop) (m : Prog σ ε α) (Q : α → σ → Prop) (E : Stop ε → σ → Prop) : Prop :=
  ∀ s, P s → match m.exec s with
    | (.ok a, s') => Q a s'
    | (.error x, s') => E x s'

variable {P P' : σ → Prop} {Q Q' : α → σ → Prop} {E E' : Stop ε → σ → Prop}

theorem Triple.of_ok (h : Triple P m Q E) (hs : P s) (hm : m.exec s = (.ok a, s')) : Q a s' := by
  have := h s hs; rwa [hm] at this

theorem Triple.of_error (h : Triple P m Q E) (hs : P s) (hm : m.exec s = (.error x, s')) :
    E x s' := by
  have := h s hs; rwa [hm] at this

theorem Triple.conseq (h : Triple P m Q E) (hP : ∀ s, P' s → P s) (hQ : ∀ a s, Q a s → Q' a s)
    (hE : ∀ x s, E x s → E' x s) : Triple P' m Q' E' := by
  intro s hs
  have := h s (hP s hs)
  split <;> simp_all

theorem Triple.weaken (h : Triple P m Q E) (hQ : ∀ a s, Q a s → Q' a s)
    (hE : ∀ x s, E x s → E' x s) : Triple P m Q' E' := h.conseq (fun _ h => h) hQ hE

theorem Triple.pure (a : α) (h : ∀ s, P s → Q a s) : Triple P (pure a : Prog σ ε α) Q E :=
  fun s hs => h s hs

theorem Triple.throw (x : Stop ε) (h : ∀ s, P s → E x s) : Triple P (throw x : Prog σ ε α) Q E :=
  fun s hs => h s hs

theorem Triple.ensure (c : Prop) [Decidable c] (x : Stop ε) {Q : Unit → σ → Prop}
    (h : ∀ s, P s → c → Q () s) (hx : ∀ s, P s → ¬ c → E x s) :
    Triple P (Prog.ensure c x : Prog σ ε Unit) Q E := by
  unfold Prog.ensure
  split
  · exact .pure _ fun s hs => h s hs (by assumption)
  · exact .throw _ fun s hs => hx s hs (by assumption)

theorem Triple.exists {ι : Type} {P : ι → σ → Prop} (h : ∀ i, Triple (P i) m Q E) :
    Triple (fun s => ∃ i, P i s) m Q E := fun s ⟨i, hs⟩ => h i s hs

theorem Triple.and_left {p : Prop} (h : p → Triple P m Q E) :
    Triple (fun s => p ∧ P s) m Q E := fun s hs => h hs.1 s hs.2

theorem Triple.bind {Q : α → σ → Prop} {Q' : β → σ → Prop} (hm : Triple P m Q E)
    (hf : ∀ a, Triple (Q a) (f a) Q' E) : Triple P (m >>= f) Q' E := by
  intro s hs
  rcases exec_bind_cases m f s with ⟨a, s', h, hb⟩ | ⟨x, s', h, hb⟩
  · rw [hb]; exact hf a s' (hm.of_ok hs h)
  · rw [hb]; exact hm.of_error hs h

theorem Triple.get_bind {f : σ → Prog σ ε β} {Q : β → σ → Prop}
    (h : ∀ t, Triple (fun s => s = t ∧ P s) (f t) Q E) : Triple P (MonadState.get >>= f) Q E :=
  .bind (Q := fun t s => s = t ∧ P s) (fun _ hs => ⟨rfl, hs⟩) h

/-- A program that looks at the state, of which the precondition is known. -/
theorem Triple.get_bind_of_pre {f : σ → Prog σ ε β} {Q : β → σ → Prop}
    (h : ∀ t, P t → Triple P (f t) Q E) : Triple P (MonadState.get >>= f) Q E := by
  refine .get_bind fun t => ?_
  rintro s ⟨rfl, hs⟩
  exact h s hs s hs

theorem Triple.modify (g : σ → σ) {Q : PUnit → σ → Prop} (h : ∀ s, P s → Q ⟨⟩ (g s)) :
    Triple P (modify g : Prog σ ε PUnit) Q E := fun s hs => h s hs

theorem Triple.loop {body : Prog σ ε (Option α)} {I : σ → Prop}
    (h : Triple I body (fun o s => match o with | some a => Q a s | none => I s) E)
    (hpark : ∀ s, I s → E .parked s) (n : Nat) : Triple I (loop n body) Q E := by
  induction n with
  | zero => exact .throw _ hpark
  | succ n ih =>
    refine .bind h fun o => ?_
    cases o with
    | none => exact ih
    | some a => exact .pure a fun _ h => h

/-- A loop that has ended with some number of turns ends so with more. -/
theorem exec_loop_of_le {body : Prog σ ε (Option α)} {n m : Nat} (hle : n ≤ m) {r : Except (Stop ε) α}
    (h : (loop n body).exec s = (r, s')) (hr : r ≠ .error .parked) :
    (loop m body).exec s = (r, s') := by
  induction n generalizing m s with
  | zero =>
    cases h
    exact absurd rfl hr
  | succ n ih =>
    obtain ⟨k, rfl⟩ := Nat.exists_eq_succ_of_ne_zero (Nat.ne_of_gt (Nat.lt_of_lt_of_le n.succ_pos hle))
    rw [loop, exec_bind] at h ⊢
    split at h
    · rename_i o s₁ hbody
      cases o with
      | none => exact ih (Nat.le_of_succ_le_succ hle) h
      | some a => exact h
    · exact h

/-- A loop whose turns lower a measure is not cut short: as long as the measure is below the number
of turns, the loop ends with a value or in the body. -/
theorem Triple.loop_measure {body : Prog σ ε (Option α)} {I : σ → Prop} (μ : σ → Nat)
    (h : ∀ k, Triple (fun s => I s ∧ μ s = k) body
      (fun o s => match o with | some a => Q a s | none => I s ∧ μ s < k) E) (n : Nat) :
    Triple (fun s => I s ∧ μ s < n) (Prog.loop n body) Q E := by
  induction n with
  | zero => exact fun s hs => absurd hs.2 (Nat.not_lt_zero _)
  | succ n ih =>
    intro s hs
    have hbody : Triple (fun t => I t ∧ μ t = μ s) body
        (fun o t => match o with | some a => Q a t | none => I t ∧ μ t < n) E := by
      refine (h (μ s)).conseq (fun _ h => h) (fun o t ht => ?_) (fun _ _ h => h)
      cases o with
      | some a => exact ht
      | none => exact ⟨ht.1, by omega⟩
    refine Triple.bind hbody (fun o => ?_) s ⟨hs.1, rfl⟩
    cases o with
    | none => exact ih
    | some a => exact .pure a fun _ h => h

/-- A loop over indices with enough turns ends with the result of a turn, or where the index has
reached the end. `J` is what holds whenever a turn begins. -/
theorem Triple.whileIndex {size : σ → Nat} {turn : Nat → Prog σ ε (ρ ⊕ Nat)} {last : ρ}
    {J : Nat → σ → Prop} {Q : ρ → σ → Prop}
    (h : ∀ i k, Triple (fun s => J i s ∧ i < size s ∧ size s - i = k) (turn i)
      (fun r s => match r with | .inl r => Q r s | .inr j => J j s ∧ size s - j < k) E)
    (hlast : ∀ i s, J i s → size s ≤ i → Q last s) (n i : Nat) :
    Triple (fun s => J i s ∧ size s - i ≤ n) (Prog.whileIndex size turn last n i) Q E := by
  induction n generalizing i with
  | zero => exact .pure last fun s hs => hlast i s hs.1 (by omega)
  | succ n ih =>
    intro s hs
    have hloop : Triple (fun t => t = s) (Prog.whileIndex size turn last (n + 1) i) Q E := by
      refine .get_bind fun t => ?_
      split
      · rename_i hi
        have hturn : Triple (fun s' => s' = t ∧ s' = s) (turn i) (fun r s' =>
            match r with | .inl r => Q r s' | .inr j => J j s' ∧ size s' - j ≤ n) E := by
          refine (h i (size s - i)).conseq ?_ (fun r s' hr => ?_) fun _ _ hE => hE
          · rintro _ ⟨rfl, rfl⟩
            exact ⟨hs.1, hi, rfl⟩
          · cases r with
            | inl r => exact hr
            | inr j => exact ⟨hr.1, by have := hs.2; have := hr.2; omega⟩
        refine .bind hturn fun r => ?_
        cases r with
        | inl r => exact .pure r fun _ hr => hr
        | inr j => exact ih j
      · rename_i hi
        refine .pure last ?_
        rintro _ ⟨rfl, rfl⟩
        exact hlast i _ hs.1 (Nat.le_of_not_lt hi)
    exact hloop s rfl

/-- Every turn of a loop over indices ends the loop as `Q` says, or comes nearer to the end. `J` is
what holds whenever a turn begins. -/
def LoopTurns (size : σ → Nat) (turn : Nat → Prog σ ε (ρ ⊕ Nat)) (J : Nat → σ → Prop)
    (Q : Except (Stop ε) ρ → σ → Prop) : Prop :=
  ∀ i s, J i s → i < size s → match (turn i).exec s with
    | (.ok (.inl r), s') => Q (.ok r) s'
    | (.ok (.inr j), s') => J j s' ∧ size s' - j < size s - i
    | (.error x, s') => Q (.error x) s'

/-- The rule for a whole loop, which begins at the first index. -/
theorem LoopTurns.exec {size : σ → Nat} {turn : Nat → Prog σ ε (ρ ⊕ Nat)} {last : ρ}
    {J : Nat → σ → Prop} {Q : Except (Stop ε) ρ → σ → Prop} (h : LoopTurns size turn J Q)
    (hlast : ∀ i s, J i s → size s ≤ i → Q (.ok last) s) (hJ : J 0 s) :
    ∃ r s', (Prog.whileIndex size turn last (size s) 0).exec s = (r, s') ∧ Q r s' := by
  have hturn (i k : Nat) : Triple (fun s => J i s ∧ i < size s ∧ size s - i = k) (turn i)
      (fun r s => match r with | .inl r => Q (.ok r) s | .inr j => J j s ∧ size s - j < k)
      (fun x => Q (.error x)) := by
    rintro s ⟨hJ, hi, rfl⟩
    have hend := h i s hJ hi
    rcases hexec : (turn i).exec s with ⟨x | r | j, s'⟩ <;> rw [hexec] at hend <;> exact hend
  have hloop := Triple.whileIndex hturn hlast (size s) 0 s ⟨hJ, Nat.sub_le ..⟩
  rcases hexec : (Prog.whileIndex size turn last (size s) 0).exec s with ⟨x | r, s'⟩ <;>
    rw [hexec] at hloop <;> exact ⟨_, _, rfl, hloop⟩

/-- What holds at every exit, from wherever a turn begins. `J` is what holds then. -/
theorem Triple.whileIndex_exits {size : σ → Nat} {turn : Nat → Prog σ ε (ρ ⊕ Nat)} {last : ρ}
    {J : Nat → σ → Prop} {I : σ → Prop}
    (h : ∀ i, Triple (fun s => J i s ∧ i < size s) (turn i)
      (fun r s => match r with | .inl _ => I s | .inr j => J j s) (fun _ => I))
    (hlast : ∀ i s, J i s → I s) (n i : Nat) :
    Triple (J i) (Prog.whileIndex size turn last n i) (fun _ => I) (fun _ => I) := by
  induction n generalizing i with
  | zero => exact .pure last fun s hs => hlast i s hs
  | succ n ih =>
    refine .get_bind fun t => ?_
    split
    · rename_i hi
      refine .bind (((h i).conseq ?_ (fun _ _ hr => hr) fun _ _ hE => hE)) fun r => ?_
      · rintro _ ⟨rfl, hs⟩
        exact ⟨hs, hi⟩
      · cases r with
        | inl r => exact .pure r fun _ hr => hr
        | inr j => exact ih j
    · exact .pure last fun s hs => hlast i s hs.2

/-- What holds at every exit, however it is reached. -/
theorem Triple.of_exits {I : σ → Prop} (h : ∀ s, P s → I (m.exec s).2) :
    Triple P m (fun _ => I) (fun _ => I) := by
  intro s hs
  have h := h s hs
  split <;> simp_all

theorem Triple.exits {I : σ → Prop} (h : Triple P m (fun _ => I) (fun _ => I)) (hs : P s) :
    I (m.exec s).2 := by
  have h := h s hs
  split at h <;> simp_all

theorem Triple.of_movesAt {I : σ → Prop} (hm : ∀ s, MovesAt R m s)
    (hR : ∀ s s', R s s' → I s → I s') : Triple I m (fun _ => I) (fun _ => I) := by
  intro s hs
  have h := (hm s).invariant hR hs
  split <;> simp_all

/-- A program that keeps `I` is a single step of the relation of all that keeps `I`. -/
theorem MovesAt.of_triple {I : σ → Prop} (h : Triple I m (fun _ => I) (fun _ => I)) (s : σ) :
    MovesAt (fun s s' => I s → I s') m s := by
  refine .single fun hs => ?_
  have h := h s hs
  split at h <;> simp_all

theorem Triple.and {Q₁ Q₂ : α → σ → Prop} {E₁ E₂ : Stop ε → σ → Prop} (h₁ : Triple P m Q₁ E₁)
    (h₂ : Triple P m Q₂ E₂) :
    Triple P m (fun a s => Q₁ a s ∧ Q₂ a s) (fun x s => E₁ x s ∧ E₂ x s) := by
  intro s hs
  have h₁ := h₁ s hs
  have h₂ := h₂ s hs
  split <;> simp_all

theorem Triple.both {P₁ P₂ : σ → Prop} {Q₁ Q₂ : α → σ → Prop} {E₁ E₂ : Stop ε → σ → Prop}
    (h₁ : Triple P₁ m Q₁ E₁) (h₂ : Triple P₂ m Q₂ E₂) :
    Triple (fun s => P₁ s ∧ P₂ s) m (fun a s => Q₁ a s ∧ Q₂ a s) (fun x s => E₁ x s ∧ E₂ x s) :=
  .and (h₁.conseq (fun _ h => h.1) (fun _ _ h => h) fun _ _ h => h)
    (h₂.conseq (fun _ h => h.2) (fun _ _ h => h) fun _ _ h => h)

/-! ## Steps and stops together -/

/-- A return of `m` from `s` is reached through steps of `R`. Where `m` stops, `S t x s'` tells how and
with which last step it did so in a state `t` on the way. -/
def ExitsAt (R : σ → σ → Prop) (S : σ → Stop ε → σ → Prop) (m : Prog σ ε α) (s : σ) : Prop :=
  (∀ a, (m.exec s).1 = .ok a → Relation.ReflTransGen R s (m.exec s).2) ∧
    ∀ x, (m.exec s).1 = .error x →
      ∃ t, Relation.ReflTransGen R s t ∧ S t x (m.exec s).2

section

variable {S : σ → Stop ε → σ → Prop}

theorem ExitsAt.of_ok (hm : m.exec s = (.ok a, s')) (h : Relation.ReflTransGen R s s') :
    ExitsAt R S m s := by
  refine ⟨fun b _ => by rwa [hm], fun x hx => ?_⟩
  rw [hm] at hx
  cases hx

theorem ExitsAt.of_stop {t : σ} (hm : m.exec s = (.error x, s'))
    (h : Relation.ReflTransGen R s t) (hx : S t x s') : ExitsAt R S m s := by
  refine ⟨fun a ha => ?_, fun y hy => ?_⟩
  · rw [hm] at ha
    cases ha
  · rw [hm] at hy ⊢
    cases hy
    exact ⟨t, h, hx⟩

theorem ExitsAt.pure (a : α) : ExitsAt R S (pure a : Prog σ ε α) s := .of_ok rfl .refl

theorem ExitsAt.bind (hm : ExitsAt R S m s)
    (hf : ∀ a s', m.exec s = (.ok a, s') → ExitsAt R S (f a) s') : ExitsAt R S (m >>= f) s := by
  rcases exec_bind_cases m f s with ⟨a, s', h, hb⟩ | ⟨y, s', h, hb⟩
  · have hs' : Relation.ReflTransGen R s s' := by
      have := hm.1 a (congrArg Prod.fst h)
      rwa [h] at this
    refine ⟨fun b hok => ?_, fun x hx => ?_⟩
    · rw [hb] at hok ⊢
      exact hs'.trans ((hf a s' h).1 b hok)
    · rw [hb] at hx ⊢
      obtain ⟨t, ht, hS⟩ := (hf a s' h).2 x hx
      exact ⟨t, hs'.trans ht, hS⟩
  · refine ⟨fun b hok => ?_, fun x hx => ?_⟩
    · rw [hb] at hok
      cases hok
    · rw [hb] at hx ⊢
      cases hx
      have := hm.2 y (congrArg Prod.fst h)
      rwa [h] at this

theorem ExitsAt.get_bind {f : σ → Prog σ ε β} (h : ExitsAt R S (f s) s) :
    ExitsAt R S (MonadState.get >>= f) s := by
  refine .bind (.of_ok rfl .refl) fun _ _ h' => ?_
  cases h'
  exact h

theorem ExitsAt.unwrap_bind {o : Option α} {a : α} (ho : o = some a)
    (h : ExitsAt R S (f a) s) : ExitsAt R S (Prog.unwrap o >>= f) s := by
  subst ho
  refine .bind (.of_ok rfl .refl) fun _ _ h' => ?_
  cases h'
  exact h

/-- A loop makes the steps of its turns. `J` is what holds whenever a turn begins. -/
theorem ExitsAt.whileIndex {size : σ → Nat} {turn : Nat → Prog σ ε (ρ ⊕ Nat)} {last : ρ}
    {J : σ → Prop} (h : ∀ i s, J s → i < size s → ExitsAt R S (turn i) s)
    (hJ : ∀ i s r s', J s → (turn i).exec s = (.ok r, s') → J s') (n i : Nat) (hs : J s) :
    ExitsAt R S (whileIndex size turn last n i) s := by
  induction n generalizing s i with
  | zero => exact .pure _
  | succ n ih =>
    apply ExitsAt.get_bind
    split
    · rename_i hi
      apply ExitsAt.bind (h i s hs hi)
      intro r s' hr
      cases r with
      | inl r => exact .pure r
      | inr j => exact ih j (hJ i s _ s' hs hr)
    · exact .pure _

/-- When the last step of a stop is like the others, all exits are reached in the same way. -/
theorem ExitsAt.movesAt {R' : σ → σ → Prop} (hm : ExitsAt R S m s) (hR : ∀ t s', R t s' → R' t s')
    (hS : ∀ t x s', S t x s' → Relation.ReflTransGen R' t s') : MovesAt R' m s := by
  unfold MovesAt
  cases h : (m.exec s).1 with
  | ok a => exact Relation.ReflTransGen.mono hR _ _ (hm.1 a h)
  | error x =>
    obtain ⟨t, ht, hx⟩ := hm.2 x h
    exact (Relation.ReflTransGen.mono hR _ _ ht).trans (hS t x _ hx)

/-- What the steps keep holds at a return, and in the state where a stop occurs. -/
theorem ExitsAt.invariant {I : σ → Prop} (hm : ExitsAt R S m s)
    (hR : ∀ s s', R s s' → I s → I s') (hs : I s) :
    (∀ a, (m.exec s).1 = .ok a → I (m.exec s).2) ∧
      ∀ x, (m.exec s).1 = .error x → ∃ t, I t ∧ S t x (m.exec s).2 := by
  have hkeep (t : σ) (ht : Relation.ReflTransGen R s t) : I t := by
    induction ht with
    | refl => exact hs
    | tail _ hstep ih => exact hR _ _ hstep ih
  refine ⟨fun a ha => hkeep _ (hm.1 a ha), fun x hx => ?_⟩
  obtain ⟨t, ht, hS⟩ := hm.2 x hx
  exact ⟨t, hkeep t ht, hS⟩

end

/-! ## The ways a program stops -/

/-- Every stop of `m` is one of `S`. -/
def StopsIn (S : Stop ε → Prop) (m : Prog σ ε α) : Prop :=
  Triple (fun _ => True) m (fun _ _ => True) (fun x _ => S x)

section

variable {S : Stop ε → Prop}

theorem StopsIn.pure (a : α) : StopsIn S (pure a : Prog σ ε α) := fun _ _ => trivial

theorem StopsIn.get : StopsIn S (get : Prog σ ε σ) := fun _ _ => trivial

theorem StopsIn.modify (g : σ → σ) : StopsIn S (modify g : Prog σ ε PUnit) := fun _ _ => trivial

theorem StopsIn.set (t : σ) : StopsIn S (set t : Prog σ ε PUnit) := fun _ _ => trivial

theorem StopsIn.throw {x : Stop ε} (h : S x) : StopsIn S (throw x : Prog σ ε α) := fun _ _ => h

theorem StopsIn.bind (hm : StopsIn S m) (hf : ∀ a, StopsIn S (f a)) : StopsIn S (m >>= f) :=
  Triple.bind hm hf

theorem StopsIn.get_bind {f : σ → Prog σ ε β} (hf : ∀ s, StopsIn S (f s)) :
    StopsIn S (MonadState.get >>= f) := .bind .get hf

theorem StopsIn.unwrap (h : S .panic) (o : Option α) : StopsIn S (unwrap o : Prog σ ε α) := by
  cases o with
  | none => exact .throw h
  | some a => exact .pure a

theorem StopsIn.ensure (c : Prop) [Decidable c] {x : Stop ε} (h : S x) :
    StopsIn S (ensure c x : Prog σ ε Unit) := by
  unfold Prog.ensure
  split
  · exact .pure _
  · exact .throw h

theorem StopsIn.loop {body : Prog σ ε (Option α)} (h : StopsIn S body) (hpark : S .parked)
    (n : Nat) : StopsIn S (Prog.loop n body) :=
  Triple.loop (I := fun _ => True) (h.conseq (fun _ h => h) (fun o _ _ => by cases o <;> trivial)
    (fun _ _ h => h)) (fun _ _ => hpark) n

end

end Prog
