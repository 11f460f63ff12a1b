import EmbeddedMqttc.Library.Prog

/-!
# Programs that mirror each other

`Mirrors e f m m'` says that `m'` does on the image of a state under `e` what `m` does on the state,
and that it returns the image under `f` of what `m` returns, or stops in the same way. A program whose
parts mirror those of another mirrors it.
-/

namespace Prog

variable {σ τ ε α β γ δ ρ : Type}

def Mirrors (e : σ → τ) (f : α → β) (m : Prog σ ε α) (m' : Prog τ ε β) : Prop :=
  ∀ s, m'.exec (e s) = ((m.exec s).1.map f, e (m.exec s).2)

namespace Mirrors

variable {e : σ → τ} {f : α → β} {g : γ → δ} {m : Prog σ ε α} {m' : Prog τ ε β}

theorem pure {b : β} (a : α) (h : b = f a) :
    Mirrors e f (Pure.pure a : Prog σ ε α) (Pure.pure b) := fun _ => by rw [h]; rfl

theorem throw (x : Stop ε) :
    Mirrors e f (MonadExcept.throw x : Prog σ ε α) (MonadExcept.throw x) := fun _ => rfl

theorem fail (x : ε) : Mirrors e f (Prog.fail x : Prog σ ε α) (Prog.fail x) := .throw _

theorem abort : Mirrors e f (Prog.abort : Prog σ ε α) Prog.abort := .throw _

theorem park : Mirrors e f (Prog.park : Prog σ ε α) Prog.park := .throw _

theorem unwrap {o : Option α} {o' : Option β} (h : o' = o.map f) :
    Mirrors e f (Prog.unwrap o : Prog σ ε α) (Prog.unwrap o') := by
  subst h
  cases o with
  | none => exact .abort
  | some a => exact .pure a rfl

theorem modify {h : σ → σ} {h' : τ → τ} (hh : ∀ s, h' (e s) = e (h s)) :
    Mirrors e id (modify h : Prog σ ε PUnit) (modify h') := by
  intro s
  rw [exec_modify, exec_modify, hh]
  rfl

theorem bind {k : α → Prog σ ε γ} {k' : β → Prog τ ε δ} (h : Mirrors e f m m')
    (hk : ∀ a, Mirrors e g (k a) (k' (f a))) : Mirrors e g (m >>= k) (m' >>= k') := by
  intro s
  have hs := h s
  rcases exec_bind_cases m k s with ⟨a, s', hm, hb⟩ | ⟨x, s', hm, hb⟩
  · rw [hm] at hs
    rw [hb, exec_bind_ok hs]
    exact hk a s'
  · rw [hm] at hs
    rw [hb, exec_bind_error hs]
    rfl

/-- What a program reads of the state is the same up to `e`. -/
theorem get_bind {k : σ → Prog σ ε γ} {k' : τ → Prog τ ε δ}
    (hk : ∀ s, Mirrors e g (k s) (k' (e s))) : Mirrors e g (get >>= k) (get >>= k') := by
  intro s
  rw [exec_get_bind, exec_get_bind]
  exact hk s s

theorem whileIndex {size : σ → Nat} {size' : τ → Nat} {turn : Nat → Prog σ ε (ρ ⊕ Nat)}
    {turn' : Nat → Prog τ ε (ρ ⊕ Nat)} (last : ρ) (hsize : ∀ s, size' (e s) = size s)
    (hturn : ∀ i, Mirrors e id (turn i) (turn' i)) (n i : Nat) :
    Mirrors e id (Prog.whileIndex size turn last n i) (Prog.whileIndex size' turn' last n i) := by
  induction n generalizing i with
  | zero => exact .pure last rfl
  | succ n ih =>
    refine .get_bind fun s => ?_
    rw [hsize]
    split
    · refine .bind (hturn i) fun r => ?_
      cases r with
      | inl r => exact .pure r rfl
      | inr j => exact ih j
    · exact .pure last rfl

section

variable {m₀ m : Prog σ ε α} {p : Prog τ ε α} {s₀ s : σ}

theorem exec_eq (h : Mirrors e id m p) (s : σ) : p.exec (e s) = ((m.exec s).1, e (m.exec s).2) := by
  rw [h s]
  rcases (m.exec s).1 with x | a
  · rfl
  · rfl

/-- Two programs that are mirrored by one do the same, as far as its states tell. -/
theorem agree (h₀ : Mirrors e id m₀ p) (h : Mirrors e id m p) (hs : e s₀ = e s) :
    (m₀.exec s₀).1 = (m.exec s).1 ∧ e (m₀.exec s₀).2 = e (m.exec s).2 := by
  exact Prod.mk.inj ((h₀.exec_eq s₀).symm.trans ((congrArg p.exec hs).trans (h.exec_eq s)))

end

end Mirrors

end Prog
