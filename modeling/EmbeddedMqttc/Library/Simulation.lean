import EmbeddedMqttc.Library.Run

/-!
# Forward simulations

A relation between the states of two systems is a forward simulation if the second system follows each
step of the first, along the labels that `moves` gives for it. Then it follows every run, and what
holds in all its runs carries over to those of the first.
-/

namespace Run

variable {σ τ ℓ κ : Type}

/-- Along `moves`, the second system gets from related states to related states. -/
def Simulates (next : σ → ℓ → Option σ) (next' : τ → κ → Option τ) (moves : σ → ℓ → List κ)
    (R : σ → τ → Prop) : Prop :=
  ∀ s t l s', R s t → next s l = some s' → ∃ t', run next' t (moves s l) = some t' ∧ R s' t'

/-- The labels along which the second system follows a run. -/
def followed (next : σ → ℓ → Option σ) (moves : σ → ℓ → List κ) : σ → List ℓ → List κ
  | _, [] => []
  | s, l :: ls =>
    match next s l with
    | none => moves s l
    | some s' => moves s l ++ followed next moves s' ls

variable {next : σ → ℓ → Option σ} {next' : τ → κ → Option τ} {moves : σ → ℓ → List κ}
  {R : σ → τ → Prop} {s s' : σ} {t : τ} {l : ℓ} {ls : List ℓ}

theorem followed_cons (h : next s l = some s') (ls : List ℓ) :
    followed next moves s (l :: ls) = moves s l ++ followed next moves s' ls := by
  rw [followed, h]

theorem Simulates.follows (h : Simulates next next' moves R) (hR : R s t)
    (hr : run next s ls = some s') :
    ∃ t', run next' t (followed next moves s ls) = some t' ∧ R s' t' := by
  induction ls generalizing s t with
  | nil =>
    cases hr
    exact ⟨t, rfl, hR⟩
  | cons l ls ih =>
    obtain ⟨s₁, hnext, hr⟩ := run_cons_iff.mp hr
    obtain ⟨t₁, hmoves, hR₁⟩ := h s t l s₁ hR hnext
    obtain ⟨t', hrest, hR'⟩ := ih hR₁ hr
    refine ⟨t', ?_, hR'⟩
    rw [followed_cons hnext]
    exact run_append_iff.mpr ⟨t₁, hmoves, hrest⟩

/-- What holds in all runs of the second system holds, through the relation, in those of the first. -/
theorem Simulates.transfer {P : τ → Prop} {Q : σ → Prop} (h : Simulates next next' moves R)
    (hR : R s t) (hP : ∀ ks t', run next' t ks = some t' → P t')
    (hPQ : ∀ s' t', R s' t' → P t' → Q s') (hr : run next s ls = some s') : Q s' := by
  obtain ⟨t', hfollowed, hR'⟩ := h.follows hR hr
  exact hPQ s' t' hR' (hP _ t' hfollowed)

/-- A map of the states that commutes with the steps commutes with the runs. -/
theorem run_map {next : σ → ℓ → Option σ} {e : σ → σ} {f : ℓ → ℓ}
    (h : ∀ s l, next (e s) (f l) = (next s l).map e) (s : σ) (ls : List ℓ) :
    run next (e s) (ls.map f) = (run next s ls).map e := by
  induction ls generalizing s with
  | nil => rfl
  | cons l ls ih =>
    rw [List.map_cons, run, run, h]
    cases next s l with
    | none => rfl
    | some s' => exact ih s'

end Run
