import Mathlib
/-!
# Runs of a transition function

A system is a partial function `next` from a state and a label to the next state; it is `none`
where the label is not possible. `run` follows a list of labels, and `AllSteps G` says that every
step of such a run meets a condition `G` on the state before it and its label.
-/

namespace Run

variable {σ ℓ : Type}

def run (next : σ → ℓ → Option σ) : σ → List ℓ → Option σ
  | s, [] => some s
  | s, l :: ls => (next s l).bind (run next · ls)

/-- Every step of the run from `s` along the labels meets `G`. -/
def AllSteps (next : σ → ℓ → Option σ) (G : σ → ℓ → Prop) : σ → List ℓ → Prop
  | _, [] => True
  | s, l :: ls => G s l ∧ ∀ s', next s l = some s' → AllSteps next G s' ls

variable {next : σ → ℓ → Option σ} {G : σ → ℓ → Prop} {s s' t : σ} {l : ℓ} {ls ms : List ℓ}

@[simp] theorem run_nil : run next s [] = some s := rfl

theorem run_cons_iff : run next s (l :: ls) = some t ↔ ∃ s', next s l = some s' ∧
    run next s' ls = some t := Option.bind_eq_some_iff

theorem run_append (ls ms : List ℓ) (s : σ) :
    run next s (ls ++ ms) = (run next s ls).bind (run next · ms) := by
  induction ls generalizing s with
  | nil => rfl
  | cons l ls ih =>
    simp only [List.cons_append, run, Option.bind_assoc]
    congr 1; funext s'; exact ih s'

theorem run_append_iff : run next s (ls ++ ms) = some t ↔
    ∃ s', run next s ls = some s' ∧ run next s' ms = some t := by
  rw [run_append, Option.bind_eq_some_iff]

theorem AllSteps.append (h : AllSteps next G s (ls ++ ms)) (hr : run next s ls = some s') :
    AllSteps next G s ls ∧ AllSteps next G s' ms := by
  induction ls generalizing s with
  | nil => cases hr; exact ⟨trivial, h⟩
  | cons l ls ih =>
    obtain ⟨s₁, h₁, hr⟩ := run_cons_iff.mp hr
    have ⟨ha, hb⟩ := ih (h.2 _ h₁) hr
    refine ⟨⟨h.1, fun s₂ h₂ => ?_⟩, hb⟩
    cases h₁.symm.trans h₂; exact ha

/-- The steps of a run are checked along the run. -/
def decidableAllSteps (next : σ → ℓ → Option σ) (G : σ → ℓ → Prop) [∀ s l, Decidable (G s l)] :
    (s : σ) → (ls : List ℓ) → Decidable (AllSteps next G s ls)
  | _, [] => isTrue True.intro
  | s, l :: ls =>
    match h : next s l with
    | none => decidable_of_iff (G s l) ⟨fun hG => ⟨hG, fun _ h' => nomatch h.symm.trans h'⟩, And.left⟩
    | some s' =>
      have := decidableAllSteps next G s' ls
      decidable_of_iff (G s l ∧ AllSteps next G s' ls)
        ⟨fun hG => ⟨hG.1, fun _ h₂ => Option.some.inj (h.symm.trans h₂) ▸ hG.2⟩,
          fun hG => ⟨hG.1, hG.2 s' h⟩⟩

instance [∀ s l, Decidable (G s l)] : Decidable (AllSteps next G s ls) :=
  decidableAllSteps next G s ls

/-- The invariant rule: what holds at the start and is preserved by every step that meets `G` holds
at the end of every run whose steps all meet `G`. -/
theorem AllSteps.invariant {I : σ → Prop}
    (hstep : ∀ s l s', I s → G s l → next s l = some s' → I s')
    (hs : I s) (hG : AllSteps next G s ls) (hr : run next s ls = some t) : I t := by
  induction ls generalizing s with
  | nil => cases hr; exact hs
  | cons l ls ih =>
    obtain ⟨s₁, h₁, hr⟩ := run_cons_iff.mp hr
    exact ih (hstep _ _ _ hs hG.1 h₁) (hG.2 _ h₁) hr

/-- What follows at each step from an invariant and `G` holds of all steps. -/
theorem AllSteps.of_invariant {I : σ → Prop} {G' : σ → ℓ → Prop}
    (hstep : ∀ s l s', I s → G s l → next s l = some s' → I s')
    (hG' : ∀ s l, I s → G s l → G' s l) (hs : I s) (hG : AllSteps next G s ls) :
    AllSteps next G' s ls := by
  induction ls generalizing s with
  | nil => exact True.intro
  | cons l ls ih => exact ⟨hG' s l hs hG.1, fun s' h => ih (hstep s l s' hs hG.1 h) (hG.2 s' h)⟩

theorem AllSteps.mono {G' : σ → ℓ → Prop} (h : AllSteps next G s ls)
    (hG : ∀ s l, G s l → G' s l) : AllSteps next G' s ls := by
  induction ls generalizing s with
  | nil => exact True.intro
  | cons l ls ih => exact ⟨hG s l h.1, fun s' hs' => ih (h.2 s' hs')⟩

theorem AllSteps.congr {G' : σ → ℓ → Prop} (hG : ∀ s l, G s l ↔ G' s l) :
    AllSteps next G s ls ↔ AllSteps next G' s ls :=
  ⟨fun h => h.mono fun s l => (hG s l).mp, fun h => h.mono fun s l => (hG s l).mpr⟩

theorem AllSteps.of_forall (h : ∀ l ∈ ls, ∀ s, G s l) : AllSteps next G s ls := by
  induction ls generalizing s with
  | nil => exact True.intro
  | cons l ls ih =>
    have hrest : ∀ m ∈ ls, ∀ s, G s m := fun m hm => h m (List.mem_cons_of_mem _ hm)
    exact ⟨h l List.mem_cons_self s, fun _ _ => ih hrest⟩

theorem AllSteps.trivial : AllSteps next (fun _ _ => True) s ls :=
  .of_forall fun _ _ _ => True.intro

/-- The invariant rule for runs without a condition. -/
theorem invariant {I : σ → Prop} (hstep : ∀ s l s', I s → next s l = some s' → I s')
    (hs : I s) (hr : run next s ls = some t) : I t :=
  AllSteps.invariant (G := fun _ _ => True) (fun _ _ _ hi _ h => hstep _ _ _ hi h) hs .trivial hr

end Run
