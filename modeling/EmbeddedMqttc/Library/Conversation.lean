import Mathlib

/-!
# Conversations

What one side of a connection says, and in which order: a greeting, then something that meets each of
a list of demands, then any number of ordinary remarks, and at last a farewell. `Says E stage l` says
that `l` has been said, and `stage` tells what may follow.

A part of a conversation that has been heard is a conversation (`Says.exists_of_prefix`). What has
been said at a stage is given in closed form by `Says.asked_iff` and `Says.closed_iff`.
-/

structure Etiquette (α : Type) where
  greeting : α
  demands : List (α → Prop)
  ordinary : α → Prop
  farewell : α

namespace Etiquette

/-- Nothing has been said, the demands that are left are to be met, or nothing may follow. With no
demand left, remarks and the farewell may follow. -/
inductive Stage (α : Type) where
  | silent
  | asked (left : List (α → Prop))
  | closed

inductive Says {α : Type} (E : Etiquette α) : Stage α → List α → Prop
  | silent : Says E .silent []
  | greet : Says E (.asked E.demands) [E.greeting]
  | answer {p left l a} : Says E (.asked (p :: left)) l → p a → Says E (.asked left) (l ++ [a])
  | remark {l a} : Says E (.asked []) l → E.ordinary a → Says E (.asked []) (l ++ [a])
  | leave {l} : Says E (.asked []) l → Says E .closed (l ++ [E.farewell])

variable {α : Type} {E : Etiquette α} {stage : Stage α} {left : List (α → Prop)} {l heard : List α}

theorem Says.exists_of_prefix (h : Says E stage l) (hp : heard <+: l) :
    ∃ stage', Says E stage' heard := by
  have hlast {stage : Stage α} {a : α} {l : List α} (h : Says E stage (l ++ [a]))
      (ih : heard <+: l → ∃ stage', Says E stage' heard) (hp : heard <+: l ++ [a]) :
      ∃ stage', Says E stage' heard := by
    rcases List.prefix_concat_iff.mp hp with rfl | hp
    · exact ⟨_, h⟩
    · exact ih hp
  have hnil (hp : heard <+: []) : ∃ stage', Says E stage' heard := by
    obtain rfl := List.prefix_nil.mp hp
    exact ⟨.silent, .silent⟩
  induction h with
  | silent => exact hnil hp
  | greet => exact hlast (l := []) .greet hnil hp
  | answer h ha ih => exact hlast (.answer h ha) ih hp
  | remark h ha ih => exact hlast (.remark h ha) ih hp
  | leave h ih => exact hlast (.leave h) ih hp

/-- While demands are left there are no remarks. -/
theorem Says.of_asked (h : Says E (.asked left) l) :
    ∃ met answers remarks, E.demands = met ++ left ∧ List.Forall₂ (fun p a => p a) met answers ∧
      (∀ a ∈ remarks, E.ordinary a) ∧ (left ≠ [] → remarks = []) ∧
      l = E.greeting :: (answers ++ remarks) := by
  generalize hstage : Stage.asked left = stage at h
  induction h generalizing left with
  | silent | leave => cases hstage
  | greet =>
    cases hstage
    exact ⟨[], [], [], rfl, .nil, nofun, fun _ => rfl, rfl⟩
  | @answer p left' l a _ ha ih =>
    cases hstage
    obtain ⟨met, answers, remarks, hdemands, hmet, -, hnone, rfl⟩ := ih rfl
    obtain rfl := hnone (List.cons_ne_nil _ _)
    refine ⟨met ++ [p], answers ++ [a], [], by simp [hdemands], ?_, nofun, fun _ => rfl, by simp⟩
    exact List.rel_append hmet (.cons ha .nil)
  | @remark l a _ ha ih =>
    cases hstage
    obtain ⟨met, answers, remarks, hdemands, hmet, hremarks, -, rfl⟩ := ih rfl
    refine ⟨met, answers, remarks ++ [a], hdemands, hmet, fun b hb => ?_, fun h => absurd rfl h,
      by simp⟩
    rcases List.mem_append.mp hb with hb | hb
    · exact hremarks b hb
    · exact List.mem_singleton.mp hb ▸ ha

theorem Says.answers {demands : List (α → Prop)} {answers : List α}
    (h : Says E (.asked (demands ++ left)) l)
    (hmet : List.Forall₂ (fun p a => p a) demands answers) :
    Says E (.asked left) (l ++ answers) := by
  induction hmet generalizing l with
  | nil => rwa [List.append_nil]
  | cons ha _ ih => simpa using ih (.answer h ha)

theorem Says.remarks {remarks : List α} (h : Says E (.asked []) l)
    (hremarks : ∀ a ∈ remarks, E.ordinary a) : Says E (.asked []) (l ++ remarks) := by
  induction remarks generalizing l with
  | nil => rwa [List.append_nil]
  | cons a remarks ih =>
    have h := ih (.remark h (hremarks a List.mem_cons_self))
      fun b hb => hremarks b (List.mem_cons_of_mem _ hb)
    simpa using h

/-- What has been said when all demands have been met. -/
theorem Says.asked_iff : Says E (.asked []) l ↔
    ∃ answers remarks, List.Forall₂ (fun p a => p a) E.demands answers ∧
      (∀ a ∈ remarks, E.ordinary a) ∧ l = E.greeting :: (answers ++ remarks) := by
  constructor
  · intro h
    obtain ⟨met, answers, remarks, hdemands, hmet, hremarks, -, rfl⟩ := h.of_asked
    rw [List.append_nil] at hdemands
    exact ⟨answers, remarks, hdemands ▸ hmet, hremarks, rfl⟩
  · rintro ⟨answers, remarks, hmet, hremarks, rfl⟩
    have h := Says.greet (E := E)
    rw [← List.append_nil E.demands] at h
    exact (h.answers hmet).remarks hremarks

theorem Says.closed_iff : Says E .closed l ↔
    ∃ said, Says E (.asked []) said ∧ l = said ++ [E.farewell] := by
  constructor
  · intro h
    cases h with
    | leave h => exact ⟨_, h, rfl⟩
  · rintro ⟨said, h, rfl⟩
    exact .leave h

end Etiquette
