import Mathlib

/-!
# Openings and closings in a history

A history is the list of what has happened. Some of its entries open something and some close it;
`Alternating` says that it is never opened twice without having been closed in between.
-/

namespace History

variable {α : Type}

/-- The last opening has not been closed. -/
def Open (opens closes : α → Prop) (l : List α) : Prop :=
  ∃ before a after, l = before ++ a :: after ∧ opens a ∧ ∀ b ∈ after, ¬closes b

/-- Between two openings there is a closing. -/
def Alternating (opens closes : α → Prop) (l : List α) : Prop :=
  ∀ before a between b after, l = before ++ a :: (between ++ b :: after) → opens a → opens b →
    ∃ c ∈ between, closes c

variable {opens closes : α → Prop} {l more : List α} {a : α}

theorem not_open_nil : ¬Open opens closes [] := by
  rintro ⟨before, a, after, h, -⟩
  exact absurd h.symm (List.append_ne_nil_of_right_ne_nil _ (List.cons_ne_nil _ _))

theorem alternating_nil : Alternating opens closes [] := by
  intro before a between b after h
  exact absurd h.symm (List.append_ne_nil_of_right_ne_nil _ (List.cons_ne_nil _ _))

/-- After a new entry something is open if the entry opens it, or if it was open and the entry does
not close it. -/
theorem open_of_concat (h : Open opens closes (l ++ [a])) :
    opens a ∨ Open opens closes l ∧ ¬closes a := by
  obtain ⟨before, b, after, heq, hb, hafter⟩ := h
  rcases after.eq_nil_or_concat' with rfl | ⟨rest, x, rfl⟩
  · obtain ⟨-, hab⟩ := List.append_inj' heq rfl
    cases hab
    exact .inl hb
  · rw [← List.cons_append, ← List.append_assoc] at heq
    obtain ⟨rfl, hax⟩ := List.append_inj' heq rfl
    cases hax
    refine .inr ⟨⟨before, b, rest, rfl, hb, fun c hc => ?_⟩, ?_⟩
    · exact hafter c (List.mem_append_left _ hc)
    · exact hafter a (List.mem_append_right _ (List.mem_singleton_self a))

/-- An entry may open what is not open. -/
theorem Alternating.concat (h : Alternating opens closes l) (ha : opens a → ¬Open opens closes l) :
    Alternating opens closes (l ++ [a]) := by
  intro before b between c after heq hb hc
  rcases after.eq_nil_or_concat' with rfl | ⟨rest, x, rfl⟩
  · rw [← List.cons_append, ← List.append_assoc] at heq
    obtain ⟨rfl, hac⟩ := List.append_inj' heq rfl
    cases hac
    by_contra hnone
    push Not at hnone
    exact ha hc ⟨before, b, between, rfl, hb, hnone⟩
  · rw [← List.cons_append, ← List.append_assoc, ← List.cons_append, ← List.append_assoc] at heq
    obtain ⟨hl, -⟩ := List.append_inj' heq rfl
    rw [List.append_assoc, List.cons_append] at hl
    exact h before b between c rest hl hb hc

theorem open_of_append (hmore : ∀ b ∈ more, ¬opens b) (h : Open opens closes (l ++ more)) :
    Open opens closes l := by
  induction more using List.reverseRecOn with
  | nil => simpa using h
  | append_singleton rest x ih =>
    rw [← List.append_assoc] at h
    rcases open_of_concat h with hx | ⟨hrest, -⟩
    · exact absurd hx (hmore x (List.mem_append_right _ (List.mem_singleton_self x)))
    · exact ih (fun b hb => hmore b (List.mem_append_left _ hb)) hrest

theorem Alternating.append (h : Alternating opens closes l) (hmore : ∀ b ∈ more, ¬opens b) :
    Alternating opens closes (l ++ more) := by
  induction more using List.reverseRecOn with
  | nil => simpa using h
  | append_singleton rest x ih =>
    rw [← List.append_assoc]
    refine (ih fun b hb => hmore b (List.mem_append_left _ hb)).concat fun hx => ?_
    exact absurd hx (hmore x (List.mem_append_right _ (List.mem_singleton_self x)))

end History
