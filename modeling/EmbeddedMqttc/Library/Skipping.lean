import Mathlib

/-!
# Loops that skip every second element

A loop that removes the element at its index and then goes on at the next index removes every second
element. `evens` are the elements that it removes and `odds` those that it leaves. `Unshuffled k l`
says that `k` removals from `l` cannot be told from the removal of the first `k` elements.
-/

namespace List

variable {α : Type}

/-- The elements at even indices. -/
def evens : List α → List α
  | [] => []
  | [a] => [a]
  | a :: _ :: l => a :: evens l

/-- The elements at odd indices. -/
def odds : List α → List α
  | [] => []
  | [_] => []
  | _ :: b :: l => b :: odds l

variable {l m : List α} {a b : α} {k : Nat}

theorem length_evens (l : List α) : l.evens.length = (l.length + 1) / 2 := by
  induction l using evens.induct with
  | case1 => simp [evens]
  | case2 a => simp [evens]
  | case3 a b l ih =>
    simp only [evens, length_cons, ih]
    omega

theorem length_odds (l : List α) : l.odds.length = l.length / 2 := by
  induction l using odds.induct with
  | case1 => simp [odds]
  | case2 a => simp [odds]
  | case3 a b l ih =>
    simp only [odds, length_cons, ih]
    omega

theorem evens_append (h : l.length = 2 * k) : (l ++ m).evens = l.evens ++ m.evens := by
  induction l using evens.induct generalizing k with
  | case1 => rfl
  | case2 a => simp only [length_singleton] at h; omega
  | case3 a b l ih =>
    simp only [length_cons] at h
    have ih := ih (k := k - 1) (by omega)
    simp only [cons_append, evens, ih]

theorem odds_append (h : l.length = 2 * k) : (l ++ m).odds = l.odds ++ m.odds := by
  induction l using odds.induct generalizing k with
  | case1 => rfl
  | case2 a => simp only [length_singleton] at h; omega
  | case3 a b l ih =>
    simp only [length_cons] at h
    have ih := ih (k := k - 1) (by omega)
    simp only [cons_append, odds, ih]

/-- What the loop has left after `k` removals. -/
def skipped (k : Nat) (l : List α) : List α := (l.take (2 * k)).odds ++ l.drop (2 * k)

@[simp] theorem skipped_zero (l : List α) : l.skipped 0 = l := by simp [skipped, odds]

@[simp] theorem evens_take_zero (l : List α) : (l.take (2 * 0)).evens = [] := by simp [evens]

theorem take_two_mul_succ (hk : 2 * k < l.length) :
    l.take (2 * (k + 1)) = l.take (2 * k) ++ l[2 * k] :: (l.drop (2 * k + 1)).take 1 := by
  have hdrop : l.drop (2 * k) = l[2 * k] :: l.drop (2 * k + 1) := drop_eq_getElem_cons hk
  rw [Nat.mul_succ, take_add, hdrop, take_succ_cons]

theorem length_take_two_mul (hk : 2 * k < l.length) : (l.take (2 * k)).length = 2 * k := by
  rw [length_take]
  omega

theorem evens_take_succ (hk : 2 * k < l.length) :
    (l.take (2 * (k + 1))).evens = (l.take (2 * k)).evens ++ [l[2 * k]] := by
  rw [take_two_mul_succ hk, evens_append (length_take_two_mul hk)]
  rcases l.drop (2 * k + 1) with _ | ⟨b, m⟩ <;> simp [evens]

theorem length_skipped (k : Nat) (l : List α) :
    (l.skipped k).length = min (2 * k) l.length / 2 + (l.length - 2 * k) := by
  simp [skipped, length_odds]

/-- There is another removal only before the end of the original list. -/
theorem lt_length_skipped_iff (hk : 2 * k < l.length + 2) :
    k < (l.skipped k).length ↔ 2 * k < l.length := by
  rw [length_skipped]
  omega

theorem getElem?_skipped (hk : 2 * k < l.length) : (l.skipped k)[k]? = some l[2 * k] := by
  have hodds : (l.take (2 * k)).odds.length = k := by
    rw [length_odds, length_take_two_mul hk]
    omega
  rw [skipped, getElem?_append_right (Nat.le_of_eq hodds), hodds, Nat.sub_self, getElem?_drop,
    Nat.add_zero, getElem?_eq_getElem hk]

theorem eraseIdx_skipped (hk : 2 * k < l.length) :
    (l.skipped k).eraseIdx k = l.skipped (k + 1) := by
  have hodds : (l.take (2 * k)).odds.length = k := by
    rw [length_odds, length_take_two_mul hk]
    omega
  have hdrop : l.drop (2 * k) = l[2 * k] :: l.drop (2 * k + 1) := drop_eq_getElem_cons hk
  have hrest : l.drop (2 * (k + 1)) = (l.drop (2 * k + 1)).drop 1 := by
    rw [drop_drop]
    rfl
  rw [skipped, eraseIdx_append_of_length_le (Nat.le_of_eq hodds), hodds, Nat.sub_self, hdrop,
    eraseIdx_zero, tail_cons, skipped, take_two_mul_succ hk, odds_append (length_take_two_mul hk),
    hrest, append_assoc]
  rcases l.drop (2 * k + 1) with _ | ⟨b, m⟩ <;> simp [odds]

theorem getElem?_evens (l : List α) (j : Nat) : l.evens[j]? = l[2 * j]? := by
  induction l using evens.induct generalizing j with
  | case1 => rfl
  | case2 a => cases j <;> rfl
  | case3 a b l ih =>
    cases j with
    | zero => rfl
    | succ j => exact ih j

theorem getElem?_odds (l : List α) (j : Nat) : l.odds[j]? = l[2 * j + 1]? := by
  induction l using odds.induct generalizing j with
  | case1 => rfl
  | case2 a => rfl
  | case3 a b l ih =>
    cases j with
    | zero => rfl
    | succ j => exact ih j

/-- An element is removed, or it comes nearer to the front, and a loop that goes through the whole
list halves its distance. -/
theorem evens_or_skipped (k : Nat) {i : Nat} (h : l[i]? = some a) :
    a ∈ (l.take (2 * k)).evens ∨
      ∃ j ≤ i, (l.skipped k)[j]? = some a ∧ (0 < k → j < i) ∧
        (l.length ≤ 2 * k → 2 * (j + 1) = i + 1) := by
  obtain ⟨hi, -⟩ := getElem?_eq_some_iff.mp h
  rcases Nat.lt_or_ge i (2 * k) with hik | hik
  · have htake : (l.take (2 * k))[i]? = some a := by rw [getElem?_take_of_lt hik, h]
    rcases Nat.even_or_odd' i with ⟨j, rfl | rfl⟩
    · exact .inl (mem_of_getElem? ((getElem?_evens ..).trans htake))
    · have hodds : (l.take (2 * k)).odds[j]? = some a := (getElem?_odds ..).trans htake
      obtain ⟨hj, -⟩ := getElem?_eq_some_iff.mp hodds
      refine .inr ⟨j, by omega, ?_, fun _ => by omega, fun _ => by omega⟩
      rw [skipped, getElem?_append_left hj, hodds]
  · have hlength : (l.take (2 * k)).odds.length = k := by
      rw [length_odds, length_take]
      omega
    refine .inr ⟨k + (i - 2 * k), by omega, ?_, fun _ => by omega, fun _ => by omega⟩
    rw [skipped, getElem?_append_right (by omega), hlength, getElem?_drop, ← h]
    congr 1
    omega

/-- The first `k` removals of the loop look like the removal of an initial segment. -/
def Unshuffled (k : Nat) (l : List α) : Prop :=
  (l.take (2 * k)).evens ++ (l.take (2 * k)).odds = l.take (2 * k)

instance [DecidableEq α] : Decidable (Unshuffled k l) := inferInstanceAs (Decidable (_ = _))

theorem unshuffled_iff : Unshuffled k l ↔ (l.take (2 * k)).evens ++ l.skipped k = l := by
  have hsplit := take_append_drop (2 * k) l
  rw [Unshuffled, skipped, ← append_assoc]
  constructor
  · intro h
    rw [h, hsplit]
  · intro h
    exact append_cancel_right (h.trans hsplit.symm)

end List
