import Mathlib

/-!
# Vectors of bounded length

`BoundedVec α n` is a list of at most `n` elements, the value of a fixed-capacity vector, string or
double-ended queue. Insertion is partial; removal, update and lookup keep the bound. The lemmas
say how each operation changes the number of elements with a given key, which is all that
conservation arguments need.
-/

structure BoundedVec (α : Type) (n : Nat) where
  toList : List α
  length_le : toList.length ≤ n
  deriving DecidableEq, Repr

namespace BoundedVec

variable {α β : Type} {n : Nat}

def empty : BoundedVec α n := ⟨[], Nat.zero_le n⟩

def len (v : BoundedVec α n) : Nat := v.toList.length

def isEmpty (v : BoundedVec α n) : Bool := v.toList.isEmpty

def isFull (v : BoundedVec α n) : Bool := v.toList.length == n

/-- The bounded vector with the elements of a list, if they fit. -/
def ofList? (l : List α) : Option (BoundedVec α n) :=
  if h : l.length ≤ n then some ⟨l, h⟩ else none

def get? (v : BoundedVec α n) (i : Nat) : Option α := v.toList[i]?

/-- Add an element at the end; `none` when the vector is full. -/
def push (v : BoundedVec α n) (a : α) : Option (BoundedVec α n) :=
  if h : v.toList.length < n then some ⟨v.toList ++ [a], by simp; omega⟩ else none

/-- Remove the element at an index, moving the later ones up. -/
def removeAt (v : BoundedVec α n) (i : Nat) : BoundedVec α n :=
  ⟨v.toList.eraseIdx i, Nat.le_trans (List.length_eraseIdx_le ..) v.length_le⟩

/-- Change the element at an index. -/
def modifyAt (v : BoundedVec α n) (i : Nat) (f : α → α) : BoundedVec α n :=
  ⟨v.toList.modify i f, by rw [List.length_modify]; exact v.length_le⟩

/-- Take the first element. -/
def popFront (v : BoundedVec α n) : Option (α × BoundedVec α n) :=
  match v with
  | ⟨[], _⟩ => none
  | ⟨a :: l, h⟩ => some (a, ⟨l, Nat.le_of_succ_le h⟩)

/-- The index of the first element that satisfies `p`. -/
def position (v : BoundedVec α n) (p : α → Bool) : Option Nat := v.toList.findIdx? p

instance : Membership α (BoundedVec α n) := ⟨fun v a => a ∈ v.toList⟩

instance [DecidableEq α] (a : α) (v : BoundedVec α n) : Decidable (a ∈ v) :=
  inferInstanceAs (Decidable (a ∈ v.toList))

variable {v w : BoundedVec α n} {a b : α} {i : Nat} {p : α → Bool}

@[simp] theorem mem_toList : a ∈ v.toList ↔ a ∈ v := .rfl

@[simp] theorem toList_empty : (empty : BoundedVec α n).toList = [] := rfl

@[simp] theorem not_mem_empty : a ∉ (empty : BoundedVec α n) := List.not_mem_nil

theorem isFull_iff : v.isFull = true ↔ v.toList.length = n := by simp [isFull]

theorem not_isFull_iff : v.isFull = false ↔ v.toList.length < n := by
  have := v.length_le
  simp [isFull]; omega

theorem push_eq_some_iff : v.push a = some w ↔ v.toList.length < n ∧
    w.toList = v.toList ++ [a] := by
  unfold push
  split
  · rename_i h
    simp only [Option.some.injEq, h, true_and]
    exact ⟨fun h => h ▸ rfl, fun h => by cases w; simp_all⟩
  · rename_i h
    simp [h]

theorem push_eq_none_iff : v.push a = none ↔ v.isFull = true := by
  have := v.length_le
  unfold push
  split <;> simp [isFull] <;> omega

theorem exists_push (h : v.isFull = false) (a : α) : ∃ w, v.push a = some w := by
  cases hp : v.push a with
  | some w => exact ⟨w, rfl⟩
  | none => rw [push_eq_none_iff.mp hp] at h; cases h

theorem ofList?_eq_some_iff {l : List α} : ofList? l = some v ↔ v.toList = l := by
  unfold ofList?
  split
  · exact ⟨fun h => by cases h; rfl, fun h => by cases v; simp_all⟩
  · rename_i h
    simp only [reduceCtorEq, false_iff]
    rintro rfl
    exact h v.length_le

theorem exists_ofList?_iff {l : List α} :
    (∃ v : BoundedVec α n, ofList? l = some v) ↔ l.length ≤ n := by
  constructor
  · rintro ⟨v, h⟩
    rw [← ofList?_eq_some_iff.mp h]
    exact v.length_le
  · intro h
    exact ⟨⟨l, h⟩, ofList?_eq_some_iff.mpr rfl⟩

theorem ofList?_eq_none {l : List α} (h : ¬l.length ≤ n) :
    (ofList? l : Option (BoundedVec α n)) = none := by
  rw [Option.eq_none_iff_forall_ne_some]
  exact fun v hv => h (exists_ofList?_iff.mp ⟨v, hv⟩)

/-- All lists of a list are turned into bounded vectors if and only if all of them fit. -/
theorem mapM_ofList?_cases (lists : List (List α)) :
    ((∀ l ∈ lists, l.length ≤ n) ∧ ∃ vs, lists.mapM (ofList? (n := n)) = some vs ∧
      vs.length = lists.length) ∨
    (¬(∀ l ∈ lists, l.length ≤ n) ∧ lists.mapM (ofList? (n := n)) = none) := by
  induction lists with
  | nil => exact .inl ⟨nofun, [], rfl, rfl⟩
  | cons l lists ih =>
    rw [List.mapM_cons, List.forall_mem_cons]
    by_cases hl : l.length ≤ n
    · obtain ⟨v, hv⟩ := exists_ofList?_iff.mpr hl
      rcases ih with ⟨hall, vs, hvs, hlength⟩ | ⟨hnot, hnone⟩
      · refine .inl ⟨⟨hl, hall⟩, v :: vs, ?_, congrArg (· + 1) hlength⟩
        simp [hv, hvs]
      · refine .inr ⟨fun h => hnot h.2, ?_⟩
        simp [hv, hnone]
    · exact .inr ⟨fun h => hl h.1, by simp [ofList?_eq_none hl]⟩

@[simp] theorem toList_removeAt : (v.removeAt i).toList = v.toList.eraseIdx i := rfl

theorem popFront_eq_some_iff : v.popFront = some (a, w) ↔ v.toList = a :: w.toList := by
  rcases v with ⟨_ | ⟨b, l⟩, h⟩
  · simp [popFront]
  · rcases w with ⟨m, hm⟩
    simp [popFront]

theorem popFront_eq_none_iff : v.popFront = none ↔ v.toList = [] := by
  rcases v with ⟨_ | ⟨b, l⟩, h⟩ <;> simp [popFront]

/-- A position is an index whose element satisfies the predicate. -/
theorem get?_of_position (h : v.position p = some i) : ∃ a, v.get? i = some a ∧ p a = true := by
  obtain ⟨hi, hp, -⟩ := List.findIdx?_eq_some_iff_getElem.mp h
  exact ⟨v.toList[i], List.getElem?_eq_getElem hi, hp⟩

theorem position_eq_none_iff : v.position p = none ↔ ∀ a ∈ v, p a = false := by
  simp only [position, List.findIdx?_eq_none_iff]
  exact .rfl

theorem mem_of_get? (h : v.get? i = some a) : a ∈ v := List.mem_of_getElem? h

theorem get?_eq_none_iff : v.get? i = none ↔ v.len ≤ i := List.getElem?_eq_none_iff

theorem perm_push (h : v.push a = some w) : w.toList.Perm (a :: v.toList) := by
  rw [(push_eq_some_iff.mp h).2]
  exact List.perm_append_singleton ..

theorem perm_removeAt (h : v.get? i = some a) : (a :: (v.removeAt i).toList).Perm v.toList := by
  obtain ⟨hi, rfl⟩ := List.getElem?_eq_some_iff.mp h
  exact List.getElem_cons_eraseIdx_perm hi

theorem mem_removeAt (h : b ∈ v.removeAt i) : b ∈ v := List.mem_of_mem_eraseIdx h

theorem mem_iff_of_push (h : v.push a = some w) : b ∈ w ↔ b ∈ v ∨ b = a := by
  rw [← mem_toList, (push_eq_some_iff.mp h).2]
  simp

theorem mem_iff_of_removeAt (h : v.get? i = some a) : b ∈ v ↔ b = a ∨ b ∈ v.removeAt i := by
  rw [← mem_toList, ← (perm_removeAt h).mem_iff, List.mem_cons]
  exact .rfl

theorem exists_of_removeAt {P : α → Prop} (h : ∃ b ∈ v.removeAt i, P b) : ∃ b ∈ v, P b := by
  obtain ⟨b, hb, hP⟩ := h
  exact ⟨b, mem_removeAt hb, hP⟩

theorem exists_of_push {P : α → Prop} (hpush : v.push a = some w) (h : ∃ b ∈ w, P b) :
    (∃ b ∈ v, P b) ∨ P a := by
  obtain ⟨b, hb, hP⟩ := h
  rcases (mem_iff_of_push hpush).mp hb with hb | rfl
  · exact .inl ⟨b, hb, hP⟩
  · exact .inr hP

theorem toList_split (h : v.get? i = some a) :
    v.toList = v.toList.take i ++ a :: v.toList.drop (i + 1) := by
  obtain ⟨hi, rfl⟩ := List.getElem?_eq_some_iff.mp h
  rw [← List.drop_eq_getElem_cons hi, List.take_append_drop]

/-- The first element that satisfies `p` is removed. -/
theorem filter_removeAt_of_pos (h : v.get? i = some a) (ha : p a = true)
    (hbefore : ∀ k < i, ∀ b, v.get? k = some b → p b = false) :
    v.toList.filter p = a :: (v.removeAt i).toList.filter p := by
  have hnone : (v.toList.take i).filter p = [] := by
    refine List.filter_eq_nil_iff.mpr fun b hb => ?_
    obtain ⟨j, hj, rfl⟩ := List.mem_take_iff_getElem.mp hb
    rw [hbefore j (by omega) _ (List.getElem?_eq_getElem (by omega))]
    exact Bool.false_ne_true
  rw [toList_removeAt, List.eraseIdx_eq_take_drop_succ]
  conv_lhs => rw [toList_split h]
  rw [List.filter_append, List.filter_append, List.filter_cons_of_pos ha, hnone]
  rfl

theorem filter_removeAt_of_neg (h : v.get? i = some a) (ha : p a = false) :
    (v.removeAt i).toList.filter p = v.toList.filter p := by
  rw [toList_removeAt, List.eraseIdx_eq_take_drop_succ]
  conv_rhs => rw [toList_split h]
  rw [List.filter_append, List.filter_append, List.filter_cons_of_neg (by rw [ha]; exact nofun)]

theorem removeAt_length (h : v.get? i = some a) : (v.removeAt i).len + 1 = v.len :=
  (perm_removeAt h).length_eq

/-- An element after an update is an old one, or the updated one at the index. -/
theorem mem_modifyAt {f : α → α} (h : b ∈ v.modifyAt i f) :
    b ∈ v ∨ ∃ a, v.get? i = some a ∧ b = f a := by
  obtain ⟨j, hj, rfl⟩ := List.mem_iff_getElem.mp h
  simp only [modifyAt, List.length_modify] at hj
  simp only [modifyAt, List.getElem_modify]
  split
  · rename_i hij
    subst hij
    exact .inr ⟨v.toList[i], List.getElem?_eq_getElem hj, rfl⟩
  · exact .inl (List.getElem_mem hj)

theorem toList_modifyAt {f : α → α} (h : v.get? i = some a) :
    (v.modifyAt i f).toList = v.toList.take i ++ f a :: v.toList.drop (i + 1) := by
  obtain ⟨hi, rfl⟩ := List.getElem?_eq_some_iff.mp h
  exact List.modify_eq_take_cons_drop hi

theorem map_toList (h : v.get? i = some a) (g : α → β) :
    v.toList.map g = (v.toList.take i).map g ++ g a :: (v.toList.drop (i + 1)).map g := by
  conv_lhs => rw [toList_split h]
  rw [List.map_append, List.map_cons]

theorem map_removeAt (v : BoundedVec α n) (i : Nat) (g : α → β) :
    (v.removeAt i).toList.map g = (v.toList.take i).map g ++ (v.toList.drop (i + 1)).map g := by
  rw [toList_removeAt, List.eraseIdx_eq_take_drop_succ, List.map_append]

theorem get?_modifyAt {f : α → α} {k : Nat} (h : (v.modifyAt i f).get? k = some b) :
    (k = i ∧ ∃ a, v.get? i = some a ∧ b = f a) ∨ k ≠ i ∧ v.get? k = some b := by
  rw [get?, modifyAt, List.getElem?_modify] at h
  obtain ⟨a, ha, rfl⟩ := Option.map_eq_some_iff.mp h
  by_cases hk : i = k
  · subst hk
    exact .inl ⟨rfl, a, ha, if_pos rfl⟩
  · exact .inr ⟨Ne.symm hk, by rw [if_neg hk]; exact ha⟩

@[simp] theorem isFull_modifyAt {f : α → α} : (v.modifyAt i f).isFull = v.isFull := by
  rw [isFull, modifyAt, List.length_modify, isFull]

theorem perm_modifyAt {f : α → α} (h : v.get? i = some a) :
    (v.modifyAt i f).toList.Perm (f a :: (v.removeAt i).toList) := by
  obtain ⟨hi, rfl⟩ := List.getElem?_eq_some_iff.mp h
  have hperm := List.getElem_cons_eraseIdx_perm
    (show i < (v.modifyAt i f).toList.length by simpa [modifyAt] using hi)
  simp only [modifyAt, List.getElem_modify_eq, List.eraseIdx_modify_of_eq] at hperm
  exact hperm.symm

theorem map_modifyAt {f : α → α} {g : α → β} (h : ∀ a, g (f a) = g a) :
    (v.modifyAt i f).toList.map g = v.toList.map g := by
  apply List.ext_getElem
  · simp [modifyAt]
  · intro j h₁ h₂
    simp only [modifyAt, List.getElem_map, List.getElem_modify]
    split <;> simp [h]

/-! ## Counting -/

variable [DecidableEq β]

/-- How many elements have the key `k`. -/
def countKey (v : BoundedVec α n) (key : α → β) (k : β) : Nat := (v.toList.map key).count k

variable {g : α → β} {k : β}

@[simp] theorem countKey_empty : (empty : BoundedVec α n).countKey g k = 0 := rfl

theorem countKey_push (h : v.push a = some w) :
    w.countKey g k = v.countKey g k + if g a = k then 1 else 0 := by
  simp only [countKey, (push_eq_some_iff.mp h).2, List.map_append, List.map_cons, List.map_nil,
    List.count_append, List.count_singleton, beq_iff_eq]

theorem countKey_removeAt (h : v.get? i = some a) :
    v.countKey g k = (v.removeAt i).countKey g k + if g a = k then 1 else 0 := by
  rw [countKey, ← ((perm_removeAt h).map g).count_eq]
  simp [countKey, List.count_cons]

theorem countKey_popFront (h : v.popFront = some (a, w)) :
    v.countKey g k = w.countKey g k + if g a = k then 1 else 0 := by
  simp [countKey, popFront_eq_some_iff.mp h, List.count_cons]

theorem countKey_modifyAt {f : α → α} (h : ∀ a, g (f a) = g a) :
    (v.modifyAt i f).countKey g k = v.countKey g k := by
  rw [countKey, map_modifyAt h]; rfl

theorem countKey_pos_iff : 0 < v.countKey g k ↔ ∃ a ∈ v, g a = k := by
  simp only [countKey, List.count_pos_iff, List.mem_map]
  exact .rfl

theorem countKey_eq_zero_iff : v.countKey g k = 0 ↔ ∀ a ∈ v, g a ≠ k := by
  simp only [countKey, List.count_eq_zero, List.mem_map, not_exists, not_and]
  exact .rfl

theorem length_filterMap_ite (f : α → γ) :
    (v.toList.filterMap fun a => if g a = k then some (f a) else none).length = v.countKey g k := by
  simp only [countKey, List.length_filterMap_eq_countP, List.count, List.countP_map]
  refine List.countP_congr fun a _ => ?_
  simp [Option.isSome_iff_exists]

theorem perm_filterMap_push (h : v.push a = some w) (f : α → Option γ) :
    (w.toList.filterMap f).Perm ((f a).toList ++ v.toList.filterMap f) := by
  refine ((perm_push h).filterMap f).trans ?_
  cases hf : f a <;> simp [hf]

theorem perm_filterMap_removeAt (h : v.get? i = some a) (f : α → Option γ) :
    (v.toList.filterMap f).Perm ((f a).toList ++ (v.removeAt i).toList.filterMap f) := by
  refine ((perm_removeAt h).symm.filterMap f).trans ?_
  cases hf : f a <;> simp [hf]

theorem count_filterMap (f : α → Option β) :
    (v.toList.filterMap f).count k = v.countKey f (some k) := by
  obtain ⟨l, hl⟩ := v
  simp only [countKey]
  clear hl
  induction l with
  | nil => rfl
  | cons a l ih => cases h : f a <;> simp [h, List.count_cons, ih]

/-! ## The entries in any order -/

section

variable {γ : Type} {f : α → γ}

def bag (v : BoundedVec α n) (f : α → γ) : Multiset γ := Multiset.ofList (v.toList.map f)

theorem bag_push (h : v.push a = some w) : w.bag f = f a ::ₘ v.bag f :=
  Multiset.coe_eq_coe.mpr ((perm_push h).map f)

theorem bag_removeAt (h : v.get? i = some a) : v.bag f = f a ::ₘ (v.removeAt i).bag f :=
  Multiset.coe_eq_coe.mpr ((perm_removeAt h).symm.map f)

theorem bag_modifyAt {g : α → α} (h : v.get? i = some a) :
    (v.modifyAt i g).bag f = f (g a) ::ₘ (v.removeAt i).bag f :=
  Multiset.coe_eq_coe.mpr ((perm_modifyAt h).map f)

theorem bag_modifyAt_of_eq {g : α → α} (h : ∀ a, f (g a) = f a) :
    (v.modifyAt i g).bag f = v.bag f :=
  congrArg Multiset.ofList (map_modifyAt h)

theorem bag_popFront (h : v.popFront = some (a, w)) : v.bag f = f a ::ₘ w.bag f := by
  unfold bag
  rw [popFront_eq_some_iff.mp h, List.map_cons, Multiset.cons_coe]

theorem bag_removeAt_le (v : BoundedVec α n) (i : Nat) (f : α → γ) :
    (v.removeAt i).bag f ≤ v.bag f :=
  Multiset.coe_le.mpr ((List.eraseIdx_sublist v.toList i).map f).subperm

end

/-! ## Changing every entry -/

section

variable {γ : Type} {v : BoundedVec α n}

def map (f : α → γ) (v : BoundedVec α n) : BoundedVec γ n :=
  ⟨v.toList.map f, by rw [List.length_map]; exact v.length_le⟩

variable (f : α → γ)

@[simp] theorem toList_map (v : BoundedVec α n) : (v.map f).toList = v.toList.map f := rfl

@[simp] theorem len_map (v : BoundedVec α n) : (v.map f).len = v.len := List.length_map f

@[simp] theorem isFull_map (v : BoundedVec α n) : (v.map f).isFull = v.isFull := by
  simp [isFull]

@[simp] theorem get?_map (v : BoundedVec α n) (i : Nat) : (v.map f).get? i = (v.get? i).map f :=
  List.getElem?_map

theorem position_map {p : γ → Bool} {q : α → Bool} (h : ∀ a, p (f a) = q a)
    (v : BoundedVec α n) : (v.map f).position p = v.position q := by
  have hpq : p ∘ f = q := funext h
  rw [position, toList_map, List.findIdx?_map, hpq]
  rfl

theorem push_map (v : BoundedVec α n) (a : α) :
    (v.map f).push (f a) = (v.push a).map (map f) := by
  by_cases h : v.toList.length < n
  · simp [push, map, h]
  · simp [push, map, h]

theorem removeAt_map (v : BoundedVec α n) (i : Nat) :
    (v.map f).removeAt i = (v.removeAt i).map f := by
  simp [removeAt, map, List.eraseIdx_map]

theorem modifyAt_map {g : α → α} {g' : γ → γ} (h : ∀ a, g' (f a) = f (g a))
    (v : BoundedVec α n) (i : Nat) : (v.map f).modifyAt i g' = (v.modifyAt i g).map f := by
  have hlist : (v.toList.map f).modify i g' = (v.toList.modify i g).map f := by
    apply List.ext_getElem?
    intro j
    rw [List.getElem?_modify, List.getElem?_map, List.getElem?_map, List.getElem?_modify]
    cases v.toList[j]? with
    | none => rfl
    | some a =>
      by_cases hij : i = j
      · simp [hij, h]
      · simp [hij]
  simp [modifyAt, map, hlist]

theorem popFront_map (v : BoundedVec α n) :
    (v.map f).popFront = v.popFront.map (Prod.map f (map f)) := by
  obtain ⟨_ | ⟨a, l⟩, h⟩ := v
  · rfl
  · rfl

end

end BoundedVec
