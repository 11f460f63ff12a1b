import Mathlib

/-!
# Bounded queues with their history

A queue that holds at most `N` elements, given by what has been written to it and how much of this has
been consumed. Its contents are what is left.
-/

structure Fifo (α : Type) (N : Nat) where
  written : List α
  consumed : Nat
  consumed_le : consumed ≤ written.length
  le_capacity : written.length ≤ consumed + N

namespace Fifo

variable {α : Type} {N : Nat} {q q' : Fifo α N} {xs : List α} {n : Nat}

def empty : Fifo α N where
  written := []
  consumed := 0
  consumed_le := Nat.le_refl _
  le_capacity := Nat.zero_le _

def contents (q : Fifo α N) : List α := q.written.drop q.consumed

/-- What has been written and not consumed is given up. -/
def clear (_ : Fifo α N) : Fifo α N := empty

def append (q : Fifo α N) (xs : List α) : Option (Fifo α N) :=
  if h : xs.length ≤ N - q.contents.length then
    some
      { written := q.written ++ xs
        consumed := q.consumed
        consumed_le := by
          rw [List.length_append]
          exact Nat.le_add_right_of_le q.consumed_le
        le_capacity := by
          have hconsumed := q.consumed_le
          have hcapacity := q.le_capacity
          rw [contents, List.length_drop] at h
          rw [List.length_append]
          omega }
  else none

def consume (q : Fifo α N) (n : Nat) : Option (Fifo α N) :=
  if h : n ≤ q.contents.length then
    some
      { written := q.written
        consumed := q.consumed + n
        consumed_le := by
          have hconsumed := q.consumed_le
          rw [contents, List.length_drop] at h
          omega
        le_capacity := by
          have hcapacity := q.le_capacity
          omega }
  else none

@[simp] theorem contents_empty : (empty : Fifo α N).contents = [] := rfl

@[simp] theorem contents_clear : q.clear.contents = [] := rfl

theorem exists_append (h : xs.length ≤ N - q.contents.length) :
    ∃ q', q.append xs = some q' ∧ q'.contents = q.contents ++ xs := by
  refine ⟨_, dif_pos h, ?_⟩
  exact List.drop_append_of_le_length q.consumed_le

theorem append_eq_none_iff : q.append xs = none ↔ N - q.contents.length < xs.length := by
  unfold append
  split <;> simp_all

theorem exists_consume (h : n ≤ q.contents.length) :
    ∃ q', q.consume n = some q' ∧ q'.contents = q.contents.drop n := by
  refine ⟨_, dif_pos h, ?_⟩
  simp only [contents, List.drop_drop]

theorem consume_eq_none_iff : q.consume n = none ↔ q.contents.length < n := by
  unfold consume
  split <;> simp_all

end Fifo
