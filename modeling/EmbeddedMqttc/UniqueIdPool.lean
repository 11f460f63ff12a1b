import EmbeddedMqttc.Library.BoundedVec
import EmbeddedMqttc.Library.Run

/-!
# The pool of unique ids

`UniqueIDPool` of `src/lib.rs`, which all clients share. Freed ids are handed out again in the order in
which they were freed, and new ones are counted upwards. The list of freed ids holds sixteen; `free`
panics when there is no room for another one. A `none` below is a panic of the source.
-/

namespace EmbeddedMqttc

open Run

structure UniqueIDPool where
  nextUnused : Nat
  pool : BoundedVec Nat 16
  deriving DecidableEq, Repr

namespace UniqueIDPool

def new : UniqueIDPool where
  nextUnused := 0
  pool := .empty

def take (self : UniqueIDPool) : Option (Nat × UniqueIDPool) :=
  if self.nextUnused = 2 ^ 32 - 1 then none
  else some (self.nextUnused, { self with nextUnused := self.nextUnused + 1 })

def next (self : UniqueIDPool) : Option (Nat × UniqueIDPool) :=
  match self.pool.popFront with
  | some (id, pool) => some (id, { self with pool })
  | none => self.take

def free (self : UniqueIDPool) (id : Nat) : Option UniqueIDPool :=
  (self.pool.push id).map fun pool => { self with pool }

variable {self self' : UniqueIDPool} {id : Nat}

/-- The next id is one that was freed, or a new one if there is none. -/
theorem next_cases (h : self.next = some (id, self')) :
    (self'.nextUnused = self.nextUnused ∧ self.pool.toList = id :: self'.pool.toList) ∨
      (self.pool.toList = [] ∧ id = self.nextUnused ∧ self'.nextUnused = self.nextUnused + 1 ∧
        self'.pool = self.pool) := by
  unfold next at h
  split at h
  · rename_i front pool hpop
    cases h
    exact .inl ⟨rfl, BoundedVec.popFront_eq_some_iff.mp hpop⟩
  · rename_i hpop
    unfold take at h
    split at h
    · cases h
    · cases h
      exact .inr ⟨BoundedVec.popFront_eq_none_iff.mp hpop, rfl, rfl, rfl⟩

theorem free_cases (h : self.free id = some self') :
    self'.nextUnused = self.nextUnused ∧ self'.pool.toList = self.pool.toList ++ [id] := by
  obtain ⟨pool, hpush, rfl⟩ := Option.map_eq_some_iff.mp h
  exact ⟨rfl, (BoundedVec.push_eq_some_iff.mp hpush).2⟩

theorem free_eq_none_iff : self.free id = none ↔ self.pool.toList.length = 16 := by
  rw [free, Option.map_eq_none_iff, BoundedVec.push_eq_none_iff, BoundedVec.isFull_iff]

end UniqueIDPool

/-! ## The ids in use -/

/-- The pool and, as history, the ids that are in use and the greatest number of ids that have been in
use at once. -/
structure UniqueIds where
  pool : UniqueIDPool
  inUse : List Nat
  peak : Nat
  deriving DecidableEq, Repr

namespace UniqueIds

inductive Op where
  | next
  | free (id : Nat)
  deriving DecidableEq, Repr

def new : UniqueIds where
  pool := .new
  inUse := []
  peak := 0

def take (s : UniqueIds) : Option (Nat × UniqueIds) :=
  s.pool.next.map fun (id, pool) =>
    (id, { pool, inUse := id :: s.inUse, peak := max s.peak (s.inUse.length + 1) })

def giveBack (s : UniqueIds) (id : Nat) : Option UniqueIds :=
  (s.pool.free id).map fun pool => { s with pool, inUse := s.inUse.erase id }

/-- Only ids in use are freed. The run ends with a panic. -/
def next (s : UniqueIds) : Op → Option UniqueIds
  | .next => s.take.map Prod.snd
  | .free id => if id ∈ s.inUse then s.giveBack id else none

/-- Nobody shares an id, and every id in use can be freed. -/
structure Sound (s : UniqueIds) : Prop where
  nodup : s.inUse.Nodup
  disjoint : ∀ id ∈ s.inUse, id ∉ s.pool.pool
  free : ∀ id ∈ s.inUse, (s.pool.free id).isSome = true

variable {s s' : UniqueIds} {id : Nat}

/-- The ids in use and the freed ones are all that have been handed out, each once, and there are as
many as have been in use at once. -/
structure Whole (s : UniqueIds) : Prop where
  perm : (s.inUse ++ s.pool.pool.toList).Perm (List.range s.pool.nextUnused)
  peak : s.peak = s.pool.nextUnused

theorem new_whole : new.Whole := ⟨.nil, rfl⟩

theorem Whole.length (h : s.Whole) : s.inUse.length + s.pool.pool.toList.length = s.peak := by
  have hlength := h.perm.length_eq
  rw [List.length_append, List.length_range] at hlength
  rw [hlength, h.peak]

theorem Whole.nodup (h : s.Whole) : (s.inUse ++ s.pool.pool.toList).Nodup :=
  h.perm.nodup_iff.mpr List.nodup_range

theorem Whole.take (h : s.Whole) (htake : s.take = some (id, s')) :
    s'.Whole ∧ id ∉ s.inUse ∧ s'.inUse = id :: s.inUse := by
  obtain ⟨⟨id', pool⟩, hnext, heq⟩ := Option.map_eq_some_iff.mp htake
  cases heq
  have hlength := h.length
  have hpeak := h.peak
  rcases UniqueIDPool.next_cases hnext with ⟨hunused, hpool⟩ | ⟨hempty, rfl, hunused, hpool⟩
  · -- the id moves from the list of freed ids
    have hperm := h.perm
    rw [hpool] at hperm hlength
    have hmoved := List.perm_middle.symm.trans hperm
    refine ⟨⟨?_, ?_⟩, ?_, rfl⟩
    · rw [hunused]
      exact hmoved
    · rw [List.length_cons] at hlength
      simp only [hunused, ← hpeak]
      omega
    · have hnodup := hmoved.nodup_iff.mpr List.nodup_range
      exact fun hid => (List.nodup_cons.mp hnodup).1 (List.mem_append_left _ hid)
  · -- it is the smallest one that has not been handed out
    rw [hempty] at hlength
    refine ⟨⟨?_, ?_⟩, ?_, rfl⟩
    · rw [hunused, hpool, List.range_succ]
      exact (h.perm.cons _).trans (List.perm_append_singleton _ _).symm
    · rw [List.length_nil] at hlength
      simp only [hunused, ← hpeak]
      omega
    · intro hid
      have hmem := h.perm.mem_iff.mp (List.mem_append_left _ hid)
      exact absurd (List.mem_range.mp hmem) (Nat.lt_irrefl _)

theorem Whole.giveBack (h : s.Whole) (hid : id ∈ s.inUse) (hfree : s.giveBack id = some s') :
    s'.Whole ∧ s'.inUse = s.inUse.erase id := by
  obtain ⟨pool, hpool, rfl⟩ := Option.map_eq_some_iff.mp hfree
  obtain ⟨hunused, hfreed⟩ := UniqueIDPool.free_cases hpool
  refine ⟨⟨?_, ?_⟩, rfl⟩
  · rw [hunused, hfreed, ← List.append_assoc]
    refine (List.perm_append_singleton _ _).trans (List.Perm.trans ?_ h.perm)
    exact (List.perm_cons_erase hid).symm.append_right _
  · rw [hunused]
    exact h.peak

theorem Whole.next (h : s.Whole) {op : Op} (hstep : s.next op = some s') : s'.Whole := by
  cases op with
  | next =>
    obtain ⟨⟨id, s₁⟩, htake, rfl⟩ := Option.map_eq_some_iff.mp hstep
    exact (h.take htake).1
  | free id =>
    simp only [UniqueIds.next] at hstep
    split at hstep
    · exact (h.giveBack (by assumption) hstep).1
    · cases hstep

theorem Whole.sound_iff_room (h : s.Whole) :
    s.Sound ↔ s.inUse = [] ∨ s.peak < s.inUse.length + 16 := by
  have hlength := h.length
  have hle := s.pool.pool.length_le
  have hnodup := List.nodup_append.mp h.nodup
  constructor
  · intro hsound
    cases hinUse : s.inUse with
    | nil => exact .inl rfl
    | cons id rest =>
      have hfree := hsound.free id (by rw [hinUse]; exact List.mem_cons_self)
      have hne : s.pool.pool.toList.length ≠ 16 := by
        intro hfull
        rw [UniqueIDPool.free_eq_none_iff.mpr hfull] at hfree
        cases hfree
      rw [← hinUse]
      omega
  · intro hroom
    refine ⟨hnodup.1, fun id hid hpool => hnodup.2.2 id hid id hpool rfl, fun id hid => ?_⟩
    have hne : s.pool.pool.toList.length ≠ 16 := by
      rcases hroom with hnil | hlt
      · rw [hnil] at hid
        cases hid
      · omega
    rw [Option.isSome_iff_ne_none]
    exact fun hnone => hne (UniqueIDPool.free_eq_none_iff.mp hnone)

/-- In every state that a run reaches, the ids in use are distinct and not in the list of freed ids, and
each can be freed, if and only if less than sixteen of the ids that were in use at the busiest moment
are not in use now. -/
theorem sound_iff {ops : List Op} (hrun : run next new ops = some s) :
    s.Sound ↔ s.inUse = [] ∨ s.peak < s.inUse.length + 16 := by
  have hwhole := invariant (I := Whole) (fun _ _ _ h hstep => h.next hstep) new_whole hrun
  exact hwhole.sound_iff_room

/-- Two ids are in use, and one is freed and taken again. -/
theorem sound_iff_of_two : (⟨⟨2, .empty⟩, [1, 0], 2⟩ : UniqueIds).Sound := by
  have hrun : run next new [.next, .next, .free 1, .next] = some ⟨⟨2, .empty⟩, [1, 0], 2⟩ := rfl
  exact (sound_iff hrun).mpr (.inr (by decide))

/-- Seventeen ids are in use at once. The last of them cannot be freed. -/
theorem seventeenth_not_freed :
    ∃ s, run next new (List.replicate 17 .next ++ (List.range 16).map .free) = some s ∧
      s.inUse = [16] ∧ s.pool.free 16 = none := by
  refine ⟨_, rfl, ?_, ?_⟩ <;> decide

end UniqueIds

end EmbeddedMqttc
