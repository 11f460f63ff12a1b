import EmbeddedMqttc.Library.Prog

/-!
# The stack buffer

`StackBuffer` of `src/buffer.rs`: a byte array with a read and a write position. Reading consumes
from the front, writing commits at the back, and `flip` moves the unread bytes to the front of the
array. The positions carry their order as fields, so no slice or subtraction of the source can
fail. Its purpose is a queue of bytes, `reaableData`; every operation below comes with what it does
to that queue.

`usize` additions do not wrap here: the sums of the source are bounded by `N` plus the length of a
slice.
-/

namespace EmbeddedMqttc

inductive BufferError where
  | outOfBounds
  deriving DecidableEq, Repr

structure StackBuffer (N : Nat) where
  data : List UInt8
  readPosition : Nat
  writePosition : Nat
  data_length : data.length = N
  read_le_write : readPosition ≤ writePosition
  write_le : writePosition ≤ N
  deriving DecidableEq, Repr

namespace StackBuffer

variable {N : Nat}

theorem zero_le_zero : 0 ≤ 0 := Nat.le_refl 0

def new : StackBuffer N where
  data := List.replicate N 0
  readPosition := 0
  writePosition := 0
  data_length := List.length_replicate
  read_le_write := zero_le_zero
  write_le := Nat.zero_le _

/-- `&self.data[self.read_position..self.write_position]` -/
def reaableData (b : StackBuffer N) : List UInt8 :=
  (b.data.drop b.readPosition).take (b.writePosition - b.readPosition)

def flip (b : StackBuffer N) : StackBuffer N :=
  if 0 < b.readPosition then
    { data := b.data.rotate b.readPosition
      readPosition := 0
      writePosition := b.writePosition - b.readPosition
      data_length := by rw [List.length_rotate]; exact b.data_length
      read_le_write := Nat.zero_le _
      write_le := Nat.le_trans (Nat.sub_le ..) b.write_le }
  else b

/-- The buffer after a call of `writeable_data`; the slice it returns is `freeData` of it. -/
def writeableData (b : StackBuffer N) : StackBuffer N :=
  if b.writePosition = N then b.flip else b

/-- `&mut self.data[self.write_position..]` -/
def freeData (b : StackBuffer N) : List UInt8 := b.data.drop b.writePosition

/-- The buffer after the holder of the slice `freeData` has stored `bytes` at its start. -/
def writeSlice (b : StackBuffer N) (bytes : List UInt8) : StackBuffer N where
  data := b.data.take b.writePosition ++ bytes.take (N - b.writePosition) ++
    b.data.drop (b.writePosition + (bytes.take (N - b.writePosition)).length)
  readPosition := b.readPosition
  writePosition := b.writePosition
  data_length := by
    have := b.data_length
    have := b.write_le
    simp only [List.length_append, List.length_take, List.length_drop]
    omega
  read_le_write := b.read_le_write
  write_le := b.write_le

def addBytesRead (b : StackBuffer N) (bytesRead : Nat) : Except BufferError (StackBuffer N) :=
  if h : b.readPosition + bytesRead ≤ b.writePosition then
    .ok { b with readPosition := b.readPosition + bytesRead, read_le_write := h }
  else .error .outOfBounds

def commitBytesWritten (b : StackBuffer N) (bytesWritten : Nat) :
    Except BufferError (StackBuffer N) :=
  if h : b.writePosition + bytesWritten ≤ N then
    .ok { b with
      writePosition := b.writePosition + bytesWritten
      read_le_write := Nat.le_trans b.read_le_write (Nat.le_add_right ..)
      write_le := h }
  else .error .outOfBounds

def push (b : StackBuffer N) (bytes : List UInt8) : Except BufferError (StackBuffer N) :=
  let b := b.flip.writeableData
  if b.freeData.length ≥ bytes.length then
    (b.writeSlice bytes).commitBytesWritten bytes.length
  else .error .outOfBounds

def isMaxCapacity (b : StackBuffer N) : Bool := b.writePosition == 0

def isMaxLen (b : StackBuffer N) : Bool := b.readPosition == 0 && b.writePosition == N

def hasRemainingLen (b : StackBuffer N) : Bool := b.readPosition < b.writePosition

def reset (b : StackBuffer N) : StackBuffer N where
  data := b.data
  readPosition := 0
  writePosition := 0
  data_length := b.data_length
  read_le_write := zero_le_zero
  write_le := Nat.zero_le _

/-! ## The queue of unread bytes -/

variable {b b' : StackBuffer N} {bytes : List UInt8} {n : Nat}

@[simp] theorem length_reaableData :
    b.reaableData.length = b.writePosition - b.readPosition := by
  have := b.data_length
  have := b.write_le
  simp only [reaableData, List.length_take, List.length_drop]
  omega

@[simp] theorem length_freeData : b.freeData.length = N - b.writePosition := by
  simp [freeData, b.data_length]

theorem length_reaableData_le : b.reaableData.length ≤ N := by
  have := b.write_le
  rw [length_reaableData]; omega

theorem hasRemainingLen_iff : b.hasRemainingLen = true ↔ b.reaableData ≠ [] := by
  rw [← List.length_pos_iff, length_reaableData, hasRemainingLen, decide_eq_true_iff]
  omega

theorem hasRemainingLen_eq_false_iff : b.hasRemainingLen = false ↔ b.reaableData = [] := by
  rw [← Bool.not_eq_true, hasRemainingLen_iff, not_not]

theorem isMaxLen_iff : b.isMaxLen = true ↔ b.readPosition = 0 ∧ b.writePosition = N := by
  simp [isMaxLen]

/-- Only a buffer whose unread bytes fill the whole array is at its maximal length. -/
theorem isMaxLen_iff_length : b.isMaxLen = true ↔ b.reaableData.length = N := by
  have := b.write_le
  have := b.read_le_write
  rw [isMaxLen_iff, length_reaableData]; omega

@[simp] theorem reaableData_new : (new : StackBuffer N).reaableData = [] := by simp [reaableData, new]

@[simp] theorem reaableData_reset : b.reset.reaableData = [] := by simp [reaableData, reset]

@[simp] theorem readPosition_flip : b.flip.readPosition = 0 := by
  unfold flip; split <;> simp_all

@[simp] theorem writePosition_flip :
    b.flip.writePosition = b.writePosition - b.readPosition := by
  unfold flip; split <;> simp_all

@[simp] theorem reaableData_flip : b.flip.reaableData = b.reaableData := by
  have hw := b.write_le
  have hl := b.data_length
  have hr := b.read_le_write
  unfold flip
  split
  · simp only [reaableData, List.drop_zero, Nat.sub_zero]
    rw [List.rotate_eq_drop_append_take (by omega), List.take_append_of_le_length]
    simp only [List.length_drop]; omega
  · rfl

theorem writePosition_writeableData : b.writeableData.writePosition =
    if b.writePosition = N then N - b.readPosition else b.writePosition := by
  unfold writeableData
  split <;> simp_all

@[simp] theorem reaableData_writeableData : b.writeableData.reaableData = b.reaableData := by
  unfold writeableData; split <;> simp

/-- `writeable_data` gives an empty slice only when the unread bytes fill the whole array. -/
theorem freeData_writeableData_eq_nil_iff :
    b.writeableData.freeData = [] ↔ b.reaableData.length = N := by
  have := b.write_le
  have := b.read_le_write
  rw [← List.length_eq_zero_iff, length_freeData, writePosition_writeableData, length_reaableData]
  split <;> omega

@[simp] theorem readPosition_writeSlice : (b.writeSlice bytes).readPosition = b.readPosition := rfl

@[simp] theorem writePosition_writeSlice :
    (b.writeSlice bytes).writePosition = b.writePosition := rfl

theorem take_data_writeSlice (h : bytes.length ≤ N - b.writePosition)
    (hn : n ≤ bytes.length) : (b.writeSlice bytes).data.take (b.writePosition + n) =
      b.data.take b.writePosition ++ bytes.take n := by
  have := b.data_length
  have := b.write_le
  have hlen : (b.data.take b.writePosition).length = b.writePosition := by
    rw [List.length_take]; omega
  simp only [writeSlice, List.take_of_length_le h, List.append_assoc]
  rw [List.take_append, hlen, List.take_of_length_le (by omega), Nat.add_sub_cancel_left,
    List.take_append_of_le_length hn]

/-- Bytes stored in the free space are not unread bytes yet. -/
@[simp] theorem reaableData_writeSlice : (b.writeSlice bytes).reaableData = b.reaableData := by
  have := b.data_length
  have := b.write_le
  have := b.read_le_write
  have hlen : (b.data.take b.writePosition).length = b.writePosition := by
    rw [List.length_take]; omega
  simp only [reaableData, writeSlice]
  rw [List.append_assoc, List.drop_append_of_le_length (by omega), List.take_append_of_le_length]
  · rw [List.drop_take, List.take_take, Nat.min_self]
  · rw [List.length_drop]; omega

theorem addBytesRead_of_le (h : n ≤ b.reaableData.length) : ∃ b', b.addBytesRead n = .ok b' ∧
    b'.reaableData = b.reaableData.drop n ∧ b'.writePosition = b.writePosition ∧
      b'.readPosition = b.readPosition + n := by
  have hr := b.read_le_write
  rw [length_reaableData] at h
  have h' : b.readPosition + n ≤ b.writePosition := by omega
  rw [addBytesRead, dif_pos h']
  refine ⟨_, rfl, ?_, rfl, rfl⟩
  simp only [reaableData, List.drop_take, List.drop_drop]
  congr 1; omega

theorem addBytesRead_eq_ok (h : b.addBytesRead n = .ok b') : n ≤ b.reaableData.length ∧
    b'.reaableData = b.reaableData.drop n := by
  have hr := b.read_le_write
  by_cases hn : n ≤ b.reaableData.length
  · obtain ⟨b'', h'', hd, -⟩ := addBytesRead_of_le hn
    cases h''.symm.trans h
    exact ⟨hn, hd⟩
  · rw [length_reaableData] at hn
    rw [addBytesRead, dif_neg (by omega)] at h
    cases h

/-- Committing the first `n` bytes of a stored slice appends them to the unread bytes. -/
theorem commitBytesWritten_writeSlice (h : bytes.length ≤ N - b.writePosition)
    (hn : n ≤ bytes.length) : ∃ b', (b.writeSlice bytes).commitBytesWritten n = .ok b' ∧
      b'.reaableData = b.reaableData ++ bytes.take n ∧
      b'.readPosition = b.readPosition ∧ b'.writePosition = b.writePosition + n := by
  have hd := b.data_length
  have hw := b.write_le
  have hr := b.read_le_write
  have hN : (b.writeSlice bytes).writePosition + n ≤ N := by
    rw [writePosition_writeSlice]; omega
  rw [commitBytesWritten, dif_pos hN]
  refine ⟨_, rfl, ?_, rfl, rfl⟩
  simp only [reaableData, readPosition_writeSlice, writePosition_writeSlice]
  rw [List.take_drop, show b.readPosition + (b.writePosition + n - b.readPosition) =
    b.writePosition + n by omega, take_data_writeSlice h hn, List.drop_append_of_le_length,
    List.take_drop, show b.readPosition + (b.writePosition - b.readPosition) =
    b.writePosition by omega]
  rw [List.length_take]; omega

end StackBuffer

end EmbeddedMqttc
