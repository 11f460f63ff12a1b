import EmbeddedMqttc.Buffer
import EmbeddedMqttc.Library.Fifo
import EmbeddedMqttc.Library.Run

/-!
# The stack buffer is a bounded queue of bytes

The calls of `StackBuffer` in any order. Whatever `flip` moves and whatever bytes lie around the unread
ones, a call does to the unread bytes what the same call does to a queue with room for `N` bytes.
-/

namespace EmbeddedMqttc

open Run

variable {N : Nat}

namespace StackBuffer

inductive Op where
  /-- `writeable_data`, `bytes` stored at the start of the slice, and a commit of the first `n` of
  them. -/
  | write (bytes : List UInt8) (n : Nat)
  | addBytesRead (n : Nat)
  | flip
  | push (bytes : List UInt8)
  | reset

/-- What a call returns, and the buffer that it leaves when it gives up. -/
def returns (b : StackBuffer N) : Except BufferError (StackBuffer N) →
    Except BufferError Unit × StackBuffer N
  | .ok b' => (.ok (), b')
  | .error e => (.error e, b)

/-- The bytes that are stored fit in the slice, and no more than these are committed. -/
def call (b : StackBuffer N) : Op → Option (Except BufferError Unit × StackBuffer N)
  | .write bytes n =>
    if n ≤ bytes.length ∧ bytes.length ≤ b.writeableData.freeData.length then
      let b := b.writeableData.writeSlice bytes
      some (b.returns (b.commitBytesWritten n))
    else none
  | .addBytesRead n => some (b.returns (b.addBytesRead n))
  | .flip => some (.ok (), b.flip)
  | .push bytes => some (b.flip.writeableData.returns (b.push bytes))
  | .reset => some (.ok (), b.reset)

def next (b : StackBuffer N) (op : Op) : Option (StackBuffer N) := (b.call op).map Prod.snd

def queueAnswer (q : Fifo UInt8 N) : Option (Fifo UInt8 N) → Except BufferError Unit × Fifo UInt8 N
  | some q' => (.ok (), q')
  | none => (.error .outOfBounds, q)

/-- The same call of a queue. -/
def queueCall (q : Fifo UInt8 N) : Op → Except BufferError Unit × Fifo UInt8 N
  | .write bytes n => queueAnswer q (q.append (bytes.take n))
  | .addBytesRead n => queueAnswer q (q.consume n)
  | .flip => (.ok (), q)
  | .push bytes => queueAnswer q (q.append bytes)
  | .reset => (.ok (), q.clear)

def queueNext (q : Fifo UInt8 N) (op : Op) : Option (Fifo UInt8 N) := some (queueCall q op).2

variable {b b' : StackBuffer N} {q : Fifo UInt8 N} {bytes : List UInt8} {n : Nat}
  {r : Except BufferError Unit}

theorem length_freeData_writeableData_le :
    b.writeableData.freeData.length ≤ N - b.reaableData.length := by
  have hwrite := b.write_le
  have hread := b.read_le_write
  rw [length_freeData, writePosition_writeableData, length_reaableData]
  split <;> omega

/-- After a `flip` the whole room is in one piece. -/
theorem length_freeData_flip :
    b.flip.writeableData.freeData.length = N - b.reaableData.length := by
  have hwrite := b.write_le
  rw [length_freeData, writePosition_writeableData, length_reaableData, readPosition_flip,
    writePosition_flip]
  split <;> omega

/-! ## One call -/

theorem write_cases (hn : n ≤ bytes.length)
    (hbytes : bytes.length ≤ b.writeableData.freeData.length) :
    ∃ b', b.call (.write bytes n) = some (.ok (), b') ∧
      b'.reaableData = b.reaableData ++ bytes.take n := by
  have hfree := hbytes
  rw [length_freeData] at hfree
  obtain ⟨b', hcommit, hdata, -⟩ := commitBytesWritten_writeSlice hfree hn
  refine ⟨b', ?_, ?_⟩
  · rw [call, if_pos ⟨hn, hbytes⟩]
    simp only [hcommit, returns]
  · rw [hdata, reaableData_writeableData]

theorem addBytesRead_cases (b : StackBuffer N) (n : Nat) :
    (n ≤ b.reaableData.length ∧ ∃ b', b.addBytesRead n = .ok b' ∧
      b'.reaableData = b.reaableData.drop n) ∨
    (b.reaableData.length < n ∧ b.addBytesRead n = .error .outOfBounds) := by
  by_cases hn : n ≤ b.reaableData.length
  · obtain ⟨b', h, hdata, -⟩ := addBytesRead_of_le hn
    exact .inl ⟨hn, b', h, hdata⟩
  · have hread := b.read_le_write
    refine .inr ⟨Nat.lt_of_not_le hn, dif_neg ?_⟩
    rw [length_reaableData] at hn
    omega

theorem push_cases (b : StackBuffer N) (bytes : List UInt8) :
    (bytes.length ≤ N - b.reaableData.length ∧ ∃ b', b.push bytes = .ok b' ∧
      b'.reaableData = b.reaableData ++ bytes) ∨
    (N - b.reaableData.length < bytes.length ∧ b.push bytes = .error .outOfBounds) := by
  have hroom := length_freeData_flip (b := b)
  by_cases hbytes : bytes.length ≤ N - b.reaableData.length
  · have hfree := hbytes
    rw [← hroom, length_freeData] at hfree
    obtain ⟨b', hcommit, hdata, -⟩ := commitBytesWritten_writeSlice hfree (Nat.le_refl _)
    refine .inl ⟨hbytes, b', ?_, ?_⟩
    · rw [push, if_pos (by rw [hroom]; exact hbytes), hcommit]
    · rw [hdata, List.take_length, reaableData_writeableData, reaableData_flip]
  · refine .inr ⟨Nat.lt_of_not_le hbytes, ?_⟩
    rw [push, if_neg (by rw [hroom]; exact hbytes)]

/-- A call of the buffer is the same call of the queue of its unread bytes, with the same result. -/
theorem call_refines {op : Op} (hq : b.reaableData = q.contents) (h : b.call op = some (r, b')) :
    (queueCall q op).1 = r ∧ b'.reaableData = (queueCall q op).2.contents := by
  cases op with
  | write bytes n =>
    obtain ⟨hn, hbytes⟩ : n ≤ bytes.length ∧ bytes.length ≤ b.writeableData.freeData.length := by
      by_contra hslice
      rw [call, if_neg hslice] at h
      cases h
    obtain ⟨b₁, hcall, hdata⟩ := write_cases hn hbytes
    cases hcall.symm.trans h
    have hroom := Nat.le_trans hbytes length_freeData_writeableData_le
    rw [hq] at hroom hdata
    have hfits : (bytes.take n).length ≤ N - q.contents.length := by
      rw [List.length_take]
      omega
    obtain ⟨q', happend, hcontents⟩ := Fifo.exists_append hfits
    simp only [queueCall, happend, queueAnswer]
    exact ⟨trivial, hdata.trans hcontents.symm⟩
  | addBytesRead n =>
    rcases addBytesRead_cases b n with ⟨hn, b₁, hread, hdata⟩ | ⟨hn, hread⟩
    · rw [hq] at hn hdata
      obtain ⟨q', hconsume, hcontents⟩ := Fifo.exists_consume hn
      simp only [call, hread, returns] at h
      cases h
      simp only [queueCall, hconsume, queueAnswer]
      exact ⟨trivial, hdata.trans hcontents.symm⟩
    · rw [hq] at hn
      simp only [call, hread, returns] at h
      cases h
      simp only [queueCall, Fifo.consume_eq_none_iff.mpr hn, queueAnswer]
      exact ⟨trivial, hq⟩
  | flip =>
    cases h
    exact ⟨rfl, reaableData_flip.trans hq⟩
  | push bytes =>
    rcases push_cases b bytes with ⟨hbytes, b₁, hpush, hdata⟩ | ⟨hbytes, hpush⟩
    · rw [hq] at hbytes hdata
      obtain ⟨q', happend, hcontents⟩ := Fifo.exists_append hbytes
      simp only [call, hpush, returns] at h
      cases h
      simp only [queueCall, happend, queueAnswer]
      exact ⟨trivial, hdata.trans hcontents.symm⟩
    · rw [hq] at hbytes
      simp only [call, hpush, returns] at h
      cases h
      simp only [queueCall, Fifo.append_eq_none_iff.mpr hbytes, queueAnswer]
      rw [reaableData_writeableData, reaableData_flip]
      exact ⟨trivial, hq⟩
  | reset =>
    cases h
    exact ⟨rfl, reaableData_reset⟩

/-- A call that the queue gives up leaves it as it is. -/
theorem queue_call_error {op : Op} {e : BufferError} (h : (queueCall q op).1 = .error e) :
    (queueCall q op).2 = q := by
  have hanswer (o : Option (Fifo UInt8 N)) (h : (queueAnswer q o).1 = .error e) :
      (queueAnswer q o).2 = q := by
    cases o with
    | none => rfl
    | some q' => cases h
  cases op with
  | write bytes n => exact hanswer _ h
  | addBytesRead n => exact hanswer _ h
  | flip => cases h
  | push bytes => exact hanswer _ h
  | reset => cases h

/-- A call that returns `OutOfBounds` leaves the unread bytes as they are. -/
theorem call_error {op : Op} {e : BufferError} (h : b.call op = some (.error e, b')) :
    b'.reaableData = b.reaableData := by
  let q : Fifo UInt8 N :=
    { written := b.reaableData
      consumed := 0
      consumed_le := Nat.zero_le _
      le_capacity := by
        rw [Nat.zero_add]
        exact length_reaableData_le }
  have hq : b.reaableData = q.contents := rfl
  obtain ⟨hresult, hdata⟩ := call_refines hq h
  rw [hdata, queue_call_error hresult, hq]

/-! ## Runs -/

theorem run_refines {ops : List Op} (hq : b.reaableData = q.contents)
    (h : run next b ops = some b') :
    ∃ q', run queueNext q ops = some q' ∧ b'.reaableData = q'.contents := by
  induction ops generalizing b q with
  | nil =>
    cases h
    exact ⟨q, rfl, hq⟩
  | cons op ops ih =>
    obtain ⟨b₁, hstep, hrest⟩ := run_cons_iff.mp h
    obtain ⟨⟨r, b₁⟩, hcall, rfl⟩ := Option.map_eq_some_iff.mp hstep
    obtain ⟨-, hdata⟩ := call_refines hq hcall
    obtain ⟨q', hrun, hq'⟩ := ih hdata hrest
    exact ⟨q', run_cons_iff.mpr ⟨_, rfl, hrun⟩, hq'⟩

/-- In every run the positions are in order, the unread bytes are those that have been committed or
pushed since the last `reset` without those that have been consumed, a call that returns `OutOfBounds`
leaves them as they are, `push` fails only for lack of room, and `writeable_data` gives an empty slice
only of a full buffer. -/
theorem refines_fifo {ops : List Op} (hrun : run next (new : StackBuffer N) ops = some b) :
    (b.readPosition ≤ b.writePosition ∧ b.writePosition ≤ N ∧ b.data.length = N) ∧
    (∃ q, run queueNext (.empty : Fifo UInt8 N) ops = some q ∧ b.reaableData = q.contents ∧
      ∀ op r b', b.call op = some (r, b') →
        (queueCall q op).1 = r ∧ b'.reaableData = (queueCall q op).2.contents) ∧
    (∀ op e b', b.call op = some (.error e, b') → b'.reaableData = b.reaableData) ∧
    (∀ bytes, (∃ b', b.push bytes = .ok b') ↔ bytes.length ≤ N - b.reaableData.length) ∧
    (b.writeableData.freeData = [] → b.reaableData.length = N) := by
  refine ⟨⟨b.read_le_write, b.write_le, b.data_length⟩, ?_, ?_, ?_, ?_⟩
  · obtain ⟨q, hq, hdata⟩ := run_refines (q := .empty) reaableData_new hrun
    exact ⟨q, hq, hdata, fun op r b' h => call_refines hdata h⟩
  · intro op e b' h
    exact call_error h
  · intro bytes
    rcases push_cases b bytes with ⟨hbytes, b', hpush, -⟩ | ⟨hbytes, hpush⟩
    · exact ⟨fun _ => hbytes, fun _ => ⟨b', hpush⟩⟩
    · refine ⟨fun ⟨b', h⟩ => ?_, fun h => absurd h (Nat.not_le_of_lt hbytes)⟩
      cases hpush.symm.trans h
  · exact freeData_writeableData_eq_nil_iff.mp

/-- The buffer is filled, partly read, moved to the front and filled again. -/
theorem refines_fifo_of_flipped :
    ∃ (b : StackBuffer 4) (q : Fifo UInt8 4),
      run next new [.write [1, 2, 3, 4] 4, .addBytesRead 3, .flip, .push [5, 6]] = some b ∧
      b.reaableData = [4, 5, 6] ∧ q.contents = [4, 5, 6] ∧
      ((∃ b', b.push [7, 8] = .ok b') ↔ [7, 8].length ≤ 4 - b.reaableData.length) := by
  obtain ⟨b, hrun, hdata⟩ : ∃ b : StackBuffer 4,
      run next new [.write [1, 2, 3, 4] 4, .addBytesRead 3, .flip, .push [5, 6]] = some b ∧
      b.reaableData = [4, 5, 6] := ⟨_, rfl, by decide⟩
  obtain ⟨-, ⟨q, -, hq, -⟩, -, hpush, -⟩ := refines_fifo hrun
  exact ⟨b, q, hrun, hdata, hq.symm.trans hdata, hpush [7, 8]⟩

end StackBuffer

end EmbeddedMqttc
