import EmbeddedMqttc.Connection

/-!
# What the primitives of the connection do

One lemma for each function of the connection that touches the transport or a buffer: every outcome
it can have, with the state it leaves. The later modules argue from these lemmas and do not unfold
the functions again.
-/

namespace EmbeddedMqttc

variable {N : Nat} {α : Type} {w w' : World N}

@[simp] theorem World.withScript_script (ps : List Poll) : (w.withScript ps).script = ps := rfl

@[simp] theorem World.withScript_withScript (ps qs : List Poll) :
    (w.withScript ps).withScript qs = w.withScript qs := rfl

/-- The transport did not answer, or answered with an error: nothing but the script has changed. On
a closed stream it fails to answer only if no poll is ready. -/
def Interrupted (w : World N) (r : Except (Stop MqttError) α × World N) : Prop :=
  ∃ ps, ps.length ≤ w.script.length ∧
    (r = (.error .parked, w.withScript ps) ∧
        (w.net.closed = true → ∀ k, Poll.ready k ∉ w.script) ∨
      ∃ kind, r = (.error (.fail (.connectionFailed2 kind)), w.withScript ps) ∧
        Poll.error kind ∈ w.script)

theorem Interrupted.bind {β : Type} {m : Io N α} {f : α → Io N β}
    (h : Interrupted w (m.exec w)) : Interrupted w ((m >>= f).exec w) := by
  obtain ⟨ps, hps, ⟨h, hk⟩ | ⟨kind, h, hk⟩⟩ := h
  · exact ⟨ps, hps, .inl ⟨Prog.exec_bind_error h, hk⟩⟩
  · exact ⟨ps, hps, .inr ⟨kind, Prog.exec_bind_error h, hk⟩⟩

/-! ## Polling -/

theorem nextAnswer_length {script : List Poll} (h : nextAnswer script = some (a, ps)) :
    ps.length < script.length := by
  induction script with
  | nil => cases h
  | cons p script ih =>
    cases p with
    | pending =>
      have := ih h
      simp only [List.length_cons]; omega
    | _ => cases h; exact Nat.lt_succ_self _

theorem not_mem_of_nextAnswer {script : List Poll} (h : nextAnswer script = none) (k : Nat) :
    Poll.ready k ∉ script := by
  induction script with
  | nil => exact List.not_mem_nil
  | cons p script ih =>
    cases p with
    | pending => simpa using ih h
    | _ => cases h

theorem mem_of_nextAnswer {script : List Poll} (h : nextAnswer script = some (.error kind, ps)) :
    Poll.error kind ∈ script := by
  induction script with
  | nil => cases h
  | cons p script ih =>
    cases p with
    | pending => exact List.mem_cons_of_mem _ (ih h)
    | ready k => cases h
    | error kind => cases h; exact List.mem_cons_self

theorem awaitAnswer_exec (w : World N) : awaitAnswer.exec w =
    match nextAnswer w.script with
    | some (a, ps) => (.ok a, w.withScript ps)
    | none => (.error .parked, w.withScript []) := by
  simp only [awaitAnswer, Prog.exec_get_bind]
  cases nextAnswer w.script <;> rfl

/-- An awaited answer that is used by `f` either interrupts or is handed to `f`. -/
theorem awaitAnswer_bind_cases (f : Except ErrorKind Nat → Io N α)
    (hf : ∀ kind w, (f (.error kind)).exec w = (.error (.fail (.connectionFailed2 kind)), w))
    (w : World N) : Interrupted w ((awaitAnswer >>= f).exec w) ∨
      ∃ k ps, nextAnswer w.script = some (.ok k, ps) ∧ ps.length < w.script.length ∧
        (awaitAnswer >>= f).exec w = (f (.ok k)).exec (w.withScript ps) := by
  rw [Prog.exec_bind, awaitAnswer_exec]
  cases h : nextAnswer w.script with
  | none => exact .inl ⟨[], Nat.zero_le _, .inl ⟨rfl, fun _ => not_mem_of_nextAnswer h⟩⟩
  | some r =>
    obtain ⟨_ | k, ps⟩ := r
    · exact .inl ⟨ps, (nextAnswer_length h).le, .inr ⟨_, hf _ _, mem_of_nextAnswer h⟩⟩
    · exact .inr ⟨k, ps, rfl, nextAnswer_length h, rfl⟩

/-- The world after the transport has taken bytes. -/
def World.took (w : World N) (bytes : List UInt8) : World N :=
  { w with net := { w.net with tx := w.net.tx ++ bytes } }

theorem networkWrite_cases (bytes : List UInt8) (w : World N) :
    Interrupted w ((networkWrite bytes).exec w) ∨
      ∃ k ps, nextAnswer w.script = some (.ok k, ps) ∧ ps.length < w.script.length ∧
        (networkWrite bytes).exec w = (.ok (min (k + 1) bytes.length),
          (w.withScript ps).took (bytes.take (min (k + 1) bytes.length))) :=
  awaitAnswer_bind_cases _ (fun _ _ => rfl) w

theorem networkFlush_cases (w : World N) : Interrupted w (networkFlush.exec w) ∨
    ∃ k ps, nextAnswer w.script = some (.ok k, ps) ∧ ps.length < w.script.length ∧
      networkFlush.exec w = (.ok (), w.withScript ps) :=
  awaitAnswer_bind_cases _ (fun _ _ => rfl) w

/-- The first answer of a read that is ready: nothing at the end of a closed stream, else a non-empty
part of what the peer sent that fits in the slice. -/
theorem readAnswer_ok {net : Net} (h : net.readAnswer len p = some (.ok bytes)) :
    bytes = net.rx.take bytes.length ∧ bytes.length ≤ len ∧
      (0 < len → bytes = [] → net.rx = [] ∧ net.closed = true) := by
  cases p with
  | ready k =>
    simp only [Net.readAnswer] at h
    split at h
    · rename_i hrx
      split at h <;> cases h
      exact ⟨by simp, Nat.zero_le _, fun _ _ => ⟨hrx, by assumption⟩⟩
    · rename_i hrx
      cases h
      have hpos := List.length_pos_iff.mpr hrx
      refine ⟨?_, ?_, fun hlen hnil => ?_⟩
      · rw [List.length_take, List.take_eq_take_min]
      · rw [List.length_take]; omega
      · have := congrArg List.length hnil
        simp only [List.length_take, List.length_nil] at this
        omega
  | _ => simp [Net.readAnswer] at h

theorem readAnswer_error {net : Net} (h : net.readAnswer len p = some (.error kind)) :
    p = .error kind := by
  cases p with
  | pending => cases h
  | ready k =>
    simp only [Net.readAnswer] at h
    split at h
    · split at h <;> cases h
    · cases h
  | error kind => cases h; rfl

theorem awaitRead_length {net : Net} {script : List Poll}
    (h : net.awaitRead len script = some (r, ps)) : ps.length < script.length ∧
      ∃ p ∈ script, net.readAnswer len p = some r := by
  induction script with
  | nil => cases h
  | cons p script ih =>
    simp only [Net.awaitRead] at h
    split at h
    · cases h
      exact ⟨Nat.lt_succ_self _, p, List.mem_cons_self, by assumption⟩
    · obtain ⟨hlt, q, hq, hr⟩ := ih h
      exact ⟨Nat.lt_succ_of_lt hlt, q, List.mem_cons_of_mem _ hq, hr⟩

theorem not_mem_of_awaitRead {net : Net} {script : List Poll}
    (h : net.awaitRead len script = none) (hc : net.closed = true) (k : Nat) :
    Poll.ready k ∉ script := by
  induction script with
  | nil => exact List.not_mem_nil
  | cons p script ih =>
    simp only [Net.awaitRead] at h
    split at h
    · cases h
    · rename_i hp
      have hne : p ≠ .ready k := by
        rintro rfl
        simp only [Net.readAnswer, hc, if_true] at hp
        split at hp <;> cases hp
      exact fun hmem => (List.mem_cons.mp hmem).elim (fun he => hne he.symm) (ih h)

/-- The world after `n` bytes of what the peer sent have been handed over. -/
def World.got (w : World N) (n : Nat) : World N :=
  { w with net := { w.net with rx := w.net.rx.drop n } }

def World.withRecv (w : World N) (recvBuffer : StackBuffer N) : World N := { w with recvBuffer }

/-- What a read into a slice of length `len` hands over when it is ready. -/
def Handed (w : World N) (len : Nat) (bytes : List UInt8) : Prop :=
  bytes = w.net.rx.take bytes.length ∧ bytes.length ≤ len ∧
    (0 < len → bytes = [] → w.net.rx = [] ∧ w.net.closed = true)

theorem networkRead_cases (len : Nat) (w : World N) :
    (0 < len ∧ Interrupted w ((networkRead len).exec w)) ∨
      ∃ bytes ps, Handed w len bytes ∧ (len = 0 → ps = w.script) ∧
        (0 < len → w.net.awaitRead len w.script = some (.ok bytes, ps)) ∧
        (networkRead len).exec w = (.ok bytes, (w.withScript ps).got bytes.length) := by
  unfold networkRead
  split
  · subst len
    exact .inr ⟨[], w.script, ⟨by simp, Nat.le_refl _, nofun⟩, fun _ => rfl, nofun, rfl⟩
  · rename_i hlen
    simp only [Prog.exec_get_bind]
    cases h : w.net.awaitRead len w.script with
    | none =>
      exact .inl ⟨by omega, [], Nat.zero_le _, .inl ⟨rfl, not_mem_of_awaitRead h⟩⟩
    | some r =>
      obtain ⟨hps, p, hmem, hp⟩ := awaitRead_length h
      obtain ⟨kind | bytes, ps⟩ := r
      · refine .inl ⟨by omega, ps, hps.le, .inr ⟨kind, rfl, ?_⟩⟩
        rwa [← readAnswer_error hp]
      · exact .inr ⟨bytes, ps, readAnswer_ok hp, fun h => absurd h hlen, fun _ => rfl, rfl⟩

/-- A read that is polled once never suspends; it may hand over nothing. -/
theorem networkTryRead_cases (len : Nat) (w : World N) :
    (∃ kind ps, w.script = .error kind :: ps ∧
      (networkTryRead len).exec w = (.error (.fail (.connectionFailed2 kind)), w.withScript ps)) ∨
      ∃ bytes ps, (bytes = [] ∨ Handed w len bytes) ∧ (ps = w.script ∨ ps = w.script.tail) ∧
        (networkTryRead len).exec w = (.ok bytes, (w.withScript ps).got bytes.length) := by
  unfold networkTryRead
  split
  · exact .inr ⟨[], w.script, .inl rfl, .inl rfl, rfl⟩
  · simp only [Prog.exec_get_bind]
    cases hs : w.script with
    | nil => exact .inr ⟨[], w.script, .inl rfl, .inl hs, rfl⟩
    | cons p ps =>
      simp only [Prog.exec_set_bind]
      cases hp : w.net.readAnswer len p with
      | none => exact .inr ⟨[], ps, .inl rfl, .inr rfl, rfl⟩
      | some r =>
        cases r with
        | error kind => exact .inl ⟨kind, ps, by rw [readAnswer_error hp], rfl⟩
        | ok bytes => exact .inr ⟨bytes, ps, .inr (readAnswer_ok hp), .inr rfl, rfl⟩

namespace TcpConnectionState

theorem borrowRecv_exec (w : World N) :
    borrowRecv.exec w = (if w.mapped = none then .ok () else .error .panic, w) :=
  Prog.exec_ensure ..

theorem unwrapConnection_exec (w : World N) :
    unwrapConnection.exec w = (if w.connection then .ok () else .error .panic, w) :=
  Prog.exec_ensure ..

theorem borrowRecv_triple {I : World N → Prop} :
    Prog.Triple I borrowRecv (fun _ => I) (fun _ => I) := by
  intro w hw
  rw [borrowRecv_exec]
  split <;> simp_all

theorem unwrapConnection_triple {I : World N → Prop} :
    Prog.Triple I unwrapConnection (fun _ => I) (fun _ => I) := by
  intro w hw
  rw [unwrapConnection_exec]
  split <;> simp_all

/-! ## Sending -/

/-- A write takes a non-empty part of the pending bytes, or is interrupted. -/
theorem transmit_cases (w : World N) : Interrupted w (transmit.exec w) ∨
    ∃ k ps b, nextAnswer w.script = some (.ok k, ps) ∧ ps.length < w.script.length ∧
      b.reaableData = w.sendBuffer.reaableData.drop
        (min (k + 1) w.sendBuffer.reaableData.length) ∧
      b.writePosition = w.sendBuffer.writePosition ∧
      transmit.exec w = (.ok (), { (w.withScript ps).took (w.sendBuffer.reaableData.take
        (min (k + 1) w.sendBuffer.reaableData.length)) with sendBuffer := b }) := by
  rw [transmit, Prog.exec_get_bind]
  rcases networkWrite_cases w.sendBuffer.reaableData w with h | ⟨k, ps, hk, hps, h⟩
  · exact .inl h.bind
  · obtain ⟨b, hb, hd, hw, -⟩ := StackBuffer.addBytesRead_of_le (b := w.sendBuffer)
      (n := min (k + 1) w.sendBuffer.reaableData.length) (Nat.min_le_right ..)
    refine .inr ⟨k, ps, b, hk, hps, hd, hw, ?_⟩
    rw [Prog.exec_bind_ok h, hb]
    rfl

/-! ## Receiving -/

section

variable {read : Nat → Io N (List UInt8)}

theorem receive_ok {bytes : List UInt8} {ps : List Poll}
    (h : (read w.recvBuffer.writeableData.freeData.length).exec
      (w.withRecv w.recvBuffer.writeableData) =
        (.ok bytes, ((w.withRecv w.recvBuffer.writeableData).withScript ps).got bytes.length))
    (hlen : bytes.length ≤ w.recvBuffer.writeableData.freeData.length) :
    ∃ b, b.reaableData = w.recvBuffer.reaableData ++ bytes ∧
      (receive read).exec w =
        (.ok bytes.length, ((w.withScript ps).got bytes.length).withRecv b) := by
  rw [StackBuffer.length_freeData] at hlen
  obtain ⟨b, hb, hd, -⟩ := StackBuffer.commitBytesWritten_writeSlice
    (b := w.recvBuffer.writeableData) hlen (Nat.le_refl _)
  rw [StackBuffer.reaableData_writeableData, List.take_length] at hd
  refine ⟨b, hd, ?_⟩
  rw [receive, Prog.exec_modify_bind, Prog.exec_get_bind]
  change ((read w.recvBuffer.writeableData.freeData.length) >>= _).exec
    (w.withRecv w.recvBuffer.writeableData) = _
  rw [Prog.exec_bind_ok h]
  simp only [World.withRecv]
  rw [hb]
  rfl

theorem receive_error (h : (read w.recvBuffer.writeableData.freeData.length).exec
      (w.withRecv w.recvBuffer.writeableData) = (.error x, w')) :
    (receive read).exec w = (.error x, w') := by
  rw [receive, Prog.exec_modify_bind, Prog.exec_get_bind]
  exact Prog.exec_bind_error h

end

/-- A blocking read hands over a non-empty part of what the peer sent; nothing only at the end of
the stream or when the unread bytes fill the buffer. -/
theorem receive_networkRead_cases (w : World N) :
    (w.recvBuffer.reaableData.length < N ∧ ∃ b, b.reaableData = w.recvBuffer.reaableData ∧
      Interrupted (w.withRecv b) ((receive networkRead).exec w)) ∨
      ∃ bytes ps b, bytes = w.net.rx.take bytes.length ∧
        b.reaableData = w.recvBuffer.reaableData ++ bytes ∧
        (bytes = [] → w.recvBuffer.reaableData.length = N ∨ w.net.rx = [] ∧ w.net.closed = true) ∧
        (w.recvBuffer.reaableData.length = N → ps = w.script) ∧
        (w.recvBuffer.reaableData.length < N →
          ∃ len, w.net.awaitRead len w.script = some (.ok bytes, ps)) ∧
        (receive networkRead).exec w =
          (.ok bytes.length, ((w.withScript ps).got bytes.length).withRecv b) := by
  have hle := w.recvBuffer.length_reaableData_le
  have hN : w.recvBuffer.writeableData.freeData.length = 0 ↔
      w.recvBuffer.reaableData.length = N := by
    rw [List.length_eq_zero_iff, StackBuffer.freeData_writeableData_eq_nil_iff]
  rcases networkRead_cases w.recvBuffer.writeableData.freeData.length
    (w.withRecv w.recvBuffer.writeableData) with ⟨hlen, ps, hps, h⟩ | ⟨bytes, ps, hb, hz, hr, h⟩
  · refine .inl ⟨by omega, _, StackBuffer.reaableData_writeableData, ps, hps, ?_⟩
    rcases h with ⟨h, hk⟩ | ⟨kind, h, hk⟩
    · exact .inl ⟨receive_error h, hk⟩
    · exact .inr ⟨kind, receive_error h, hk⟩
  · obtain ⟨b, hd, he⟩ := receive_ok h hb.2.1
    refine .inr ⟨bytes, ps, b, hb.1, hd, fun hnil => ?_, fun h => hz (hN.mpr h),
      fun h => ⟨_, hr (by omega)⟩, he⟩
    rcases Nat.lt_or_ge w.recvBuffer.reaableData.length N with hlt | hge
    · exact .inr (hb.2.2 (by omega) hnil)
    · exact .inl (Nat.le_antisymm hle hge)

theorem receive_networkTryRead_cases (w : World N) :
    (∃ b kind ps, b.reaableData = w.recvBuffer.reaableData ∧ w.script = .error kind :: ps ∧
      (receive networkTryRead).exec w =
        (.error (.fail (.connectionFailed2 kind)), (w.withScript ps).withRecv b)) ∨
      ∃ bytes ps b, bytes = w.net.rx.take bytes.length ∧
        b.reaableData = w.recvBuffer.reaableData ++ bytes ∧
        (ps = w.script ∨ ps = w.script.tail) ∧
        (receive networkTryRead).exec w =
          (.ok bytes.length, ((w.withScript ps).got bytes.length).withRecv b) := by
  rcases networkTryRead_cases w.recvBuffer.writeableData.freeData.length
    (w.withRecv w.recvBuffer.writeableData) with ⟨kind, ps, hps, h⟩ | ⟨bytes, ps, hb, hps, h⟩
  · exact .inl ⟨_, kind, ps, StackBuffer.reaableData_writeableData, hps, receive_error h⟩
  · have hb : bytes = w.net.rx.take bytes.length ∧
        bytes.length ≤ w.recvBuffer.writeableData.freeData.length := by
      rcases hb with rfl | hb
      · exact ⟨by simp, Nat.zero_le _⟩
      · exact ⟨hb.1, hb.2.1⟩
    obtain ⟨b, hd, he⟩ := receive_ok h hb.2
    exact .inr ⟨bytes, ps, b, hb.1, hd, hps, he⟩

/-! ## Decoding -/

variable (C : Codec)

/-- What `try_read_packet` does while no packet reference is held. -/
theorem tryReadPacket_exec (w : World N) : (tryReadPacket C).exec w =
    if w.mapped.isSome then (.error .panic, w) else
    match C.decodeSliceWithLen w.recvBuffer.reaableData with
    | .ok (some (bytesRead, packet)) => (.ok (some packet), { w with
        mapped := some bytesRead
        net := { w.net with returned := w.net.returned ++ [packet] } })
    | .ok none =>
      if w.recvBuffer.reaableData.length = N then (.error (.fail .bufferTooSmall), w)
      else (.ok none, w)
    | .error err => (.error (.fail (.codecError err)), w) := by
  unfold tryReadPacket borrowRecv
  cases hm : w.mapped with
  | some n => simp [Prog.exec_bind, Prog.exec_ensure, hm]
  | none =>
    simp only [Prog.exec_bind, Prog.exec_get, Prog.exec_ensure, hm, if_true, Option.isSome_none,
      Bool.false_eq_true, if_false]
    cases C.decodeSliceWithLen w.recvBuffer.reaableData with
    | error err => rfl
    | ok r =>
      cases r with
      | some r => rfl
      | none =>
        simp only [← StackBuffer.isMaxLen_iff_length]
        split <;> rfl

/-- Dropping a packet reference consumes the bytes of the packet. -/
theorem dropPacket_exec (w : World N) : dropPacket.exec w =
    match w.mapped with
    | none => (.ok (), w)
    | some n =>
      match w.recvBuffer.addBytesRead n with
      | .ok b => (.ok (), { w with recvBuffer := b, mapped := none })
      | .error _ => (.error .panic, w) := by
  rw [dropPacket, Prog.exec_get_bind]
  cases w.mapped with
  | none => rfl
  | some n => cases h : w.recvBuffer.addBytesRead n <;> simp [Except.toOption, Prog.exec_bind, h]

end TcpConnectionState

/-! ## Writing a packet -/

def World.withSend (w : World N) (sendBuffer : StackBuffer N) : World N := { w with sendBuffer }

/-- The world in which a `try_write_packet` has answered `Ok(true)`. -/
def World.accept (w : World N) (packet : Packet) (sendBuffer : StackBuffer N) : World N :=
  { w with
    sendBuffer
    net := { w.net with accepted := w.net.accepted ++ [packet] } }

variable {C : Codec}

/-- An encoding that succeeds is appended to the unread bytes by the commit that follows it. -/
theorem Codec.WritesEncoding.commit (hC : C.WritesEncoding) {b : StackBuffer N}
    (h : (C.encodeSlice p b.freeData).1 = .ok n) :
    ∃ b', (b.writeSlice (C.encodeSlice p b.freeData).2).commitBytesWritten n = .ok b' ∧
      b'.reaableData = b.reaableData ++ C.encode p ∧
      b'.readPosition = b.readPosition ∧ b'.writePosition = b.writePosition + n := by
  have hlen := hC.length_eq p b.freeData
  obtain ⟨hn, henc⟩ := hC.of_ok p b.freeData n h
  rw [StackBuffer.length_freeData] at hlen hn
  obtain ⟨b', hb, hd, hpos⟩ := StackBuffer.commitBytesWritten_writeSlice hlen.le (hlen ▸ hn)
  rw [henc] at hd
  exact ⟨b', hb, hd, hpos⟩

namespace TcpConnectionState

/-- The inherent `try_write_packet` accepts the packet or leaves the pending bytes as they are. -/
theorem tryWritePacket_cases (hC : C.WritesEncoding) (p : Packet) (w : World N) :
    (∃ b, b.reaableData = w.sendBuffer.reaableData ++ C.encode p ∧
      (tryWritePacket C p).exec w = (.ok true, w.accept p b)) ∨
    ∃ b r, b.reaableData = w.sendBuffer.reaableData ∧
      (r = .ok false ∨ r = .error (.fail .bufferTooSmall) ∨
        ∃ err, r = .error (.fail (.codecError err))) ∧
      (tryWritePacket C p).exec w = (r, w.withSend b) := by
  have hsame (bytes) : (w.sendBuffer.flip.writeableData.writeSlice bytes).reaableData =
      w.sendBuffer.reaableData := by simp
  rw [tryWritePacket, Prog.exec_get_bind]
  simp only [Prog.exec_set_bind]
  cases h : (C.encodeSlice p w.sendBuffer.flip.writeableData.freeData).1 with
  | ok n =>
    obtain ⟨b, hb, hd, -⟩ := hC.commit h
    refine .inl ⟨b, by simpa using hd, ?_⟩
    simp only [hb]
    rfl
  | error err =>
    refine .inr ?_
    cases err with
    | other code => exact ⟨_, _, hsame _, .inr (.inr ⟨_, rfl⟩), rfl⟩
    | writeZero =>
      simp only
      split
      · exact ⟨_, _, hsame _, .inr (.inl rfl), rfl⟩
      · exact ⟨_, _, hsame _, .inl rfl, rfl⟩

end TcpConnectionState

namespace ConnectionState

/-- The trait method accepts the packet behind the pending bytes or leaves them as they are. -/
theorem tryWritePacket_cases (hC : C.WritesEncoding) (p : Packet) (w : World N) :
    (∃ n b, (C.encodeSlice p w.sendBuffer.writeableData.freeData).1 = .ok n ∧
      b.reaableData = w.sendBuffer.reaableData ++ C.encode p ∧
      (tryWritePacket C p).exec w = (.ok true, w.accept p b)) ∨
    ∃ err b r, (C.encodeSlice p w.sendBuffer.writeableData.freeData).1 = .error err ∧
      b.reaableData = w.sendBuffer.reaableData ∧
      b.readPosition = w.sendBuffer.writeableData.readPosition ∧
      b.writePosition = w.sendBuffer.writeableData.writePosition ∧
      (err = .writeZero ∧ r = .ok false ∨
        err ≠ .writeZero ∧ r = .error (.fail (.codecError err))) ∧
      (tryWritePacket C p).exec w = (r, w.withSend b) := by
  have hsame (bytes) : (w.sendBuffer.writeableData.writeSlice bytes).reaableData =
      w.sendBuffer.reaableData := by simp
  rw [tryWritePacket, Prog.exec_get_bind]
  simp only [Prog.exec_set_bind]
  cases h : (C.encodeSlice p w.sendBuffer.writeableData.freeData).1 with
  | ok n =>
    obtain ⟨b, hb, hd, -⟩ := hC.commit h
    refine .inl ⟨n, b, rfl, by simpa using hd, ?_⟩
    simp only [hb]
    rfl
  | error err =>
    cases err with
    | other code => exact .inr ⟨_, _, _, rfl, hsame _, rfl, rfl, .inr ⟨nofun, rfl⟩, rfl⟩
    | writeZero => exact .inr ⟨_, _, _, rfl, hsame _, rfl, rfl, .inl ⟨rfl, rfl⟩, rfl⟩

end ConnectionState

end EmbeddedMqttc
