import EmbeddedMqttc.EndOfStream

/-!
# Sending and receiving within one connect

What the parts of `connect` do to the streams of the connection, once for every run. `F` says whether
the run is known to have enough answers: without it the rules below are about runs that return, with
it they exclude that the part is suspended or fails.
-/

namespace EmbeddedMqttc

open Prog

variable {N : Nat} {C : Codec} {w w' : World N} {F : Prop} {d : Nat}

/-! ## Answers -/

theorem nextAnswer_of_ready {script : List Poll} (h : Clean script) (hr : 0 < readies script) :
    ∃ k ps, nextAnswer script = some (.ok k, ps) := by
  induction script with
  | nil => cases hr
  | cons p script ih =>
    cases p with
    | pending => exact ih h.tail (by simpa using hr)
    | ready k => exact ⟨k, script, rfl⟩
    | error kind => exact absurd List.mem_cons_self (h kind)

/-- A read of bytes that have arrived takes the next poll that is ready. -/
theorem awaitRead_of_ready {net : Net} (len : Nat) {script : List Poll} (hrx : net.rx ≠ [])
    (h : Clean script) (hr : 0 < readies script) :
    ∃ bytes ps, net.awaitRead len script = some (.ok bytes, ps) ∧ Clean ps ∧
      readies script = readies ps + 1 := by
  induction script with
  | nil => cases hr
  | cons p script ih =>
    cases p with
    | pending =>
      simp only [readies_pending] at hr ⊢
      exact ih h.tail hr
    | ready k =>
      refine ⟨net.rx.take (min (k + 1) len), script, ?_, h.tail, readies_ready ..⟩
      simp only [Net.awaitRead, Net.readAnswer, hrx, if_false]
    | error kind => exact absurd List.mem_cons_self (h kind)

/-- What is interrupted does not return, so it is not interrupted in a run in which it returns. -/
theorem Interrupted.stops {α : Type} {m : Io N α} {Q : α → World N → Prop}
    {E : Stop MqttError → World N → Prop} (h : Interrupted w' (m.exec w))
    (hm : F → ∃ a s, m.exec w = (.ok a, s)) (hE : ¬ F → ∀ x s, E x s) :
    Triple (fun s => s = w) m Q E := by
  intro w₁ hw₁
  subst w₁
  have hstop : ∃ x s, m.exec w = (.error x, s) := by
    obtain ⟨ps, -, ⟨h, -⟩ | ⟨kind, h, -⟩⟩ := h <;> exact ⟨_, _, h⟩
  obtain ⟨x, s, hx⟩ := hstop
  rw [hx]
  refine hE (fun hF => ?_) x s
  obtain ⟨a, s', ha⟩ := hm hF
  cases hx.symm.trans ha

section

variable (h : Clean w.script) (hr : 0 < readies w.script)
include h hr

theorem networkFlush_of_ready : ∃ u w', networkFlush.exec w = (.ok u, w') := by
  obtain ⟨k, ps, ha⟩ := nextAnswer_of_ready h hr
  refine ⟨(), w.withScript ps, ?_⟩
  rw [networkFlush, exec_bind, awaitAnswer_exec, ha]
  rfl

theorem networkWrite_of_ready (bytes : List UInt8) : ∃ k ps, (networkWrite bytes).exec w =
    (.ok (min (k + 1) bytes.length), (w.withScript ps).took (bytes.take (min (k + 1) bytes.length))) := by
  obtain ⟨k, ps, ha⟩ := nextAnswer_of_ready h hr
  refine ⟨k, ps, ?_⟩
  rw [networkWrite, exec_bind, awaitAnswer_exec, ha]
  rfl

theorem TcpConnectionState.transmit_of_ready : ∃ u w', transmit.exec w = (.ok u, w') := by
  obtain ⟨k, ps, hn⟩ := networkWrite_of_ready h hr w.sendBuffer.reaableData
  obtain ⟨b, hb, -⟩ := StackBuffer.addBytesRead_of_le (b := w.sendBuffer)
    (Nat.min_le_right (k + 1) w.sendBuffer.reaableData.length)
  rw [transmit, exec_get_bind, exec_bind_ok hn, hb]
  exact ⟨(), _, rfl⟩

end

theorem networkRead_of_answer {len : Nat} {bytes : List UInt8} {ps : List Poll} (hlen : len ≠ 0)
    (h : w.net.awaitRead len w.script = some (.ok bytes, ps)) :
    (networkRead len).exec w = (.ok bytes, (w.withScript ps).got bytes.length) := by
  rw [networkRead, if_neg hlen, exec_get_bind, h]
  rfl

/-- A read into a buffer that is not full returns if bytes have arrived and a poll is ready. -/
theorem TcpConnectionState.receive_of_ready (hlt : w.recvBuffer.reaableData.length < N)
    (hrx : w.net.rx ≠ []) (h : Clean w.script) (hr : 0 < readies w.script) :
    ∃ n w', (receive networkRead).exec w = (.ok n, w') := by
  have hlen : w.recvBuffer.writeableData.freeData.length ≠ 0 := by
    rw [ne_eq, List.length_eq_zero_iff, StackBuffer.freeData_writeableData_eq_nil_iff]
    exact Nat.ne_of_lt hlt
  obtain ⟨bytes, ps, ha, -⟩ := awaitRead_of_ready w.recvBuffer.writeableData.freeData.length hrx h hr
  obtain ⟨-, p, -, hp⟩ := awaitRead_length ha
  obtain ⟨b, -, he⟩ := receive_ok (networkRead_of_answer hlen ha) (readAnswer_ok hp).2.1
  exact ⟨_, _, he⟩

/-! ## Room in the send buffer -/

/-- The inherent `try_write_packet` writes behind the pending bytes, which start at the front. -/
theorem StackBuffer.writePosition_flip_writeableData (b : StackBuffer N) :
    b.flip.writeableData.writePosition = b.reaableData.length := by
  rw [writePosition_writeableData, writePosition_flip, readPosition_flip, length_reaableData]
  split
  · omega
  · rfl

namespace TcpConnectionState

theorem tryWritePacket_refused {p : Packet}
    (h : (tryWritePacket C p).exec w = (.ok false, w')) : w.sendBuffer.reaableData ≠ [] := by
  intro hnil
  have hpos := w.sendBuffer.writePosition_flip_writeableData
  rw [hnil, List.length_nil] at hpos
  rw [tryWritePacket, exec_get_bind] at h
  simp only [exec_set_bind] at h
  cases hr : (C.encodeSlice p w.sendBuffer.flip.writeableData.freeData).1 with
  | ok n =>
    simp only [hr] at h
    obtain ⟨b, w₁, -, h⟩ := exec_bind_eq_ok h
    cases h
  | error err =>
    cases err with
    | other code =>
      simp only [hr] at h
      cases h
    | writeZero =>
      simp only [hr] at h
      rw [if_pos (by simp [StackBuffer.isMaxCapacity, hpos])] at h
      cases h

/-- A packet that the empty buffer has room for is accepted or refused. -/
theorem tryWritePacket_of_le (hC : C.WritesEncoding) (hfits : C.EncodesIfFits) {p : Packet}
    (hp : (C.encode p).length ≤ N) (w : World N) :
    ∃ sent w', (tryWritePacket C p).exec w = (.ok sent, w') := by
  have hfree : w.sendBuffer.flip.writeableData.freeData.length =
      N - w.sendBuffer.reaableData.length := by
    rw [StackBuffer.length_freeData, StackBuffer.writePosition_flip_writeableData]
  rw [tryWritePacket, exec_get_bind]
  simp only [exec_set_bind]
  rcases Nat.lt_or_ge w.sendBuffer.flip.writeableData.freeData.length (C.encode p).length with
    hlt | hge
  · have hpos : ¬ w.sendBuffer.reaableData.length = 0 := by omega
    rw [hfits.short p _ hlt]
    simp only [StackBuffer.isMaxCapacity, StackBuffer.writePosition_writeSlice,
      StackBuffer.writePosition_flip_writeableData, beq_iff_eq, hpos, if_false]
    exact ⟨_, _, rfl⟩
  · have hok := hfits.fits p _ hge
    obtain ⟨b, hb, -⟩ := hC.commit hok
    simp only [hok, hb]
    exact ⟨_, _, rfl⟩

end TcpConnectionState

/-! ## States of a connect -/

/-- Where a connect is: the packets it has written and read, the pool it takes identifiers from,
whether a packet reference is held and whether everything has been sent. -/
structure Stage where
  accepted : List Packet
  returned : List Packet
  pool : PidPool PID_POOL_SIZE
  lent : Bool
  drained : Bool

/-- A state in which the connection carries `stream` to the client. -/
structure Linked (C : Codec) (stream : List Packet) (t : Stage) (w : World N) : Prop where
  connection : w.connection = true
  outgoing : FramedPipe.Outgoing C.encode w.pipe
  incoming : FramedPipe.Incoming C.encode stream w.pipe
  accepted : w.net.accepted = t.accepted
  returned : w.net.returned = t.returned
  pool : w.pool = t.pool
  lent : w.mapped.isSome = t.lent
  drained : t.drained = true → w.sendBuffer.reaableData = []

/-- Enough polls are ready to send what is pending, two for each write, and to read what is left of
the stream, with `d` to spare. -/
structure Supplied (d : Nat) (w : World N) : Prop where
  clean : Clean w.script
  ready : 2 * w.sendBuffer.reaableData.length + w.net.rx.length + d ≤ readies w.script

structure Progress (C : Codec) (stream : List Packet) (F : Prop) (d : Nat) (t : Stage)
    (w : World N) : Prop where
  linked : Linked C stream t w
  supplied : F → Supplied d w

variable {S : Packet → Prop} {stream : List Packet} {t t' : Stage}

theorem Supplied.mono {e : Nat} (h : Supplied d w) (hle : e ≤ d) : Supplied e w :=
  ⟨h.clean, Nat.le_trans (Nat.add_le_add_left hle _) h.ready⟩

theorem Supplied.of_eq (h : Supplied d w) (hscript : w'.script = w.script)
    (hsend : w'.sendBuffer.reaableData = w.sendBuffer.reaableData) (hrx : w'.net.rx = w.net.rx) :
    Supplied d w' := by
  refine ⟨hscript ▸ h.clean, ?_⟩
  rw [hscript, hsend, hrx]
  exact h.ready

theorem Progress.mono {e : Nat} (h : Progress C stream F d t w) (hle : F → e ≤ d) :
    Progress C stream F e t w := ⟨h.linked, fun hF => (h.supplied hF).mono (hle hF)⟩

section

variable (hdec : C.Decodes S) (hS : ∀ p ∈ stream, S p)
include hdec hS

/-- The streams of a connection are kept by every step of it. -/
theorem Linked.step {a : Act} (hw : Linked C stream t w) (h : Step C a w w')
    (hcon : w'.connection = true) (hacc : w'.net.accepted = t'.accepted)
    (hret : w'.net.returned = t'.returned) (hpool : w'.pool = t'.pool)
    (hlent : w'.mapped.isSome = t'.lent)
    (hdrained : t'.drained = true → w'.sendBuffer.reaableData = []) : Linked C stream t' w' := by
  have hpipe : FramedPipe.Outgoing C.encode w'.pipe ∧ FramedPipe.Incoming C.encode stream w'.pipe := by
    rcases h.pipe with hp | hp
    · rw [hp]
      exact ⟨hw.outgoing, hw.incoming⟩
    · exact ⟨hw.outgoing.step hp, hw.incoming.step hdec hS hp⟩
  exact ⟨hcon, hpipe.1, hpipe.2, hacc, hret, hpool, hlent, hdrained⟩

theorem Progress.transmit (k : Nat) :
    Triple (fun w => Progress C stream F d t w ∧ w.sendBuffer.hasRemainingLen = true ∧
        w.script.length ≤ k)
      (TcpConnectionState.transmit : Io N _)
      (fun _ w => Progress C stream F (d + 1) t w ∧ w.script.length < k) (fun _ _ => ¬ F) := by
  intro w ⟨hw, hr, hk⟩
  have hpos := List.length_pos_iff.mpr (StackBuffer.hasRemainingLen_iff.mp hr)
  rcases TcpConnectionState.transmit_cases w with hi | ⟨n, ps, b, hn, hps, hb, -, he⟩
  · refine hi.stops (F := F) (fun hF => ?_) (fun hF _ _ => hF) w rfl
    have hsupplied := (hw.supplied hF).ready
    exact TcpConnectionState.transmit_of_ready (hw.supplied hF).clean (by omega)
  · rw [he]
    refine ⟨⟨hw.linked.step hdec hS
        (.transmit (min (n + 1) w.sendBuffer.reaableData.length) hr hb) hw.linked.connection
        hw.linked.accepted hw.linked.returned hw.linked.pool hw.linked.lent fun h => ?_,
      fun hF => ?_⟩, Nat.lt_of_lt_of_le hps hk⟩
    · change b.reaableData = []
      rw [hb, hw.linked.drained h, List.drop_nil]
    · obtain ⟨hclean, hready⟩ := nextAnswer_clean (hw.supplied hF).clean hn
      have hsupplied := (hw.supplied hF).ready
      refine ⟨hclean, ?_⟩
      change 2 * b.reaableData.length + w.net.rx.length + (d + 1) ≤ readies ps
      rw [hb, List.length_drop]
      omega

theorem Progress.networkFlush (k : Nat) :
    Triple (fun w => Progress C stream F (d + 1) t w ∧ w.script.length ≤ k) (networkFlush : Io N _)
      (fun _ w => Progress C stream F d t w ∧ w.script.length < k) (fun _ _ => ¬ F) := by
  intro w ⟨hw, hk⟩
  rcases networkFlush_cases w with hi | ⟨n, ps, hn, hps, he⟩
  · refine hi.stops (F := F) (fun hF => ?_) (fun hF _ _ => hF) w rfl
    have hsupplied := (hw.supplied hF).ready
    exact networkFlush_of_ready (hw.supplied hF).clean (by omega)
  · have hstep : Step C .silent w (w.withScript ps) := .silent rfl rfl rfl rfl
    rw [he]
    refine ⟨⟨hw.linked.step hdec hS hstep hw.linked.connection hw.linked.accepted
      hw.linked.returned hw.linked.pool hw.linked.lent hw.linked.drained, fun hF => ?_⟩,
      Nat.lt_of_lt_of_le hps hk⟩
    obtain ⟨hclean, hready⟩ := nextAnswer_clean (hw.supplied hF).clean hn
    have hsupplied := (hw.supplied hF).ready
    refine ⟨hclean, ?_⟩
    change 2 * w.sendBuffer.reaableData.length + w.net.rx.length + d ≤ readies ps
    omega

omit hdec hS in
theorem Progress.unwrapConnection {R : World N → Prop} :
    Triple (fun w => Progress C stream F d t w ∧ R w) (TcpConnectionState.unwrapConnection : Io N _)
      (fun _ w => Progress C stream F d t w ∧ R w) (fun _ _ => ¬ F) := by
  intro w hw
  rw [TcpConnectionState.unwrapConnection_exec, if_pos hw.1.linked.connection]
  exact hw

theorem Progress.sendAllTurn (k : Nat) :
    Triple (fun w => Progress C stream F d t w ∧ w.script.length = k)
      (TcpConnectionState.sendAllTurn : Io N _)
      (fun o w => match o with
        | some _ => Progress C stream F d { t with drained := true } w
        | none => Progress C stream F d t w ∧ w.script.length < k)
      (fun _ _ => ¬ F) := by
  refine .get_bind fun s => ?_
  split
  · rename_i hr
    refine .bind ((Progress.transmit hdec hS k).conseq (fun w h => ?_) (fun _ _ h => h)
      (fun _ _ h => h)) fun _ => .pure _ fun w h => ⟨h.1.mono fun _ => Nat.le_succ d, h.2⟩
    obtain ⟨rfl, hw, hk⟩ := h
    exact ⟨hw, hr, hk.le⟩
  · rename_i hr
    refine .pure _ fun w h => ?_
    obtain ⟨rfl, hw, -⟩ := h
    have hnil := StackBuffer.hasRemainingLen_eq_false_iff.mp ((Bool.not_eq_true _).mp hr)
    exact ⟨{ hw.linked with drained := fun _ => hnil }, hw.supplied⟩

/-- Everything that is pending is sent before `send_all` returns. -/
theorem Progress.sendAll :
    Triple (Progress C stream F (d + 1) t) (TcpConnectionState.sendAll : Io N _)
      (fun _ => Progress C stream F d { t with drained := true }) (fun _ _ => ¬ F) := by
  refine .bind ((Progress.unwrapConnection (R := fun _ => True)).conseq (fun w h => ⟨h, trivial⟩)
    (fun _ _ h => h.1) (fun _ _ h => h)) fun _ => .get_bind fun s => ?_
  refine .bind (Q := fun _ => Progress C stream F (d + 1) { t with drained := true }) ?_ fun _ => ?_
  · refine (Triple.loop_measure (I := Progress C stream F (d + 1) t) (fun w => w.script.length)
      (fun k => (Progress.sendAllTurn hdec hS k).weaken (fun o _ h => by cases o <;> exact h)
        (fun _ _ h => h)) _).conseq (fun w h => ?_) (fun _ _ h => h)
        (fun _ _ h => h)
    obtain ⟨rfl, hw⟩ := h
    exact ⟨hw, Nat.lt_succ_self _⟩
  · intro w hw
    exact (Progress.networkFlush hdec hS w.script.length).weaken (fun _ _ h => h.1)
      (fun _ _ h => h) w ⟨hw, Nat.le_refl _⟩

/-- A `send` with pending bytes uses an answer. -/
theorem Progress.send (s : World N) :
    Triple (fun w => w = s ∧ Progress C stream F d t w) (TcpConnectionState.send : Io N _)
      (fun _ w => Progress C stream F d t w ∧
        (w.script.length < s.script.length ∨ s.sendBuffer.reaableData = []))
      (fun _ _ => ¬ F) := by
  refine .get_bind fun r => ?_
  split
  · rename_i hr
    refine .bind (Q := fun _ w => Progress C stream F d t w ∧ w.sendBuffer.hasRemainingLen = true ∧
      w.script.length ≤ s.script.length) (Progress.unwrapConnection.conseq (fun w h => ?_)
        (fun _ _ h => h) (fun _ _ h => h)) fun _ => .bind (Progress.transmit hdec hS _) fun _ w hw => ?_
    · obtain ⟨rfl, rfl, hw⟩ := h
      exact ⟨hw, hr, Nat.le_refl _⟩
    exact (Progress.networkFlush hdec hS w.script.length).weaken
      (fun _ _ h => ⟨h.1, .inl (Nat.lt_trans h.2 hw.2)⟩) (fun _ _ h => h) w
      ⟨hw.1, Nat.le_refl _⟩
  · rename_i hr
    refine .pure _ fun w h => ?_
    obtain ⟨rfl, rfl, hw⟩ := h
    have hnil := StackBuffer.hasRemainingLen_eq_false_iff.mp ((Bool.not_eq_true _).mp hr)
    exact ⟨hw, .inr hnil⟩

/-- A packet that the buffer has room for is accepted, unless some bytes are pending. -/
theorem Progress.tryWritePacket (hC : C.WritesEncoding) {p : Packet}
    (hp : F → C.EncodesIfFits ∧ (C.encode p).length ≤ N) (k : Nat) :
    Triple (fun w => Progress C stream F (d + 2 * (C.encode p).length) t w ∧ w.script.length = k)
      (TcpConnectionState.tryWritePacket C p : Io N _)
      (fun sent w => w.script.length = k ∧ match sent with
        | true => Progress C stream F d
            { t with accepted := t.accepted ++ [p], drained := false } w
        | false => Progress C stream F (d + 2 * (C.encode p).length) t w ∧
            w.sendBuffer.reaableData ≠ [])
      (fun _ _ => ¬ F) := by
  intro w ⟨hw, hk⟩
  rcases TcpConnectionState.tryWritePacket_cases hC p w with ⟨b, hb, he⟩ | ⟨b, r, hb, hr, he⟩
  · rw [he]
    refine ⟨hk, hw.linked.step hdec hS (.accept p hb) hw.linked.connection ?_ hw.linked.returned
      hw.linked.pool hw.linked.lent nofun, fun hF => ⟨(hw.supplied hF).clean, ?_⟩⟩
    · change w.net.accepted ++ [p] = t.accepted ++ [p]
      rw [hw.linked.accepted]
    · have hsupplied := (hw.supplied hF).ready
      change 2 * b.reaableData.length + w.net.rx.length + d ≤ readies w.script
      rw [hb, List.length_append]
      omega
  · have hkeep : Progress C stream F (d + 2 * (C.encode p).length) t (w.withSend b) := by
      refine ⟨hw.linked.step hdec hS (.refuse hb) hw.linked.connection hw.linked.accepted
        hw.linked.returned hw.linked.pool hw.linked.lent fun h => ?_, fun hF => ?_⟩
      · exact hb.trans (hw.linked.drained h)
      · exact (hw.supplied hF).of_eq rfl hb rfl
    rw [he]
    rcases hr with rfl | hr
    · exact ⟨hk, hkeep, hb ▸ TcpConnectionState.tryWritePacket_refused he⟩
    · have hstop : F → ∃ sent w', (TcpConnectionState.tryWritePacket C p).exec w = (.ok sent, w') :=
        fun hF => TcpConnectionState.tryWritePacket_of_le hC (hp hF).1 (hp hF).2 w
      rcases hr with rfl | ⟨err, rfl⟩ <;>
      · intro hF
        obtain ⟨sent, w', h⟩ := hstop hF
        cases he.symm.trans h

/-- A packet that the buffer has room for is accepted once enough has been sent. -/
theorem Progress.writePacketAsync (hC : C.WritesEncoding) {p : Packet}
    (hp : F → C.EncodesIfFits ∧ (C.encode p).length ≤ N) :
    Triple (Progress C stream F (d + 2 * (C.encode p).length) t)
      (TcpConnectionState.writePacketAsync C p : Io N _)
      (fun _ => Progress C stream F d { t with accepted := t.accepted ++ [p], drained := false })
      (fun _ _ => ¬ F) := by
  refine .get_bind fun s => ?_
  refine (Triple.loop_measure (I := Progress C stream F (d + 2 * (C.encode p).length) t)
    (fun w => w.script.length) (fun k => ?_) _).conseq (fun w h => ?_) (fun _ _ h => h)
      (fun _ _ h => h)
  · refine .bind (Progress.tryWritePacket hdec hS hC hp k) fun sent => ?_
    cases sent with
    | true => exact .pure _ fun _ h => h.2
    | false =>
      refine .bind (Q := fun _ w => Progress C stream F (d + 2 * (C.encode p).length) t w ∧
        w.script.length < k) (fun w hw => ?_) fun _ => .pure _ fun _ h => h
      refine (Progress.send hdec hS w).weaken (fun _ s h => ⟨h.1, ?_⟩) (fun _ _ h => h) w
        ⟨rfl, hw.2.1⟩
      rw [← hw.1]
      exact h.2.resolve_right hw.2.2
  · obtain ⟨rfl, hw⟩ := h
    exact ⟨hw, Nat.lt_succ_self _⟩

/-- A blocking read brings the rest of the stream nearer. -/
theorem Progress.receive (k : Nat) :
    Triple (fun w => Progress C stream F d t w ∧ w.recvBuffer.reaableData.length < N ∧
        (F → w.net.rx ≠ []) ∧ w.script.length = k)
      (TcpConnectionState.receive networkRead : Io N _)
      (fun _ w => Progress C stream F d t w ∧ w.script.length < k) (fun _ _ => ¬ F) := by
  intro w ⟨hw, hlt, hrx, hk⟩
  rcases TcpConnectionState.receive_networkRead_cases w with
    ⟨-, b, -, hi⟩ | ⟨bytes, ps, b, hb, hd, hnil, -, hread, he⟩
  · refine hi.stops (F := F) (fun hF => ?_) (fun hF _ _ => hF) w rfl
    have hsupplied := (hw.supplied hF).ready
    have hpos := List.length_pos_iff.mpr (hrx hF)
    exact TcpConnectionState.receive_of_ready hlt (hrx hF) (hw.supplied hF).clean (by omega)
  · obtain ⟨len, hread⟩ := hread hlt
    rw [he]
    refine ⟨⟨hw.linked.step hdec hS (.receive bytes hb hd) hw.linked.connection hw.linked.accepted
      hw.linked.returned hw.linked.pool hw.linked.lent hw.linked.drained, fun hF => ?_⟩, ?_⟩
    · have hsupplied := (hw.supplied hF).ready
      have hrest := List.length_pos_iff.mpr (hrx hF)
      obtain ⟨hclean, hready⟩ : Clean ps ∧ readies w.script = readies ps + 1 := by
        obtain ⟨_, _, h, hclean⟩ :=
          awaitRead_of_ready len (hrx hF) (hw.supplied hF).clean (Nat.lt_of_lt_of_le (by omega) hsupplied)
        cases hread.symm.trans h
        exact hclean
      have hne : bytes ≠ [] := fun h => by
        rcases hnil h with hfull | ⟨hrx', -⟩
        · exact absurd hfull (Nat.ne_of_lt hlt)
        · exact hrx hF hrx'
      have hpos := List.length_pos_iff.mpr hne
      have hle := congrArg List.length hb
      rw [List.length_take] at hle
      refine ⟨hclean, ?_⟩
      change 2 * w.sendBuffer.reaableData.length + (w.net.rx.drop bytes.length).length + d ≤ readies ps
      rw [List.length_drop]
      omega
    · change ps.length < k
      exact hk ▸ (awaitRead_length hread).1

section

variable (hnext : F → ∃ p rest, stream = t.returned ++ p :: rest ∧ (C.encode p).length ≤ N)
include hnext

theorem Progress.tryReadPacket (hlent : t.lent = false) (k : Nat) :
    Triple (fun w => Progress C stream F d t w ∧ w.script.length = k)
      (TcpConnectionState.tryReadPacket C : Io N _)
      (fun o w => match o with
        | some p => (∃ rest, stream = t.returned ++ p :: rest) ∧
            Progress C stream F d { t with returned := t.returned ++ [p], lent := true } w
        | none => Progress C stream F d t w ∧ w.recvBuffer.reaableData.length < N ∧
            (F → w.net.rx ≠ []) ∧ w.script.length = k)
      (fun _ _ => ¬ F) := by
  intro w ⟨hw, hk⟩
  have hm : w.mapped = none := by
    rw [← Option.not_isSome_iff_eq_none, hw.linked.lent, hlent]
    exact Bool.false_ne_true
  have hret : w.pipe.returned = t.returned := hw.linked.returned
  have hcases := hw.linked.incoming.decode_cases hdec hS hm
  rw [hret] at hcases
  rw [TcpConnectionState.tryReadPacket_exec, hm]
  simp only [Option.isSome_none, Bool.false_eq_true, if_false]
  rcases hcases with ⟨hd, hlt⟩ | ⟨p, rest, hp, -, hd⟩
  · -- the next packet of the stream has not arrived as a whole
    have hrx (hF : F) : w.recvBuffer.reaableData.length < N ∧ w.net.rx ≠ [] := by
      obtain ⟨p, rest, hp, hle⟩ := hnext hF
      have hlt : w.recvBuffer.reaableData.length < (C.encode p).length := hlt p rest hp
      refine ⟨Nat.lt_of_lt_of_le hlt hle, fun hnil => ?_⟩
      obtain ⟨rest', hrest', hbytes⟩ := hw.linked.incoming.rest
      rw [hret, hp] at hrest'
      cases List.append_cancel_left hrest'
      simp only [FramedPipe.unread, World.pipe, hm, hnil, Option.getD_none, List.drop_zero,
        List.append_nil, Framing.frames_cons] at hbytes
      have hlen := congrArg List.length hbytes
      rw [List.length_append] at hlen
      omega
    have hd : C.decodeSliceWithLen w.recvBuffer.reaableData = .ok none := hd
    rw [hd]
    by_cases hfull : w.recvBuffer.reaableData.length = N
    · simp only [hfull, if_true]
      exact fun hF => absurd hfull (Nat.ne_of_lt (hrx hF).1)
    · simp only [hfull, if_false]
      exact ⟨hw, Nat.lt_of_le_of_ne w.recvBuffer.length_reaableData_le hfull,
        fun hF => (hrx hF).2, hk⟩
  · have hd : C.decodeSliceWithLen w.recvBuffer.reaableData = .ok (some ((C.encode p).length, p)) := hd
    rw [hd]
    refine ⟨⟨rest, hp⟩, hw.linked.step hdec hS (.decode hm hd) hw.linked.connection
      hw.linked.accepted ?_ hw.linked.pool rfl hw.linked.drained,
      fun hF => (hw.supplied hF).of_eq rfl rfl rfl⟩
    change w.net.returned ++ [p] = t.returned ++ [p]
    rw [hw.linked.returned]

/-- A read returns the next packet of the stream. -/
theorem Progress.readPacket (hlent : t.lent = false) :
    Triple (Progress C stream F d t) (TcpConnectionState.readPacket C : Io N _)
      (fun p w => (∃ rest, stream = t.returned ++ p :: rest) ∧
        Progress C stream F d { t with returned := t.returned ++ [p], lent := true } w)
      (fun _ _ => ¬ F) := by
  refine .bind ((Progress.unwrapConnection (R := fun _ => True)).conseq (fun w h => ⟨h, trivial⟩)
    (fun _ _ h => h.1) (fun _ _ h => h)) fun _ => .get_bind fun s => ?_
  refine (Triple.loop_measure (I := Progress C stream F d t) (fun w => w.script.length)
    (fun k => ?_) _).conseq (fun w h => ?_) (fun _ _ h => h) (fun _ _ h => h)
  · refine .bind (Progress.tryReadPacket hdec hS hnext hlent k) fun o => ?_
    cases o with
    | some p => exact .pure _ fun _ h => h
    | none => exact .bind (Progress.receive hdec hS k) fun _ => .pure _ fun _ h => h
  · obtain ⟨rfl, hw⟩ := h
    exact ⟨hw, Nat.lt_succ_self _⟩

end

theorem Progress.dropPacket :
    Triple (Progress C stream F d t) (TcpConnectionState.dropPacket : Io N _)
      (fun _ => Progress C stream F d { t with lent := false }) (fun _ _ => ¬ F) := by
  intro w hw
  rw [TcpConnectionState.dropPacket_exec]
  cases hm : w.mapped with
  | none => exact ⟨{ hw.linked with lent := by rw [hm]; rfl }, hw.supplied⟩
  | some n =>
    have hle : n ≤ w.recvBuffer.reaableData.length := by
      have h := hw.linked.incoming.borrowed_le
      simpa only [World.pipe, hm, Option.getD_some] using h
    obtain ⟨b, hb, -⟩ := StackBuffer.addBytesRead_of_le hle
    simp only [hb]
    exact ⟨hw.linked.step hdec hS (.consume hm hb) hw.linked.connection hw.linked.accepted
      hw.linked.returned hw.linked.pool rfl hw.linked.drained,
      fun hF => (hw.supplied hF).of_eq rfl rfl rfl⟩

end

end EmbeddedMqttc
