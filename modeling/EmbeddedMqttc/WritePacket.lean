import EmbeddedMqttc.ConnectProgress
import EmbeddedMqttc.WireFormat

/-!
# Writing a packet

`write_packet_async` on a transport whose writes and flushes succeed: it tries to write the packet, and
while there is no room it sends some of the pending bytes. Every round but the last one makes the pending
bytes fewer, and once there are none the packet has the whole buffer.
-/

namespace EmbeddedMqttc

open Prog

variable {N : Nat} {C : Codec} {w w' : World N} {p : Packet} {stream : List UInt8}

/-- What the transport has taken and what is still pending. -/
def World.outgoing (w : World N) : List UInt8 := w.net.tx ++ w.sendBuffer.reaableData

/-- The transport takes at least one byte with each write. A write and a flush that succeed use up two
of its answers, which may be pending in between. -/
structure Writable (w : World N) : Prop where
  connection : w.connection = true
  clean : Clean w.script
  ready : 2 * w.sendBuffer.reaableData.length ≤ readies w.script

theorem Interrupted.not_ok {α : Type} {m : Io N α} {a : α} (h : Interrupted w (m.exec w)) :
    m.exec w ≠ (.ok a, w') := by
  intro hok
  obtain ⟨ps, -, ⟨hstop, -⟩ | ⟨kind, hstop, -⟩⟩ := h <;> cases hstop.symm.trans hok

namespace TcpConnectionState

/-- `send` sends at least one byte if there is one. -/
theorem send_writable (h : Writable w) (hpending : w.sendBuffer.reaableData ≠ []) :
    ∃ w', send.exec w = (.ok (), w') ∧ Writable w' ∧ w'.outgoing = w.outgoing ∧
      w'.sendBuffer.reaableData.length < w.sendBuffer.reaableData.length := by
  have hpos := List.length_pos_iff.mpr hpending
  have hready := h.ready
  obtain ⟨u, w₁, htransmit⟩ := transmit_of_ready h.clean (by omega)
  rcases transmit_cases w with hstop | ⟨k, ps, b, hk, -, hb, -, hwritten⟩
  · exact absurd htransmit hstop.not_ok
  cases htransmit.symm.trans hwritten
  obtain ⟨hclean, hps⟩ := nextAnswer_clean h.clean hk
  let written : World N := { (w.withScript ps).took (w.sendBuffer.reaableData.take
    (min (k + 1) w.sendBuffer.reaableData.length)) with sendBuffer := b }
  have hclean : Clean written.script := hclean
  have hps : readies w.script = readies written.script + 1 := hps
  obtain ⟨u, w₂, hflush⟩ := networkFlush_of_ready hclean (by omega)
  rcases networkFlush_cases written with hstop | ⟨j, qs, hj, -, hflushed⟩
  · exact absurd hflush hstop.not_ok
  cases hflush.symm.trans hflushed
  obtain ⟨hclean', hqs⟩ := nextAnswer_clean hclean hj
  have hlength : b.reaableData.length < w.sendBuffer.reaableData.length := by
    rw [hb, List.length_drop]
    omega
  refine ⟨written.withScript qs, ?_, ⟨h.connection, hclean', ?_⟩, ?_, hlength⟩
  · have hconnection : unwrapConnection.exec w = (.ok (), w) := by
      rw [unwrapConnection_exec, h.connection, if_pos rfl]
    rw [send, exec_get_bind, if_pos (StackBuffer.hasRemainingLen_iff.mpr hpending),
      exec_bind_ok hconnection, exec_bind_ok htransmit]
    exact hflush
  · change 2 * b.reaableData.length ≤ readies qs
    omega
  · change (w.net.tx ++ _) ++ b.reaableData = _
    rw [hb, List.append_assoc, List.take_append_drop]
    rfl

/-- The inherent `try_write_packet` accepts the packet if the buffer has room for it behind the pending
bytes, and fails if it has none without pending bytes. -/
theorem tryWritePacket_verdict (hC : C.WritesEncoding) (hfits : C.EncodesIfFits) (p : Packet)
    (w : World N) :
    (w.sendBuffer.reaableData.length + (C.encode p).length ≤ N ∧
      ∃ b, b.reaableData = w.sendBuffer.reaableData ++ C.encode p ∧
        (tryWritePacket C p).exec w = (.ok true, w.accept p b)) ∨
    (N < w.sendBuffer.reaableData.length + (C.encode p).length ∧
      ∃ b, b.reaableData = w.sendBuffer.reaableData ∧
        (tryWritePacket C p).exec w =
          (if w.sendBuffer.reaableData = [] then .error (.fail .bufferTooSmall) else .ok false,
            w.withSend b)) := by
  have hle := w.sendBuffer.length_reaableData_le
  have hposition := w.sendBuffer.writePosition_flip_writeableData
  have hfree : w.sendBuffer.flip.writeableData.freeData.length =
      N - w.sendBuffer.reaableData.length := by
    rw [StackBuffer.length_freeData, hposition]
  rcases Nat.lt_or_ge w.sendBuffer.flip.writeableData.freeData.length (C.encode p).length with
    hlt | hge
  · have hshort := hfits.short p _ hlt
    refine .inr ⟨by omega, w.sendBuffer.flip.writeableData.writeSlice
      (C.encodeSlice p w.sendBuffer.flip.writeableData.freeData).2, by simp, ?_⟩
    rw [tryWritePacket, exec_get_bind]
    simp only [exec_set_bind, hshort, StackBuffer.isMaxCapacity,
      StackBuffer.writePosition_writeSlice, hposition, beq_iff_eq, List.length_eq_zero_iff]
    split <;> rfl
  · have hok := hfits.fits p _ hge
    obtain ⟨b, hb, hdata, -⟩ := hC.commit hok
    refine .inl ⟨by omega, b, by simpa using hdata, ?_⟩
    rw [tryWritePacket, exec_get_bind]
    simp only [exec_set_bind, hok, hb]
    rfl

/-! ## The loop -/

/-- A round ends the loop, or it makes the pending bytes fewer. -/
theorem writePacketTurn_verdict (hC : C.WritesEncoding) (hfits : C.EncodesIfFits) (k : Nat) :
    Triple
      (fun w => (Writable w ∧ w.outgoing = stream) ∧ w.sendBuffer.reaableData.length = k)
      (writePacketTurn C p : Io N _)
      (fun o w => match o with
        | some _ => (C.encode p).length ≤ N ∧ w.outgoing = stream ++ C.encode p
        | none => (Writable w ∧ w.outgoing = stream) ∧ w.sendBuffer.reaableData.length < k)
      (fun x w => N < (C.encode p).length ∧ x = .fail .bufferTooSmall ∧ w.outgoing = stream) := by
  rintro w ⟨⟨hw, rfl⟩, rfl⟩
  rcases tryWritePacket_verdict hC hfits p w with ⟨hroom, b, hb, htry⟩ | ⟨hroom, b, hb, htry⟩
  · rw [writePacketTurn, exec_bind_ok htry]
    refine ⟨by omega, ?_⟩
    change w.net.tx ++ b.reaableData = _
    rw [hb, ← List.append_assoc]
    rfl
  · have hsame : (w.withSend b).outgoing = w.outgoing := by
      change w.net.tx ++ b.reaableData = _
      rw [hb]
      rfl
    have hwritable : Writable (w.withSend b) := by
      refine ⟨hw.connection, hw.clean, ?_⟩
      change 2 * b.reaableData.length ≤ _
      rw [hb]
      exact hw.ready
    by_cases hpending : w.sendBuffer.reaableData = []
    · rw [if_pos hpending] at htry
      rw [writePacketTurn, exec_bind_error htry]
      rw [hpending, List.length_nil, Nat.zero_add] at hroom
      exact ⟨hroom, rfl, hsame⟩
    · rw [if_neg hpending] at htry
      have hpending' : (w.withSend b).sendBuffer.reaableData ≠ [] := by
        change b.reaableData ≠ []
        rw [hb]
        exact hpending
      obtain ⟨w', hsend, hw', hout, hless⟩ := send_writable hwritable hpending'
      rw [writePacketTurn, exec_bind_ok htry]
      simp only [Bool.false_eq_true, if_false]
      rw [exec_bind_ok hsend]
      refine ⟨⟨hw', hout.trans hsame⟩, ?_⟩
      change _ < b.reaableData.length at hless
      rwa [hb] at hless

theorem writePacket_loop (hC : C.WritesEncoding) (hfits : C.EncodesIfFits) (hw : Writable w)
    {n : Nat} (hn : w.sendBuffer.reaableData.length < n) :
    ∃ r w', (Prog.loop n (writePacketTurn C p)).exec w = (r, w') ∧
      (((C.encode p).length ≤ N ∧ r = .ok () ∧ w'.outgoing = w.outgoing ++ C.encode p) ∨
        (N < (C.encode p).length ∧ r = .error (.fail .bufferTooSmall) ∧
          w'.outgoing = w.outgoing)) := by
  have hloop : Triple
      (fun w' => (Writable w' ∧ w'.outgoing = w.outgoing) ∧ w'.sendBuffer.reaableData.length < n)
      (Prog.loop n (writePacketTurn C p) : Io N _)
      (fun _ w' => (C.encode p).length ≤ N ∧ w'.outgoing = w.outgoing ++ C.encode p)
      (fun x w' => N < (C.encode p).length ∧ x = .fail .bufferTooSmall ∧ w'.outgoing = w.outgoing) := by
    refine Triple.loop_measure (fun w' : World N => w'.sendBuffer.reaableData.length) (fun k => ?_) n
    refine (writePacketTurn_verdict hC hfits k).weaken (fun o _ h => ?_) fun _ _ h => h
    cases o <;> exact h
  rcases hexec : (Prog.loop n (writePacketTurn C p)).exec w with ⟨x | u, w'⟩
  · obtain ⟨hlarge, rfl, hout⟩ := hloop.of_error ⟨⟨hw, rfl⟩, hn⟩ hexec
    exact ⟨_, _, rfl, .inr ⟨hlarge, rfl, hout⟩⟩
  · obtain ⟨hfit, hout⟩ := hloop.of_ok ⟨⟨hw, rfl⟩, hn⟩ hexec
    exact ⟨_, _, rfl, .inl ⟨hfit, rfl, hout⟩⟩

theorem readies_le_length (script : List Poll) : readies script ≤ script.length :=
  List.countP_le_length

/-- `write_packet_async` stops after no more rounds than there are pending bytes and one more. It returns
`Ok` if and only if the buffer is as long as the encoding, which then follows the pending bytes, and
`BufferTooSmall` otherwise, with nothing of the packet among the outgoing bytes. -/
theorem writePacketAsync_verdict (hC : C.WritesEncoding) (hfits : C.EncodesIfFits) (p : Packet)
    (hw : Writable w) :
    (writePacketAsync C p).exec w =
        (Prog.loop (w.sendBuffer.reaableData.length + 1) (writePacketTurn C p)).exec w ∧
      (((writePacketAsync C p).exec w).1 = .ok () ↔ (C.encode p).length ≤ N) ∧
      ((C.encode p).length ≤ N →
        ((writePacketAsync C p).exec w).2.outgoing = w.outgoing ++ C.encode p) ∧
      (N < (C.encode p).length →
        ((writePacketAsync C p).exec w).1 = .error (.fail .bufferTooSmall) ∧
        ((writePacketAsync C p).exec w).2.outgoing = w.outgoing) := by
  obtain ⟨r, w', hexec, hverdict⟩ :=
    writePacket_loop (p := p) hC hfits hw (Nat.lt_succ_self _)
  have hready := hw.ready
  have hpolls := readies_le_length w.script
  have hasync : (writePacketAsync C p).exec w = (r, w') := by
    rw [writePacketAsync, exec_get_bind]
    refine exec_loop_of_le (by omega) hexec ?_
    rcases hverdict with ⟨-, rfl, -⟩ | ⟨-, rfl, -⟩ <;> exact nofun
  rw [hasync, hexec]
  refine ⟨rfl, ?_⟩
  rcases hverdict with ⟨hfit, rfl, hout⟩ | ⟨hlarge, rfl, hout⟩
  · exact ⟨⟨fun _ => hfit, fun _ => rfl⟩, fun _ => hout, fun h => absurd hfit (Nat.not_le_of_lt h)⟩
  · refine ⟨⟨fun h => ?_, fun h => absurd h (Nat.not_le_of_lt hlarge)⟩,
      fun h => absurd h (Nat.not_le_of_lt hlarge), fun _ => ⟨rfl, hout⟩⟩
    cases h

/-- Six bytes are pending in a buffer of eight, and the transport takes four with its first write and
then two. -/
def pendingSix : World 8 :=
  { (World.new ([.ready 3, .ready 0, .pending, .ready 9] ++ List.replicate 9 (.ready 0)) : World 8) with
    connection := true
    sendBuffer := (StackBuffer.new.push [1, 2, 3, 4, 5, 6]).toOption.getD .new }

theorem writePacketAsync_verdict_on_pendingSix :
    ((writePacketAsync wire (.publish ⟨false, .atMostOnce, false, [116], [7, 8, 9]⟩)).exec
        pendingSix).2.outgoing =
      [1, 2, 3, 4, 5, 6] ++ [0x30, 6, 0, 1, 116, 7, 8, 9] := by
  have hw : Writable pendingSix := by
    refine ⟨rfl, fun kind hkind => ?_, by decide⟩
    simp [pendingSix, World.new] at hkind
  obtain ⟨-, -, hfit, -⟩ := writePacketAsync_verdict Wire.writesEncoding Wire.encodesIfFits
    (.publish ⟨false, .atMostOnce, false, [116], [7, 8, 9]⟩) hw
  exact hfit (by decide)

end TcpConnectionState

end EmbeddedMqttc
