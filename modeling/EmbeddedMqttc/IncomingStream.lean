import EmbeddedMqttc.OutgoingStream

/-!
# What arrives on a connection

However the incoming stream is cut into reads, the packets that are returned are an initial segment
of the packets of the stream, and no read fails on a stream whose packets fit in the buffer
(`incoming_stream`). But `run_io` reads from the transport before it looks at the bytes it has: a
packet that is already complete in the receive buffer is returned only after further bytes have
arrived (`runIo_strands`).
-/

namespace EmbeddedMqttc

variable {N : Nat} {C : Codec} {w w' : World N} {incoming : List UInt8} {closed : Bool}

/-! ## Stops of the transport -/

/-- A stop that is not an error of decoding. -/
def Harmless (x : Stop MqttError) : Prop :=
  x ≠ .fail .bufferTooSmall ∧ ∀ err, x ≠ .fail (.codecError err)

theorem Harmless.parked : Harmless .parked := ⟨nofun, nofun⟩

theorem Harmless.panic : Harmless .panic := ⟨nofun, nofun⟩

theorem Harmless.connectionFailed2 (kind : ErrorKind) :
    Harmless (.fail (.connectionFailed2 kind)) := ⟨nofun, nofun⟩

open Prog

theorem awaitAnswer_stops : StopsIn Harmless (awaitAnswer : Io N _) := by
  intro w _
  rw [awaitAnswer_exec]
  cases nextAnswer w.script with
  | none => exact .parked
  | some r => trivial

theorem networkWrite_stops (bytes : List UInt8) : StopsIn Harmless (networkWrite bytes : Io N _) := by
  refine .bind awaitAnswer_stops fun a => ?_
  cases a with
  | ok k => exact .bind (.modify _) fun _ => .pure _
  | error kind => exact .throw (.connectionFailed2 kind)

theorem networkFlush_stops : StopsIn Harmless (networkFlush : Io N _) := by
  refine .bind awaitAnswer_stops fun a => ?_
  cases a with
  | ok k => exact .pure _
  | error kind => exact .throw (.connectionFailed2 kind)

theorem finishRead_stops (r : Except ErrorKind (List UInt8)) :
    StopsIn Harmless (finishRead r : Io N _) := by
  cases r with
  | ok bytes => exact .bind (.modify _) fun _ => .pure _
  | error kind => exact .throw (.connectionFailed2 kind)

theorem networkRead_stops (len : Nat) : StopsIn Harmless (networkRead len : Io N _) := by
  unfold networkRead
  split
  · exact .pure _
  · refine .get_bind fun w => ?_
    cases w.net.awaitRead len w.script with
    | some r => exact .bind (.set _) fun _ => finishRead_stops r.1
    | none => exact .bind (.set _) fun _ => .throw .parked

theorem networkTryRead_stops (len : Nat) : StopsIn Harmless (networkTryRead len : Io N _) := by
  unfold networkTryRead
  split
  · exact .pure _
  · refine .get_bind fun w => ?_
    cases w.script with
    | nil => exact .pure _
    | cons p ps =>
      refine .bind (.set _) fun _ => ?_
      cases w.net.readAnswer len p with
      | some r => exact finishRead_stops r
      | none => exact .pure _

namespace TcpConnectionState

theorem borrowRecv_stops : StopsIn Harmless (borrowRecv : Io N _) :=
  .get_bind fun _ => .ensure _ .panic

theorem unwrapConnection_stops : StopsIn Harmless (unwrapConnection : Io N _) :=
  .get_bind fun _ => .ensure _ .panic

theorem transmit_stops : StopsIn Harmless (transmit : Io N _) := by
  refine .get_bind fun w => .bind (networkWrite_stops _) fun n => ?_
  exact .bind (.unwrap .panic _) fun b => .modify _

theorem receive_stops {read : Nat → Io N (List UInt8)} (h : ∀ len, StopsIn Harmless (read len)) :
    StopsIn Harmless (receive read) := by
  refine .bind (.modify _) fun _ => .get_bind fun w => .bind (h _) fun bytes => ?_
  exact .bind (.unwrap .panic _) fun b => .bind (.modify _) fun _ => .pure _

theorem send_stops : StopsIn Harmless (send : Io N _) := by
  refine .get_bind fun w => ?_
  split
  · refine .bind unwrapConnection_stops fun _ => .bind transmit_stops fun _ => ?_
    exact networkFlush_stops
  · exact .pure _

theorem sendReceive_stops : StopsIn Harmless (sendReceive : Io N _) := by
  refine .bind borrowRecv_stops fun _ => .bind (.modify _) fun _ => ?_
  refine .bind unwrapConnection_stops fun _ => .get_bind fun w => .bind (.loop ?_ .parked _) ?_
  · refine .get_bind fun w => ?_
    split
    · refine .bind transmit_stops fun _ => .bind networkFlush_stops fun _ => ?_
      exact .bind (receive_stops networkTryRead_stops) fun _ => .pure _
    · exact .pure _
  · intro early
    split
    · exact .bind (receive_stops networkRead_stops) fun _ => .pure _
    · exact .pure _

end TcpConnectionState

/-! ## The stream of the returned packets -/

/-- A state of a connection on which `stream` arrives and the packets `L` have been returned. -/
structure Arriving (C : Codec) (stream L : List Packet) (w : World N) : Prop where
  incoming : FramedPipe.Incoming C.encode stream w.pipe
  returned : w.net.returned = L

/-- Where a call that has not returned a packet may stop. -/
def Unread (L : List Packet) (x : Stop MqttError) (w : World N) : Prop :=
  Harmless x ∧ w.net.returned = L

section

variable {S : Packet → Prop} {stream L : List Packet}
variable (hdec : C.Decodes S) (hS : ∀ p ∈ stream, S p ∧ (C.encode p).length ≤ N)
include hdec hS

theorem Arriving.step {a : Act} (ha : a ≠ .decode) (h : Step C a w w')
    (hw : Arriving C stream L w) : Arriving C stream L w' := by
  refine ⟨?_, ?_⟩
  · rcases h.pipe with hp | hp
    · rw [hp]; exact hw.incoming
    · exact hw.incoming.step hdec (fun p hp => (hS p hp).1) hp
  · cases h with
    | silent _ _ _ hn => rw [hn]; exact hw.returned
    | decode => exact absurd rfl ha
    | transmit | receive | consume | accept | refuse => exact hw.returned

/-- A part of a call that does not decode keeps the state of the stream. -/
theorem Arriving.keeps {α : Type} {m : Io N α}
    (hm : ∀ w, MovesAt (Moves C (· ≠ .decode)) m w) (hstops : StopsIn Harmless m) :
    Triple (Arriving C stream L) m (fun _ => Arriving C stream L) (Unread L) := by
  have hkeep := Triple.of_movesAt (I := Arriving C stream L) hm
    fun s s' ⟨a, ha, h⟩ => Arriving.step hdec hS ha h
  have hstop : Triple (Arriving C stream L) m (fun _ _ => True) (fun x _ => Harmless x) :=
    hstops.conseq (fun _ _ => trivial) (fun _ _ _ => trivial) (fun _ _ h => h)
  exact (hkeep.and hstop).weaken (fun _ _ h => h.1)
    (fun _ _ h => ⟨h.2, h.1.returned⟩)

/-- Decoding returns the next packet of the stream or leaves everything as it is; it never takes a
part of a packet for an oversized one. -/
theorem Arriving.tryReadPacket (hN : 0 < N) :
    Triple (Arriving C stream L) (TcpConnectionState.tryReadPacket C : Io N _)
      (fun o w => match o with
        | some p => w.net.returned = L ++ [p]
        | none => Arriving C stream L w) (Unread L) := by
  intro w hw
  rw [TcpConnectionState.tryReadPacket_exec]
  cases hm : w.mapped with
  | some n => exact ⟨.panic, hw.returned⟩
  | none =>
    have hcases := hw.incoming.decode_cases hdec (fun p hp => (hS p hp).1) hm
    simp only [World.pipe] at hcases
    simp only [Option.isSome_none, Bool.false_eq_true, if_false]
    rcases hcases with ⟨hd, hlt⟩ | ⟨p, rest, -, -, hd⟩
    · have hlen : w.recvBuffer.reaableData.length ≠ N := by
        obtain ⟨rest, hrest, hbytes⟩ := hw.incoming.rest
        cases rest with
        | nil =>
          simp only [FramedPipe.unread, World.pipe, hm, Option.getD_none, List.drop_zero,
            Framing.frames_nil, List.append_eq_nil_iff] at hbytes
          rw [hbytes.1, List.length_nil]
          omega
        | cons p rest =>
          have := hlt p rest hrest
          have := (hS p (hrest ▸ List.mem_append_right _ List.mem_cons_self)).2
          omega
      rw [hd]
      simp only [hlen, if_false]
      exact hw
    · rw [hd]
      simp only [hw.returned]

theorem Arriving.readPacket (hN : 0 < N) :
    Triple (Arriving C stream L) (TcpConnectionState.readPacket C : Io N _)
      (fun p w => w.net.returned = L ++ [p]) (Unread L) := by
  refine .bind (Arriving.keeps hdec hS TcpConnectionState.unwrapConnection_moves
    TcpConnectionState.unwrapConnection_stops) fun _ => .get_bind fun w => ?_
  refine (Triple.loop (I := Arriving C stream L) ?_ (fun w hw => ⟨.parked, hw.returned⟩) _).conseq
    (fun w hw => hw.2) (fun _ _ h => h) (fun _ _ h => h)
  refine .bind (Arriving.tryReadPacket hdec hS hN) fun o => ?_
  cases o with
  | some p => exact .pure _ fun _ h => h
  | none =>
    refine .bind (Arriving.keeps hdec hS
      (TcpConnectionState.receive_moves nofun nofun (.inl rfl))
      (TcpConnectionState.receive_stops networkRead_stops)) fun _ => ?_
    exact .pure _ fun _ h => h

theorem Arriving.runIo (hN : 0 < N) :
    Triple (Arriving C stream L) (ConnectionState.runIo C : Io N _)
      (fun p w => w.net.returned = L ++ [p]) (Unread L) := by
  refine .get_bind fun w => .bind (Q := fun _ => Arriving C stream L) ?_ fun _ => ?_
  · exact (Arriving.keeps hdec hS (fun _ => .ensure _ _) (.ensure _ .panic)).conseq
      (fun _ h => h.2) (fun _ _ h => h) (fun _ _ h => h)
  refine Triple.loop (I := Arriving C stream L) ?_ (fun w hw => ⟨.parked, hw.returned⟩) _
  refine .bind (Arriving.keeps hdec hS (TcpConnectionState.sendReceive_moves nofun nofun nofun)
    TcpConnectionState.sendReceive_stops) fun _ => ?_
  exact (Arriving.tryReadPacket hdec hS hN (L := L)).weaken
    (fun o _ h => by cases o <;> exact h) (fun _ _ h => h)

theorem Arriving.runIoNonblocking (hN : 0 < N) :
    Triple (Arriving C stream L) (ConnectionState.runIoNonblocking C : Io N _)
      (fun o w => match o with
        | some p => w.net.returned = L ++ [p]
        | none => w.net.returned = L) (Unread L) := by
  refine .get_bind fun w => .bind (Q := fun _ => Arriving C stream L) ?_ fun _ => ?_
  · exact (Arriving.keeps hdec hS (fun _ => .ensure _ _) (.ensure _ .panic)).conseq
      (fun _ h => h.2) (fun _ _ h => h) (fun _ _ h => h)
  refine .bind (Arriving.keeps hdec hS (TcpConnectionState.send_moves nofun nofun)
    TcpConnectionState.send_stops) fun _ => ?_
  refine .bind (Arriving.keeps hdec hS TcpConnectionState.unwrapConnection_moves
    TcpConnectionState.unwrapConnection_stops) fun _ => ?_
  refine .bind (Arriving.keeps hdec hS TcpConnectionState.borrowRecv_moves
    TcpConnectionState.borrowRecv_stops) fun _ => ?_
  refine .bind (Arriving.keeps hdec hS (TcpConnectionState.receive_moves nofun nofun (.inr rfl))
    (TcpConnectionState.receive_stops networkTryRead_stops)) fun _ => ?_
  refine (Arriving.tryReadPacket hdec hS hN).weaken (fun o w h => ?_)
    (fun _ _ h => h)
  cases o with
  | some p => exact h
  | none => exact h.returned

end

/-- The result of a call that reads: no error of decoding, and a packet is returned exactly if the
history of the returned packets has grown by it. -/
structure ReadResult (w : World N) (r : Except (Stop MqttError) Answer × World N) : Prop where
  fits : r.1 ≠ .error (.fail .bufferTooSmall)
  decodes : ∀ err, r.1 ≠ .error (.fail (.codecError err))
  returned : (∃ p, r.1 = .ok (.read (some p)) ∧ r.2.net.returned = w.net.returned ++ [p]) ∨
    ((∀ p, r.1 ≠ .ok (.read (some p))) ∧ r.2.net.returned = w.net.returned)

theorem ReadResult.of_triple {α : Type} {m : Io N α} {g : α → Option Packet} {L : List Packet}
    {P : World N → Prop} (hL : w.net.returned = L)
    (h : Triple P m (fun a w => match g a with
      | some p => w.net.returned = L ++ [p]
      | none => w.net.returned = L) (Unread L)) (hw : P w) :
    ReadResult w (((fun a => Answer.read (g a)) <$> m : Io N Answer).exec w) := by
  subst hL
  rw [exec_map]
  rcases he : m.exec w with ⟨x | a, w'⟩
  · obtain ⟨⟨hfits, hdecodes⟩, hret⟩ := h.of_error hw he
    refine ⟨fun h => hfits (Except.error.inj h), fun err h => hdecodes err (Except.error.inj h), ?_⟩
    exact .inr ⟨nofun, hret⟩
  · have h := h.of_ok hw he
    refine ⟨nofun, nofun, ?_⟩
    cases hg : g a with
    | some p =>
      simp only [hg] at h
      exact .inl ⟨p, by simp [Except.map, hg], h⟩
    | none =>
      simp only [hg] at h
      exact .inr ⟨by simp [Except.map, hg], h⟩

/-- On a connection on which the encodings of `stream` arrive, each of them at most `N` bytes long,
the packets returned so far are an initial segment of `stream`, whatever calls have been made or
dropped; and every read returns the next packet, or none, and no error of decoding. -/
theorem incoming_stream (hC : C.WritesEncoding) {S : Packet → Prop} (hdec : C.Decodes S)
    (hN : 0 < N) {stream : List Packet} (hS : ∀ p ∈ stream, S p ∧ (C.encode p).length ≤ N)
    {calls : List (Call × List Poll)}
    (h : OnConnection C (Framing.frames C.encode stream) closed calls w) :
    (∃ rest, stream = w.net.returned ++ rest) ∧
      ∀ c : Call, c = .readPacket ∨ c = .runIo ∨ c = .runIoNonblocking →
        ∀ script, ReadResult (w.withScript script) ((c.exec C).exec (w.withScript script)) := by
  have hin : FramedPipe.Incoming C.encode stream w.pipe := by
    refine h.pipe_invariant hC (I := FramedPipe.Incoming C.encode stream) ?_ fun _ _ hs hi =>
      hi.step hdec (fun p hp => (hS p hp).1) hs
    exact ⟨Nat.le_refl _, stream, rfl, rfl⟩
  have hw (script : List Poll) :
      Arriving C stream w.net.returned (w.withScript script) := ⟨hin, rfl⟩
  obtain ⟨rest, hrest, -⟩ := hin.rest
  refine ⟨⟨rest, hrest⟩, ?_⟩
  rintro c (rfl | rfl | rfl) script
  · exact .of_triple (g := some) rfl (Arriving.readPacket hdec hS hN) (hw script)
  · exact .of_triple (g := some) rfl (Arriving.runIo hdec hS hN) (hw script)
  · exact .of_triple (g := id) rfl ((Arriving.runIoNonblocking hdec hS hN).weaken
      (fun o _ h => by cases o <;> exact h) (fun _ _ h => h)) (hw script)

/-! ## A packet that is complete in the buffer -/

/-- Between calls, a buffer that is full of unread bytes does not start with a packet: each read is
followed by a decoding in the same call. -/
structure Settled (C : Codec) (w : World N) : Prop where
  mapped_pos : ∀ n, w.mapped = some n → 0 < n
  undecoded : w.mapped = none → w.recvBuffer.reaableData.length = N →
    ∀ r, C.decodeSliceWithLen w.recvBuffer.reaableData ≠ .ok (some r)

theorem Settled.of_eq (hm : w'.mapped = w.mapped)
    (hr : w'.recvBuffer.reaableData = w.recvBuffer.reaableData) (hw : Settled C w) :
    Settled C w' :=
  ⟨hm ▸ hw.mapped_pos, hm ▸ hr ▸ hw.undecoded⟩

theorem Settled.of_lt (hm : ∀ n, w.mapped = some n → 0 < n)
    (hlt : w.recvBuffer.reaableData.length < N) : Settled C w :=
  ⟨hm, fun _ h => absurd h (Nat.ne_of_lt hlt)⟩

theorem Settled.step (hlen : C.LengthsInRange) {a : Act} (ha : a ≠ .receive) (h : Step C a w w')
    (hw : Settled C w) : Settled C w' := by
  cases h with
  | silent _ hr hm => exact hw.of_eq hm hr
  | transmit | accept | refuse => exact Settled.of_eq (w := w) rfl rfl hw
  | receive => exact absurd rfl ha
  | decode hm hd =>
    refine ⟨fun n hn => ?_, nofun⟩
    cases hn
    exact (hlen _ _ _ hd).1
  | consume hm hb =>
    obtain ⟨hn, hd⟩ := StackBuffer.addBytesRead_eq_ok hb
    refine .of_lt nofun ?_
    have := hw.mapped_pos _ hm
    have := w.recvBuffer.length_reaableData_le
    simp only [hd, List.length_drop]
    omega

section

variable (hlen : C.LengthsInRange)
include hlen

theorem Settled.keeps {α : Type} {m : Io N α} (hm : ∀ w, MovesAt (Moves C (· ≠ .receive)) m w) :
    Triple (Settled C) m (fun _ => Settled C) (fun _ => Settled C) :=
  .of_movesAt hm fun _ _ ⟨_, ha, h⟩ => Settled.step hlen ha h

/-- Decoding settles the buffer whatever has been read into it. -/
theorem Settled.tryReadPacket (n : Nat) :
    Triple (fun w => (∀ n, w.mapped = some n → 0 < n) ∧
        (w.script.length < n ∨ w.recvBuffer.reaableData.length = N))
      (TcpConnectionState.tryReadPacket C : Io N _)
      (fun o w => match o with
        | some _ => Settled C w
        | none => Settled C w ∧ w.recvBuffer.reaableData.length < N ∧ w.script.length < n)
      (fun _ => Settled C) := by
  intro w ⟨hpos, hn⟩
  rw [TcpConnectionState.tryReadPacket_exec]
  cases hm : w.mapped with
  | some k =>
    simp only [Option.isSome_some, if_true]
    exact ⟨hpos, fun h => by rw [hm] at h; cases h⟩
  | none =>
    simp only [Option.isSome_none, Bool.false_eq_true, if_false]
    have hsettled (h : ∀ r, C.decodeSliceWithLen w.recvBuffer.reaableData ≠ .ok (some r)) :
        Settled C w := ⟨hpos, fun _ _ => h⟩
    cases hd : C.decodeSliceWithLen w.recvBuffer.reaableData with
    | error err => exact hsettled (by rw [hd]; exact nofun)
    | ok o =>
      cases o with
      | some r =>
        refine ⟨fun k hk => ?_, nofun⟩
        cases hk
        exact (hlen _ _ _ hd).1
      | none =>
        have hs := hsettled (by rw [hd]; exact nofun)
        have hle := w.recvBuffer.length_reaableData_le
        by_cases hfull : w.recvBuffer.reaableData.length = N
        · simp only [hfull, if_true]
          exact hs
        · simp only [hfull, if_false]
          exact ⟨hs, by omega, by omega⟩

omit hlen in
/-- A blocking read into a buffer that is not full uses an answer. -/
theorem Settled.receive_networkRead (k : Nat) :
    Triple (fun w => Settled C w ∧ w.recvBuffer.reaableData.length < N ∧ w.script.length ≤ k)
      (TcpConnectionState.receive networkRead : Io N _)
      (fun _ w => (∀ n, w.mapped = some n → 0 < n) ∧ w.script.length < k)
      (fun _ => Settled C) := by
  intro w ⟨hw, hlt, hk⟩
  rcases TcpConnectionState.receive_networkRead_cases w with
    ⟨-, b, hb, ps, -, ⟨he, -⟩ | ⟨kind, he, -⟩⟩ | ⟨bytes, ps, b, -, -, -, -, hps, he⟩
  · rw [he]; exact Settled.of_eq (w := w) rfl hb hw
  · rw [he]; exact Settled.of_eq (w := w) rfl hb hw
  · obtain ⟨len, hread⟩ := hps hlt
    rw [he]
    exact ⟨hw.mapped_pos, Nat.lt_of_lt_of_le (awaitRead_length hread).1 hk⟩

omit hlen in
/-- A blocking read into a full buffer changes nothing. -/
theorem Settled.receive_networkRead_full :
    Triple (fun w => Settled C w ∧ w.recvBuffer.reaableData.length = N)
      (TcpConnectionState.receive networkRead : Io N _)
      (fun _ w => (∀ n, w.mapped = some n → 0 < n) ∧ w.recvBuffer.reaableData.length = N)
      (fun _ => Settled C) := by
  intro w ⟨hw, hfull⟩
  rcases TcpConnectionState.receive_networkRead_cases w with
    ⟨hlt, -⟩ | ⟨bytes, ps, b, -, hd, -, -, -, he⟩
  · exact absurd hfull (Nat.ne_of_lt hlt)
  · rw [he]
    refine ⟨hw.mapped_pos, Nat.le_antisymm b.length_reaableData_le ?_⟩
    change N ≤ b.reaableData.length
    rw [hd, List.length_append]
    omega

omit hlen in
theorem Settled.receive_networkTryRead (k : Nat) :
    Triple (fun w => Settled C w ∧ w.script.length < k)
      (TcpConnectionState.receive networkTryRead : Io N _)
      (fun bytesReceived w => (∀ n, w.mapped = some n → 0 < n) ∧ w.script.length < k ∧
        (bytesReceived = 0 → Settled C w))
      (fun _ => Settled C) := by
  intro w ⟨hw, hk⟩
  rcases TcpConnectionState.receive_networkTryRead_cases w with
    ⟨b, kind, ps, hb, -, he⟩ | ⟨bytes, ps, b, -, hd, hps, he⟩
  · rw [he]; exact Settled.of_eq (w := w) rfl hb hw
  · rw [he]
    have hps : ps.length ≤ w.script.length := by
      rcases hps with rfl | rfl
      · exact Nat.le_refl _
      · simp
    refine ⟨hw.mapped_pos, Nat.lt_of_le_of_lt hps hk, fun h => ?_⟩
    rw [List.eq_nil_of_length_eq_zero h, List.append_nil] at hd
    exact Settled.of_eq (w := w) rfl hd hw

omit hlen in
theorem Settled.transmit (k : Nat) :
    Triple (fun w => Settled C w ∧ w.script.length ≤ k) (TcpConnectionState.transmit : Io N _)
      (fun _ w => Settled C w ∧ w.script.length < k) (fun _ => Settled C) := by
  intro w ⟨hw, hk⟩
  rcases TcpConnectionState.transmit_cases w with
    ⟨ps, -, ⟨he, -⟩ | ⟨kind, he, -⟩⟩ | ⟨n, ps, b, -, hps, -, -, he⟩
  · rw [he]; exact Settled.of_eq (w := w) rfl rfl hw
  · rw [he]; exact Settled.of_eq (w := w) rfl rfl hw
  · rw [he]; exact ⟨Settled.of_eq (w := w) rfl rfl hw, Nat.lt_of_lt_of_le hps hk⟩

omit hlen in
theorem Settled.networkFlush (k : Nat) :
    Triple (fun w => Settled C w ∧ w.script.length < k) (networkFlush : Io N _)
      (fun _ w => Settled C w ∧ w.script.length < k) (fun _ => Settled C) := by
  intro w ⟨hw, hk⟩
  rcases networkFlush_cases w with ⟨ps, -, ⟨he, -⟩ | ⟨kind, he, -⟩⟩ | ⟨n, ps, -, hps, he⟩
  · rw [he]; exact Settled.of_eq (w := w) rfl rfl hw
  · rw [he]; exact Settled.of_eq (w := w) rfl rfl hw
  · rw [he]; exact ⟨Settled.of_eq (w := w) rfl rfl hw, Nat.lt_trans hps hk⟩

theorem Settled.readPacket :
    Triple (Settled C) (TcpConnectionState.readPacket C : Io N _) (fun _ => Settled C)
      (fun _ => Settled C) := by
  refine .bind (Settled.keeps hlen TcpConnectionState.unwrapConnection_moves) fun _ =>
    .get_bind fun w => ?_
  refine (Triple.loop_measure (I := fun w => ∀ n, w.mapped = some n → 0 < n)
    (fun w => w.script.length) (fun k => ?_) _).conseq (fun s hs => ⟨hs.2.mapped_pos, ?_⟩)
      (fun _ _ h => h) (fun _ _ h => h)
  · refine .bind ((Settled.tryReadPacket hlen (k + 1)).conseq
      (fun s hs => ⟨hs.1, .inl (Nat.lt_succ_of_le hs.2.le)⟩) (fun _ _ h => h) (fun _ _ h => h))
      fun o => ?_
    cases o with
    | some p => exact .pure _ fun _ h => h
    | none =>
      refine .bind ((Settled.receive_networkRead k).conseq
        (fun s hs => ⟨hs.1, hs.2.1, Nat.le_of_lt_succ hs.2.2⟩) (fun _ _ h => h) (fun _ _ h => h))
        fun _ => .pure _ fun _ h => h
  · obtain rfl := hs.1
    exact Nat.lt_succ_self _

omit hlen in
theorem Settled.sendReceiveTurn (k : Nat) :
    Triple (fun w => Settled C w ∧ w.script.length ≤ k)
      (TcpConnectionState.sendReceiveTurn : Io N _)
      (fun o w => match o with
        | some true => (∀ n, w.mapped = some n → 0 < n) ∧ w.script.length < k
        | some false => Settled C w ∧ w.script.length ≤ k
        | none => Settled C w ∧ w.script.length < k)
      (fun _ => Settled C) := by
  refine .get_bind fun t => ?_
  split
  · refine .bind ((Settled.transmit k).conseq (fun _ h => h.2) (fun _ _ h => h) (fun _ _ h => h))
      fun _ => .bind (Settled.networkFlush k) fun _ => ?_
    refine .bind (Settled.receive_networkTryRead k) fun bytesReceived => .pure _ fun w h => ?_
    by_cases hpos : 0 < bytesReceived
    · simp only [hpos, if_true]
      exact ⟨h.1, h.2.1⟩
    · simp only [hpos, if_false]
      exact ⟨h.2.2 (by omega), h.2.1⟩
  · exact .pure _ fun w h => h.2

omit hlen in
/-- A `send_receive` that returns has used an answer or has found the buffer full; one that stops
before has read nothing. -/
theorem Settled.sendReceive (k : Nat) :
    Triple (fun w => Settled C w ∧ w.script.length ≤ k) (TcpConnectionState.sendReceive : Io N _)
      (fun _ w => (∀ n, w.mapped = some n → 0 < n) ∧
        (w.script.length < k ∨ w.recvBuffer.reaableData.length = N))
      (fun _ => Settled C) := by
  refine .bind (TcpConnectionState.borrowRecv_triple.weaken (fun _ _ h => h)
    (fun _ _ h => h.1)) fun _ => ?_
  refine .bind (Q := fun _ w => Settled C w ∧ w.script.length ≤ k)
    (.modify _ fun w hw => ⟨Settled.of_eq (w := w) rfl StackBuffer.reaableData_flip hw.1, hw.2⟩)
    fun _ => ?_
  refine .bind (TcpConnectionState.unwrapConnection_triple.weaken (fun _ _ h => h)
    (fun _ _ h => h.1)) fun _ => .get_bind fun t => ?_
  refine .bind (Q := fun early w => match early with
    | true => (∀ n, w.mapped = some n → 0 < n) ∧ w.script.length < k
    | false => Settled C w ∧ w.script.length ≤ k) ?_ fun early => ?_
  · refine (Triple.loop_measure (I := fun w => Settled C w ∧ w.script.length ≤ k)
      (fun w => w.script.length) (fun j s hs => ?_) _).conseq
        (fun s hs => ⟨hs.2, Nat.lt_succ_of_le (hs.1 ▸ Nat.le_refl _)⟩) (fun _ _ h => h)
        (fun _ _ h => h)
    have hj : j ≤ k := hs.2 ▸ hs.1.2
    refine (Settled.sendReceiveTurn j).weaken (fun o w h => ?_) (fun _ _ h => h) s ⟨hs.1.1, hs.2.le⟩
    match o with
    | some true => exact ⟨h.1, Nat.lt_of_lt_of_le h.2 hj⟩
    | some false => exact ⟨h.1, Nat.le_trans h.2 hj⟩
    | none => exact ⟨⟨h.1, Nat.le_trans h.2.le hj⟩, h.2⟩
  · cases early with
    | true => exact .pure _ fun w h => ⟨h.1, .inl h.2⟩
    | false =>
      refine .bind (Q := fun _ w => (∀ n, w.mapped = some n → 0 < n) ∧
        (w.script.length < k ∨ w.recvBuffer.reaableData.length = N)) (fun s hs => ?_)
        fun _ => .pure _ fun _ h => h
      rcases Nat.lt_or_ge s.recvBuffer.reaableData.length N with hlt | hge
      · exact (Settled.receive_networkRead k).weaken
          (fun _ _ h => ⟨h.1, .inl h.2⟩) (fun _ _ h => h) s ⟨hs.1, hlt, hs.2⟩
      · exact Settled.receive_networkRead_full.weaken
          (fun _ _ h => ⟨h.1, .inr h.2⟩) (fun _ _ h => h) s
          ⟨hs.1, Nat.le_antisymm s.recvBuffer.length_reaableData_le hge⟩

theorem Settled.runIo :
    Triple (Settled C) (ConnectionState.runIo C : Io N _) (fun _ => Settled C)
      (fun _ => Settled C) := by
  refine .get_bind fun t => .bind (Q := fun _ w => Settled C w ∧ w.script.length < t.script.length + 1)
    ?_ fun _ => ?_
  · intro s ⟨hs, hw⟩
    subst hs
    rw [exec_ensure]
    split <;> simp_all
  refine Triple.loop_measure (I := Settled C) (fun w => w.script.length) (fun k => ?_) _
  refine .bind ((Settled.sendReceive k).conseq (fun s hs => ⟨hs.1, hs.2.le⟩) (fun _ _ h => h)
    (fun _ _ h => h)) fun _ => ?_
  refine (Settled.tryReadPacket hlen k).weaken (fun o w h => ?_) (fun _ _ h => h)
  cases o with
  | some p => exact h
  | none => exact ⟨h.1, h.2.2⟩

theorem Settled.runIoNonblocking :
    Triple (Settled C) (ConnectionState.runIoNonblocking C : Io N _) (fun _ => Settled C)
      (fun _ => Settled C) := by
  refine .get_bind fun t => .bind (Q := fun _ => Settled C) ?_ fun _ => ?_
  · intro s ⟨hs, hw⟩
    rw [exec_ensure]
    split <;> simp_all
  refine .bind (Settled.keeps hlen (TcpConnectionState.send_moves nofun nofun)) fun _ => ?_
  refine .bind TcpConnectionState.unwrapConnection_triple fun _ => ?_
  refine .bind TcpConnectionState.borrowRecv_triple fun _ s hs => ?_
  refine Triple.bind (Settled.receive_networkTryRead (s.script.length + 1)) (fun _ => ?_) s
    ⟨hs, Nat.lt_succ_self _⟩
  refine (Settled.tryReadPacket hlen (s.script.length + 1)).conseq (fun w h => ⟨h.1, .inl h.2.1⟩)
    (fun o w h => ?_) (fun _ _ h => h)
  cases o with
  | some p => exact h
  | none => exact h.1

theorem Settled.covers : Covers C (N := N) (fun w w' => Settled C w → Settled C w') where
  calm _ _ := fun ⟨_, ha, h⟩ hw => Settled.step hlen ha.1 h hw
  read := MovesAt.of_triple (Settled.readPacket hlen)

end

/-- Nothing more arrives, and the buffer is not full. -/
structure Starved (w : World N) : Prop where
  rx : w.net.rx = []
  closed : w.net.closed = false
  lt : w.recvBuffer.reaableData.length < N

theorem Starved.step {a : Act} (h : Step C a w w') (hw : Starved w) : Starved w' := by
  cases h with
  | silent _ hr _ hn => exact ⟨hn ▸ hw.rx, hn ▸ hw.closed, hr ▸ hw.lt⟩
  | transmit | decode | accept | refuse => exact ⟨hw.rx, hw.closed, hw.lt⟩
  | receive bytes hb hd =>
    rw [hw.rx, List.take_nil] at hb
    rw [hb, List.append_nil] at hd
    refine ⟨?_, hw.closed, ?_⟩
    · change w.net.rx.drop _ = []
      rw [hw.rx, List.drop_nil]
    · exact Nat.lt_of_le_of_lt (Nat.le_of_eq (congrArg List.length hd)) hw.lt
  | consume hm hb =>
    obtain ⟨-, hd⟩ := StackBuffer.addBytesRead_eq_ok hb
    refine ⟨hw.rx, hw.closed, ?_⟩
    have := hw.lt
    simp only [hd, List.length_drop]
    omega

theorem Starved.keeps {α : Type} {m : Io N α} (hm : ∀ w, MovesAt (Moves C fun _ => True) m w) :
    Triple Starved m (fun _ => Starved) (fun _ _ => True) :=
  (Triple.of_movesAt hm fun _ _ ⟨_, _, h⟩ => Starved.step h).weaken (fun _ _ h => h)
    (fun _ _ _ => trivial)

theorem Starved.receive_networkTryRead (C : Codec) :
    Triple Starved (TcpConnectionState.receive networkTryRead : Io N _)
      (fun bytesReceived w => bytesReceived = 0 ∧ Starved w) (fun _ _ => True) := by
  intro w hw
  have hkeep := Starved.keeps (C := C) (TcpConnectionState.receive_moves trivial trivial (.inr rfl)) w hw
  rcases TcpConnectionState.receive_networkTryRead_cases w with
    ⟨b, kind, ps, -, -, he⟩ | ⟨bytes, ps, b, hb, -, -, he⟩
  · rw [he]; trivial
  · rw [he] at hkeep ⊢
    refine ⟨?_, hkeep⟩
    rw [hw.rx, List.take_nil] at hb
    rw [hb, List.length_nil]

theorem Starved.receive_networkRead :
    Triple Starved (TcpConnectionState.receive networkRead : Io N _) (fun _ _ => False)
      (fun _ _ => True) := by
  intro w hw
  rcases TcpConnectionState.receive_networkRead_cases w with
    ⟨-, b, -, ps, -, ⟨he, -⟩ | ⟨kind, he, -⟩⟩ | ⟨bytes, ps, b, hb, -, hnil, -, -, -⟩
  · rw [he]; trivial
  · rw [he]; trivial
  · rw [hw.rx, List.take_nil] at hb
    rcases hnil hb with hfull | ⟨-, hclosed⟩
    · exact absurd hfull (Nat.ne_of_lt hw.lt)
    · rw [hw.closed] at hclosed; cases hclosed

/-- A `send_receive` to which nothing arrives does not return. -/
theorem Starved.sendReceive (C : Codec) :
    Triple Starved (TcpConnectionState.sendReceive : Io N _) (fun _ _ => False)
      (fun _ _ => True) := by
  refine .bind (Starved.keeps (C := C) TcpConnectionState.borrowRecv_moves) fun _ => ?_
  refine .bind (Q := fun _ => Starved) (.modify _ fun w hw => ?_) fun _ => ?_
  · exact ⟨hw.rx, hw.closed, by simpa using hw.lt⟩
  refine .bind (Starved.keeps (C := C) TcpConnectionState.unwrapConnection_moves) fun _ =>
    .get_bind fun t => ?_
  refine .bind (Q := fun early w => early = false ∧ Starved w) ?_ fun early => ?_
  · refine (Triple.loop (I := Starved) (.get_bind fun t => ?_) (fun _ _ => trivial) _).conseq
      (fun _ h => h.2) (fun _ _ h => h) (fun _ _ h => h)
    split
    · rename_i hr
      refine .bind (Q := fun _ => Starved) (fun s ⟨hs, hw⟩ => ?_) fun _ => ?_
      · subst hs
        have hkeep := (TcpConnectionState.transmit_moves (C := C) (A := fun _ => True) trivial trivial
          hr).invariant (fun _ _ ⟨_, _, h⟩ => Starved.step h) hw
        split <;> simp_all
      refine .bind (Starved.keeps (C := C) (networkFlush_moves trivial)) fun _ => ?_
      refine .bind (Starved.receive_networkTryRead C) fun bytesReceived => .pure _ fun w h => ?_
      obtain ⟨rfl, hw⟩ := h
      exact hw
    · exact .pure _ fun w h => ⟨rfl, h.2⟩
  · intro w ⟨hearly, hw⟩
    subst hearly
    exact Triple.bind (Starved.receive_networkRead) (fun _ => .pure _ fun _ h => h) w hw

theorem Starved.runIo :
    Triple Starved (ConnectionState.runIo C : Io N _) (fun _ _ => False) (fun _ _ => True) := by
  refine .get_bind fun t => .bind (Q := fun _ => Starved) ?_ fun _ => ?_
  · exact (Starved.keeps (C := C) fun _ => .ensure _ _).conseq (fun _ h => h.2) (fun _ _ h => h)
      (fun _ _ h => h)
  refine (Triple.loop (I := Starved) ?_ (fun _ _ => trivial) _)
  exact .bind (Q := fun _ _ => False) (Starved.sendReceive C) fun _ _ h => h.elim

/-- The world in which the transport delivers nothing more, with another send buffer. -/
def World.starve (w : World N) (sendBuffer : StackBuffer N) : World N :=
  { w with
    sendBuffer
    net := { w.net with rx := [], closed := false } }

/-- While a packet reference is held, `run_io` does not return. -/
theorem runIo_of_mapped :
    Triple (fun w => w.mapped ≠ none) (ConnectionState.runIo C : Io N _) (fun _ _ => False)
      (fun _ _ => True) := by
  have hborrow : Triple (fun w => w.mapped ≠ none) (TcpConnectionState.borrowRecv : Io N _)
      (fun _ _ => False) (fun _ _ => True) := by
    intro w hw
    rw [TcpConnectionState.borrowRecv_exec, if_neg hw]
    trivial
  refine .get_bind fun t => .bind (Q := fun _ w => w.mapped ≠ none) ?_ fun _ => ?_
  · intro w ⟨_, hw⟩
    rw [exec_ensure]
    split <;> simp_all
  refine (Triple.loop (I := fun w : World N => w.mapped ≠ none) ?_ (fun _ _ => trivial) _)
  refine .bind (Q := fun _ _ => False) ?_ fun _ _ h => h.elim
  exact .bind hborrow fun _ _ h => h.elim

theorem OnConnection.settled (hC : C.WritesEncoding) (hlen : C.LengthsInRange)
    {calls : List (Call × List Poll)} (hcalls : ∀ c ∈ calls, c.1 ≠ .sendReceive)
    (h : OnConnection C incoming closed calls w) : Settled C w := by
  obtain ⟨w₀, w₁, config, hestablish, hrun⟩ := h
  have hfresh := (establish_ok hestablish).1
  refine Run.AllSteps.invariant (G := fun _ c => c.1 ≠ .sendReceive) (fun w c w' hw hc hnext => ?_) ?_
    (.of_forall fun c hc _ => hcalls c hc) hrun
  · cases hnext
    refine (Call.moves hC (Settled.covers hlen) hc (MovesAt.of_triple (Settled.runIo hlen))
      (MovesAt.of_triple (Settled.runIoNonblocking hlen)) (w.withScript c.2)).invariant
        (fun _ _ h => h) ?_
    exact Settled.of_eq (w := w) rfl rfl hw
  · refine ⟨fun n hn => ?_, fun _ _ r hr => ?_⟩
    · rw [hfresh.mapped] at hn; cases hn
    · have := hlen _ _ _ hr
      rw [hfresh.recvBuffer, List.length_nil] at this
      omega

/-- In every state that is reached by calls, a complete packet at the front of the unread bytes is
not returned by `run_io` for as long as nothing more arrives. (`send_receive` is called by `run_io`
only.) -/
theorem runIo_strands (hC : C.WritesEncoding) (hlen : C.LengthsInRange)
    {calls : List (Call × List Poll)} (hcalls : ∀ c ∈ calls, c.1 ≠ .sendReceive)
    (h : OnConnection C incoming closed calls w) {r : Nat × Packet}
    (hr : C.decodeSliceWithLen w.recvBuffer.reaableData = .ok (some r))
    (sendBuffer : StackBuffer N) (script : List Poll) (p : Packet) :
    ((ConnectionState.runIo C).exec ((w.starve sendBuffer).withScript script)).1 ≠ .ok p := by
  intro hp
  cases hm : w.mapped with
  | some n =>
    have hmapped : ((w.starve sendBuffer).withScript script).mapped ≠ none := by
      change w.mapped ≠ none
      rw [hm]; exact nofun
    exact runIo_of_mapped.of_ok hmapped (Prod.ext hp rfl)
  | none =>
    have hlt : w.recvBuffer.reaableData.length < N := by
      refine Nat.lt_of_le_of_ne w.recvBuffer.length_reaableData_le fun hfull => ?_
      exact (h.settled hC hlen hcalls).undecoded hm hfull r hr
    have hstarved : Starved ((w.starve sendBuffer).withScript script) := ⟨rfl, rfl, hlt⟩
    exact Starved.runIo.of_ok hstarved (Prod.ext hp rfl)

/-! ### Two packets in one read -/

def sampleStream : List Packet := [.connack ⟨false, .accepted⟩, .pingresp]

/-- A component whose connect has read the connack and a pingresp at once. -/
def connected32 : World 32 :=
  Call.after wire ((ConnectionState.establish sampleConfig
    (Framing.frames wire.encode sampleStream) false).exec (World.new [.ready 0])).2 connectOnly

theorem connected32_onConnection :
    OnConnection wire (Framing.frames wire.encode sampleStream) false connectOnly connected32 :=
  .of_calls (by decide +kernel) _

theorem connected32_decodes :
    wire.decodeSliceWithLen connected32.recvBuffer.reaableData = .ok (some (2, .pingresp)) := by
  decide +kernel

theorem runIo_waits_on_connected32 :
    OnConnection wire (Framing.frames wire.encode sampleStream) false connectOnly connected32 ∧
      connected32.inner = some .connected ∧ connected32.mapped = none ∧
      wire.decodeSliceWithLen connected32.recvBuffer.reaableData = .ok (some (2, .pingresp)) ∧
      ((ConnectionState.runIo wire).exec (connected32.withScript [.ready 9, .ready 9])).1 =
        .error .parked :=
  ⟨connected32_onConnection, by decide +kernel, by decide +kernel, connected32_decodes,
    by decide +kernel⟩

theorem runIo_strands_on_connected32 :
    ((ConnectionState.runIo wire).exec
      ((connected32.starve connected32.sendBuffer).withScript [.ready 9, .ready 9])).1 ≠
        .ok .pingresp :=
  runIo_strands Wire.writesEncoding Wire.lengthsInRange (by decide) connected32_onConnection
    connected32_decodes _ _ _

theorem incoming_stream_of_connected32 :
    (∃ rest, sampleStream = connected32.net.returned ++ rest) ∧
      ReadResult (connected32.withScript [])
        ((Call.runIoNonblocking.exec wire).exec (connected32.withScript [])) := by
  obtain ⟨hinitial, hread⟩ := incoming_stream Wire.writesEncoding Wire.decodes (by decide)
    (by decide) connected32_onConnection
  exact ⟨hinitial, hread _ (.inr (.inr rfl)) []⟩

end EmbeddedMqttc
