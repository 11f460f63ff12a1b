import EmbeddedMqttc.ConnectionRun
import EmbeddedMqttc.WireFormat

/-!
# What leaves on a connection

On every run from the establishment of a connection, the bytes the transport has taken and the
pending bytes are the stream of the accepted packets (`outgoing_stream`). Whether a packet is
accepted depends on where the pending bytes lie in the buffer: with nothing pending, the trait
method accepts a packet that fits in the buffer only if it also fits behind the write position, or
if the write position is at the end (`tryWritePacket_drained_iff`). The wait for the connack starts
after a single write, which may have taken a part of the CONNECT packet (`connect_sent_iff`).
-/

namespace EmbeddedMqttc

variable {N : Nat} {C : Codec} {w w' : World N} {incoming : List UInt8} {closed : Bool}

/-! ## The stream of the accepted packets -/

/-- The result of a `try_write_packet`: a packet that is accepted is appended to the pending bytes,
and any other result leaves them as they are. Nothing is sent. -/
structure WriteResult (C : Codec) (w : World N) (p : Packet)
    (r : Except (Stop MqttError) Bool × World N) : Prop where
  sent : r.2.net.tx = w.net.tx
  accepted : r.1 = .ok true → r.2.net.accepted = w.net.accepted ++ [p] ∧
    r.2.sendBuffer.reaableData = w.sendBuffer.reaableData ++ C.encode p
  refused : r.1 ≠ .ok true → r.2.net.accepted = w.net.accepted ∧
    r.2.sendBuffer.reaableData = w.sendBuffer.reaableData

theorem WriteResult.of_accept {b : StackBuffer N}
    (hb : b.reaableData = w.sendBuffer.reaableData ++ C.encode p) :
    WriteResult C w p (.ok true, w.accept p b) where
  sent := rfl
  accepted _ := ⟨rfl, hb⟩
  refused h := absurd rfl h

theorem WriteResult.of_refuse {b : StackBuffer N} {r : Except (Stop MqttError) Bool}
    (hr : r ≠ .ok true) (hb : b.reaableData = w.sendBuffer.reaableData) :
    WriteResult C w p (r, w.withSend b) where
  sent := rfl
  accepted h := absurd h hr
  refused _ := ⟨rfl, hb⟩

theorem TcpConnectionState.writeResult (hC : C.WritesEncoding) (p : Packet) (w : World N) :
    WriteResult C w p ((TcpConnectionState.tryWritePacket C p).exec w) := by
  rcases TcpConnectionState.tryWritePacket_cases hC p w with ⟨b, hb, h⟩ | ⟨b, r, hb, hr, h⟩
  · rw [h]; exact .of_accept hb
  · rw [h]
    refine .of_refuse ?_ hb
    rintro rfl
    rcases hr with hr | hr | ⟨err, hr⟩ <;> cases hr

theorem ConnectionState.writeResult (hC : C.WritesEncoding) (p : Packet) (w : World N) :
    WriteResult C w p ((ConnectionState.tryWritePacket C p).exec w) := by
  rcases ConnectionState.tryWritePacket_cases hC p w with
    ⟨n, b, -, hb, h⟩ | ⟨err, b, r, -, hb, -, -, hr, h⟩
  · rw [h]; exact .of_accept hb
  · rw [h]
    refine .of_refuse ?_ hb
    rintro rfl
    rcases hr with ⟨-, hr⟩ | ⟨-, hr⟩ <;> cases hr

/-- On every run on a connection, the bytes the transport has taken followed by the pending bytes
are the encodings of the accepted packets, in the order in which they were accepted; and a call of
either `try_write_packet` adds the packet exactly if it answers `Ok(true)`. -/
theorem outgoing_stream (hC : C.WritesEncoding) {calls : List (Call × List Poll)}
    (h : OnConnection C incoming closed calls w) :
    w.net.tx ++ w.sendBuffer.reaableData = Framing.frames C.encode w.net.accepted ∧
      ∀ p, WriteResult C w p ((ConnectionState.tryWritePacket C p).exec w) ∧
        WriteResult C w p ((TcpConnectionState.tryWritePacket C p).exec w) := by
  refine ⟨?_, fun p => ⟨ConnectionState.writeResult hC p w, TcpConnectionState.writeResult hC p w⟩⟩
  exact h.pipe_invariant hC (I := FramedPipe.Outgoing C.encode) rfl fun _ _ hs hi => hi.step hs

/-! ## Refusals -/

/-- With nothing pending, the bytes that `writeable_data` offers. -/
theorem length_freeData_of_drained (h : w.sendBuffer.hasRemainingLen = false) :
    w.sendBuffer.writeableData.freeData.length =
      if w.sendBuffer.writePosition = N then N else N - w.sendBuffer.writePosition := by
  have hle := w.sendBuffer.read_le_write
  rw [StackBuffer.hasRemainingLen, decide_eq_false_iff_not] at h
  rw [StackBuffer.length_freeData, StackBuffer.writePosition_writeableData]
  split <;> omega

/-- What the trait method answers is decided by the length of the free space. -/
theorem tryWritePacket_ok_iff (hC : C.WritesEncoding) (hfits : C.EncodesIfFits) (p : Packet)
    (w : World N) : ((ConnectionState.tryWritePacket C p).exec w).1 = .ok true ↔
      (C.encode p).length ≤ w.sendBuffer.writeableData.freeData.length := by
  rcases ConnectionState.tryWritePacket_cases hC p w with
    ⟨n, b, hn, -, h⟩ | ⟨err, b, r, herr, -, -, -, hr, h⟩
  · rw [h]
    refine iff_of_true rfl (Nat.le_of_not_lt fun hlt => ?_)
    rw [hfits.short p _ hlt] at hn
    cases hn
  · rw [h]
    refine iff_of_false ?_ fun hle => ?_
    · rintro rfl
      rcases hr with ⟨-, hr⟩ | ⟨-, hr⟩ <;> cases hr
    · rw [hfits.fits p _ hle] at herr
      cases herr

/-- The states from which a packet of the given length is never written by the trait method:
nothing is pending, and the packet does not fit behind the write position. -/
structure Wedged (length : Nat) (w : World N) : Prop where
  drained : w.sendBuffer.hasRemainingLen = false
  ne : w.sendBuffer.writePosition ≠ N
  lt : N < w.sendBuffer.writePosition + length

/-- The steps other than those of a write of a packet. -/
def Unwritten (a : Act) : Prop := a ≠ .accept ∧ a ≠ .refuse

theorem Wedged.moves {length : Nat} (h : Moves C Unwritten w w') (hw : Wedged length w) :
    Wedged length w' := by
  have hsame (hs : w'.sendBuffer = w.sendBuffer) : Wedged length w' :=
    ⟨hs ▸ hw.drained, hs ▸ hw.ne, hs ▸ hw.lt⟩
  obtain ⟨a, ha, h⟩ := h
  cases h with
  | silent hs => exact hsame hs
  | receive | decode | consume => exact hsame rfl
  | transmit n hr => rw [hw.drained] at hr; cases hr
  | accept => exact absurd rfl ha.1
  | refuse => exact absurd rfl ha.2

/-- A refusal changes neither position, so the next call is refused as well. -/
theorem Wedged.refused (hC : C.WritesEncoding) (hfits : C.EncodesIfFits) {p : Packet}
    (hw : Wedged (C.encode p).length w) :
    ((ConnectionState.tryWritePacket C p).exec w).1 = .ok false ∧
      Wedged (C.encode p).length ((ConnectionState.tryWritePacket C p).exec w).2 := by
  have hlt : w.sendBuffer.writeableData.freeData.length < (C.encode p).length := by
    have := hw.lt
    have := w.sendBuffer.write_le
    rw [length_freeData_of_drained hw.drained, if_neg hw.ne]
    omega
  have hshort := hfits.short p _ hlt
  rcases ConnectionState.tryWritePacket_cases hC p w with
    ⟨n, b, hn, -⟩ | ⟨err, b, r, herr, hb, -, hpos, hr, h⟩
  · rw [hshort] at hn; cases hn
  · obtain rfl : err = .writeZero := by rw [hshort] at herr; exact (Except.error.inj herr).symm
    obtain ⟨-, rfl⟩ | ⟨hne, -⟩ := hr
    · have hflip : w.sendBuffer.writeableData = w.sendBuffer := if_neg hw.ne
      rw [hflip] at hpos
      have hdrained := StackBuffer.hasRemainingLen_eq_false_iff.mp hw.drained
      rw [h]
      refine ⟨rfl, ?_, hpos ▸ hw.ne, hpos ▸ hw.lt⟩
      exact StackBuffer.hasRemainingLen_eq_false_iff.mpr (hb.trans hdrained)
    · exact absurd rfl hne

/-- The calls that are made while a packet waits to be written. -/
def Call.Retries (p : Packet) : Call → Prop
  | .tryWritePacket q => q = p
  | .send | .sendAll | .sendReceive | .readPacket | .runIo | .runIoNonblocking | .dropPacket => True
  | _ => False

theorem Wedged.call (hC : C.WritesEncoding) (hfits : C.EncodesIfFits) {p : Packet} {c : Call}
    (hc : c.Retries p) (hw : Wedged (C.encode p).length w) :
    Wedged (C.encode p).length ((c.exec C).exec w).2 := by
  have hmoves {β : Type} {g : β → Answer} {m : Io N β}
      (hm : Prog.MovesAt (Moves C Unwritten) m w) :
      Wedged (C.encode p).length ((g <$> m : Io N Answer).exec w).2 :=
    hm.map.invariant (fun _ _ => Wedged.moves) hw
  have hA (a : Act) (ha : a ≠ .accept := by nofun) (hr : a ≠ .refuse := by nofun) : Unwritten a :=
    ⟨ha, hr⟩
  cases c with
  | tryWritePacket q =>
    obtain rfl : q = p := hc
    rw [Call.exec, Prog.exec_map]
    exact (hw.refused hC hfits).2
  | send => exact hmoves (TcpConnectionState.send_moves (hA _) (hA _) w)
  | sendAll => exact hmoves (TcpConnectionState.sendAll_moves (hA _) (hA _) w)
  | sendReceive => exact hmoves (TcpConnectionState.sendReceive_moves (hA _) (hA _) (hA _) w)
  | readPacket => exact hmoves (TcpConnectionState.readPacket_moves (hA _) (hA _) (hA _) w)
  | runIo => exact hmoves (ConnectionState.runIo_moves (hA _) (hA _) (hA _) (hA _) w)
  | runIoNonblocking =>
    exact hmoves (ConnectionState.runIoNonblocking_moves (hA _) (hA _) (hA _) (hA _) w)
  | dropPacket => exact hmoves (TcpConnectionState.dropPacket_moves (hA _) w)
  | _ => exact hc.elim

/-- A packet that is refused while nothing is pending is refused for ever. -/
theorem Wedged.run (hC : C.WritesEncoding) (hfits : C.EncodesIfFits) {p : Packet}
    {calls : List (Call × List Poll)} (hcalls : ∀ c ∈ calls, c.1.Retries p)
    (hrun : Run.run (Call.next C) w calls = some w') (hw : Wedged (C.encode p).length w) :
    Wedged (C.encode p).length w' := by
  induction calls generalizing w with
  | nil => cases hrun; exact hw
  | cons c calls ih =>
    obtain ⟨w₁, h₁, hrun⟩ := Run.run_cons_iff.mp hrun
    cases h₁
    refine ih (fun c hc => hcalls c (List.mem_cons_of_mem _ hc)) hrun ?_
    exact Wedged.call hC hfits (hcalls c List.mem_cons_self) ⟨hw.drained, hw.ne, hw.lt⟩

/-- With nothing pending, the trait method accepts a packet of at most `N` bytes if and only if the
write position is at the end of the buffer, which makes `writeable_data` move it to the front, or
the packet fits behind it. In all other states the packet is refused, now and after any further
output and input, although there is nothing left to send. -/
theorem tryWritePacket_drained_iff (hC : C.WritesEncoding) (hfits : C.EncodesIfFits)
    {calls : List (Call × List Poll)} (h : OnConnection C incoming closed calls w)
    (hdrained : w.sendBuffer.hasRemainingLen = false) {p : Packet} (hp : (C.encode p).length ≤ N) :
    (((ConnectionState.tryWritePacket C p).exec w).1 = .ok true ↔
      w.sendBuffer.writePosition = N ∨ w.sendBuffer.writePosition + (C.encode p).length ≤ N) ∧
    (¬ (w.sendBuffer.writePosition = N ∨ w.sendBuffer.writePosition + (C.encode p).length ≤ N) →
      ∀ calls' w', (∀ c ∈ calls', c.1.Retries p) → Run.run (Call.next C) w calls' = some w' →
        OnConnection C incoming closed (calls ++ calls') w' ∧
          ((ConnectionState.tryWritePacket C p).exec w').1 = .ok false) := by
  refine ⟨?_, fun hcond calls' w' hcalls hrun => ⟨?_, ?_⟩⟩
  · rw [tryWritePacket_ok_iff hC hfits, length_freeData_of_drained hdrained]
    have := w.sendBuffer.write_le
    split <;> omega
  · obtain ⟨w₀, w₁, config, hestablish, hrun₁⟩ := h
    exact ⟨w₀, w₁, config, hestablish, Run.run_append_iff.mpr ⟨w, hrun₁, hrun⟩⟩
  · have hw : Wedged (C.encode p).length w :=
      ⟨hdrained, fun h => hcond (.inl h), Nat.lt_of_not_le fun h => hcond (.inr h)⟩
    exact ((hw.run hC hfits hcalls hrun).refused hC hfits).1

/-! ### A connection that refuses its first publish -/

def sampleConfig : ClientConfig where
  host := .ip [127, 0, 0, 1]
  clientId := [65, 66]
  credentials := none
  autoSubscribes := .empty

def samplePublish : Packet :=
  .publish ⟨false, .atMostOnce, false, [116], [1, 2, 3]⟩

def connackBytes : List UInt8 := Framing.frames wire.encode [.connack ⟨false, .accepted⟩]

/-- The rest of a connect on which CONNECT is taken by one write and the connack is read at once. -/
def connectOnly : List (Call × List Poll) :=
  [(.connect sampleConfig none, [.ready 100, .ready 0, .ready 100])]

/-- A component whose buffers have 20 bytes after such a connect. CONNECT has 16 bytes. -/
def connected20 : World 20 :=
  Call.after wire ((ConnectionState.establish sampleConfig connackBytes false).exec
    (World.new [.ready 0])).2 connectOnly

theorem connected20_onConnection : OnConnection wire connackBytes false connectOnly connected20 :=
  .of_calls (by decide +kernel) _

theorem tryWritePacket_refused_on_connected20 :
    wire.WritesEncoding ∧ wire.EncodesIfFits ∧
      OnConnection wire connackBytes false connectOnly connected20 ∧
      connected20.inner = some .connected ∧ connected20.sendBuffer.hasRemainingLen = false ∧
      (wire.encode samplePublish).length = 8 ∧
      ((ConnectionState.tryWritePacket wire samplePublish).exec connected20).1 = .ok false :=
  ⟨Wire.writesEncoding, Wire.encodesIfFits, connected20_onConnection, by decide +kernel,
    by decide +kernel, by decide, by decide +kernel⟩

theorem tryWritePacket_drained_iff_on_connected20 :
    ((ConnectionState.tryWritePacket wire samplePublish).exec connected20).1 = .ok true ↔
      connected20.sendBuffer.writePosition = 20 ∨
        connected20.sendBuffer.writePosition + (wire.encode samplePublish).length ≤ 20 :=
  (tryWritePacket_drained_iff Wire.writesEncoding Wire.encodesIfFits connected20_onConnection
    (by decide +kernel) (by decide)).1

/-! ### A run with a short write, a refusal and a dropped call -/

/-- A packet of 14 bytes. -/
def longPublish : Packet :=
  .publish ⟨false, .atMostOnce, false, [116], [1, 2, 3, 4, 5, 6, 7, 8, 9]⟩

/-- The transport takes three of the eight bytes of a publish. Then the trait method refuses the
long publish, the inherent method makes room for a PINGREQ, and a `send` is dropped. -/
def shortWrite : List (Call × List Poll) := connectOnly ++
  [(.tryWritePacket samplePublish, []), (.send, [.ready 2, .ready 0]),
    (.tryWritePacket longPublish, []), (.tryWritePacketInherent .pingreq, []),
    (.send, [.pending])]

def shortWritten : World 32 :=
  Call.after wire ((ConnectionState.establish sampleConfig connackBytes false).exec
    (World.new [.ready 0])).2 shortWrite

theorem shortWritten_onConnection :
    OnConnection wire connackBytes false shortWrite shortWritten :=
  .of_calls (by decide +kernel) _

/-- Five bytes of the publish and the PINGREQ are pending, and the long publish has not been
accepted. Now it would be. -/
theorem outgoing_stream_of_shortWritten :
    shortWritten.net.tx ++ shortWritten.sendBuffer.reaableData =
        Framing.frames wire.encode shortWritten.net.accepted ∧
      WriteResult wire shortWritten longPublish
        ((ConnectionState.tryWritePacket wire longPublish).exec shortWritten) ∧
      ((ConnectionState.tryWritePacket wire longPublish).exec shortWritten).1 = .ok true ∧
      shortWritten.sendBuffer.reaableData = [1, 116, 1, 2, 3, 192, 0] ∧
      shortWritten.net.accepted = [TcpConnectionState.connectPacket sampleConfig none,
        samplePublish, .pingreq] :=
  have h := outgoing_stream Wire.writesEncoding shortWritten_onConnection
  ⟨h.1, (h.2 longPublish).1, by decide +kernel, by decide +kernel, by decide +kernel⟩

/-! ## Connect -/

theorem TcpConnectionState.tryWritePacket_ok_true (hC : C.WritesEncoding) {p : Packet}
    (h : (TcpConnectionState.tryWritePacket C p).exec w = (.ok true, w')) :
    ∃ b, b.reaableData = w.sendBuffer.reaableData ++ C.encode p ∧ w' = w.accept p b := by
  rcases TcpConnectionState.tryWritePacket_cases hC p w with ⟨b, hb, he⟩ | ⟨b, r, hb, hr, he⟩
  · rw [he] at h
    cases h
    exact ⟨b, hb, rfl⟩
  · rw [he] at h
    cases h
    rcases hr with hr | hr | ⟨err, hr⟩ <;> cases hr

/-- A `send` that returns has offered the pending bytes to one write. -/
theorem TcpConnectionState.send_ok (h : TcpConnectionState.send.exec w = (.ok (), w')) :
    (w.sendBuffer.reaableData = [] ∧ w' = w) ∨
      ∃ k ps, answers w.script = .ok k :: ps ∧
        w'.net.tx = w.net.tx ++ w.sendBuffer.reaableData.take
          (min (k + 1) w.sendBuffer.reaableData.length) := by
  rw [TcpConnectionState.send, Prog.exec_get_bind] at h
  split at h
  · obtain ⟨_, w₁, hunwrap, h₁⟩ := Prog.exec_bind_eq_ok h
    rw [unwrapConnection_exec] at hunwrap
    obtain rfl : w = w₁ := (Prod.mk.inj hunwrap).2
    obtain ⟨_, w₂, htransmit, h₂⟩ := Prog.exec_bind_eq_ok h₁
    rcases transmit_cases w with ⟨ps, -, ⟨hi, -⟩ | ⟨kind, hi, -⟩⟩ | ⟨k, ps, b, hk, -, -, -, he⟩
    · rw [hi] at htransmit; cases htransmit
    · rw [hi] at htransmit; cases htransmit
    · rw [he] at htransmit
      cases htransmit
      refine .inr ⟨k, _, nextAnswer_answers hk, ?_⟩
      rcases networkFlush_cases { (w.withScript ps).took _ with sendBuffer := b } with
        ⟨qs, -, ⟨hi, -⟩ | ⟨kind, hi, -⟩⟩ | ⟨_, qs, -, -, he⟩
      · rw [hi] at h₂; cases h₂
      · rw [hi] at h₂; cases h₂
      · rw [he] at h₂
        cases h₂
        rfl
  · rename_i hr
    cases h
    exact .inl ⟨StackBuffer.hasRemainingLen_eq_false_iff.mp ((Bool.not_eq_true _).mp hr), rfl⟩

theorem readPacket_sends_nothing (w : World N) :
    ((TcpConnectionState.readPacket C).exec w).2.net.tx = w.net.tx := by
  refine (TcpConnectionState.readPacket_moves (C := C) (A := (· ≠ .transmit)) nofun nofun nofun
    w).invariant (I := fun w' => w'.net.tx = w.net.tx) (fun s s' ⟨a, ha, h⟩ hs => ?_) rfl
  cases h with
  | silent _ _ _ hn => rw [hn]; exact hs
  | transmit => exact absurd rfl ha
  | receive | decode | consume | accept | refuse => exact hs

/-- When `connect` starts to wait for the connack, the transport has taken all of CONNECT if and
only if the answer to the one write before that took all of it; and waiting sends nothing. -/
theorem connect_sent_iff (hC : C.WritesEncoding) {w₀ : World N} {config : ClientConfig}
    {lastWill : Option LastWill}
    (h : (ConnectionState.connectUntilConnack C config lastWill incoming closed).exec w₀ =
      (.ok (), w)) :
    (w.net.tx = C.encode (TcpConnectionState.connectPacket config lastWill) ↔
      ∀ k, (answers w₀.script)[answersBeforeWrite config.host]? = some (.ok k) →
        (C.encode (TcpConnectionState.connectPacket config lastWill)).length ≤ k + 1) ∧
    ∀ script, ((TcpConnectionState.readPacket C).exec (w.withScript script)).2.net.tx =
      w.net.tx := by
  refine ⟨?_, fun script => readPacket_sends_nothing _⟩
  obtain ⟨_, w₁, hestablish, h₁⟩ := Prog.exec_bind_eq_ok h
  obtain ⟨hfresh, hanswers⟩ := establish_ok hestablish
  obtain ⟨sent, w₂, hwrite, h₂⟩ := Prog.exec_bind_eq_ok h₁
  obtain ⟨_, w₃, hensure, h₃⟩ := Prog.exec_bind_eq_ok h₂
  obtain ⟨rfl, rfl⟩ := Prog.exec_ensure_eq_ok hensure
  obtain ⟨b, hb, rfl⟩ := TcpConnectionState.tryWritePacket_ok_true hC hwrite
  rw [hfresh.sendBuffer, List.nil_append] at hb
  obtain ⟨_, w₄, hsend, h₄⟩ := Prog.exec_bind_eq_ok h₃
  cases h₄
  generalize C.encode (TcpConnectionState.connectPacket config lastWill) = bytes at hb ⊢
  rcases TcpConnectionState.send_ok hsend with ⟨hnil, rfl⟩ | ⟨k, ps, hk, htx⟩
  · obtain rfl : bytes = [] := hb.symm.trans hnil
    refine iff_of_true ?_ fun _ _ => Nat.zero_le _
    simp [World.accept, hfresh.net]
  · have hfirst : (answers w₀.script)[answersBeforeWrite config.host]? = some (.ok k) := by
      have hhead := congrArg (·[0]?) (hanswers.trans hk)
      simpa using hhead
    simp only [World.accept, hfresh.net, List.nil_append, hb] at htx
    simp only [hfirst, Option.some.injEq, Except.ok.injEq, forall_eq']
    rw [htx]
    constructor
    · intro h
      have hlen := congrArg List.length h
      rw [List.length_take] at hlen
      omega
    · intro h
      exact List.take_of_length_le (by omega)

/-- With a transport that takes five bytes at first, CONNECT is not sent when the wait begins. -/
theorem connect_waits_with_partial_connect :
    ((ConnectionState.connectUntilConnack wire sampleConfig none [] false).exec
        (World.new [.ready 0, .ready 4, .ready 0] : World 32)).1 = .ok () ∧
      ((ConnectionState.connectUntilConnack wire sampleConfig none [] false).exec
        (World.new [.ready 0, .ready 4, .ready 0] : World 32)).2.net.tx =
          (wire.encode (TcpConnectionState.connectPacket sampleConfig none)).take 5 ∧
      (wire.encode (TcpConnectionState.connectPacket sampleConfig none)).length = 16 := by
  decide +kernel

theorem connect_sent_iff_at_sample :
    ((ConnectionState.connectUntilConnack wire sampleConfig none [] false).exec
        (World.new [.ready 0, .ready 15, .ready 0] : World 32)).2.net.tx =
          wire.encode (TcpConnectionState.connectPacket sampleConfig none) :=
  (connect_sent_iff Wire.writesEncoding (Prod.ext (by decide +kernel) rfl)).1.mpr fun k hk => by
    obtain rfl : 15 = k := Except.ok.inj (Option.some.inj hk)
    decide

end EmbeddedMqttc
