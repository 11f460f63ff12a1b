import EmbeddedMqttc.ConnectionSpec
import EmbeddedMqttc.Library.FramedPipe
import EmbeddedMqttc.Library.Run

/-!
# Runs on one connection

A run is a sequence of calls of the connection's functions, each with the answers its polls get; a
call that still waits when its answers are used up is dropped. Every call refines the framed pipe:
whatever it does to the buffers, the queue of pending bytes, the queue of unread bytes and the
transport only make steps of `FramedPipe.Step` (`Call.steps`, `Step.pipe`).
-/

namespace EmbeddedMqttc

open Relation

variable {N : Nat} {α : Type}

/-! ## Calls -/

/-- The functions of the connection. `connect` is the rest of that function after the transport has
been connected; `tryWritePacket` is the trait method and `tryWritePacketInherent` the other one. -/
inductive Call where
  | connect (config : ClientConfig) (lastWill : Option LastWill)
  | disconnect
  | tryWritePacket (packet : Packet)
  | tryWritePacketInherent (packet : Packet)
  | writePacket (packet : Packet)
  | send
  | sendAll
  | sendReceive
  | readPacket
  | runIo
  | runIoNonblocking
  | dropPacket
  | setError
  deriving DecidableEq, Repr

/-- What a call that returns hands to its caller. -/
inductive Answer where
  | done
  | wrote (sent : Bool)
  | read (packet : Option Packet)
  deriving DecidableEq, Repr

namespace Call

variable (C : Codec)

def exec : Call → Io N Answer
  | connect config lastWill => do
    TcpConnectionState.sendConnect C config lastWill
    TcpConnectionState.awaitConnack C config
    return .done
  | disconnect => (fun _ => .done) <$> ConnectionState.disconnect C
  | tryWritePacket packet => .wrote <$> ConnectionState.tryWritePacket C packet
  | tryWritePacketInherent packet => .wrote <$> TcpConnectionState.tryWritePacket C packet
  | writePacket packet => (fun _ => .done) <$> ConnectionState.writePacket C packet
  | send => (fun _ => .done) <$> TcpConnectionState.send
  | sendAll => (fun _ => .done) <$> TcpConnectionState.sendAll
  | sendReceive => (fun _ => .done) <$> TcpConnectionState.sendReceive
  | readPacket => (fun p => .read (some p)) <$> TcpConnectionState.readPacket C
  | runIo => (fun p => .read (some p)) <$> ConnectionState.runIo C
  | runIoNonblocking => .read <$> ConnectionState.runIoNonblocking C
  | dropPacket => (fun _ => .done) <$> TcpConnectionState.dropPacket
  | setError => (fun _ => .done) <$> ConnectionState.setError

/-- The state after a call. -/
def next (w : World N) (c : Call × List Poll) : Option (World N) :=
  some ((c.1.exec C).exec (w.withScript c.2)).2

end Call

/-! ## Steps of a call -/

inductive Act where
  | silent
  | transmit
  | receive
  | decode
  | consume
  | accept
  | refuse

/-- What the connection does at once. A step that the streams do not see (`silent`) may use the
script, rearrange the receive buffer and change the state of the component; bytes are sent only
while some are pending. -/
inductive Step (C : Codec) : Act → World N → World N → Prop
  | silent {w w' : World N} : w'.sendBuffer = w.sendBuffer →
      w'.recvBuffer.reaableData = w.recvBuffer.reaableData → w'.mapped = w.mapped →
      w'.net = w.net → Step C .silent w w'
  | transmit {w : World N} {b ps} (n : Nat) : w.sendBuffer.hasRemainingLen = true →
      b.reaableData = w.sendBuffer.reaableData.drop n → Step C .transmit w
        { (w.withScript ps).took (w.sendBuffer.reaableData.take n) with sendBuffer := b }
  | receive {w : World N} {b ps} (bytes : List UInt8) : bytes = w.net.rx.take bytes.length →
      b.reaableData = w.recvBuffer.reaableData ++ bytes →
      Step C .receive w (((w.withScript ps).got bytes.length).withRecv b)
  | decode {w : World N} {n p} : w.mapped = none →
      C.decodeSliceWithLen w.recvBuffer.reaableData = .ok (some (n, p)) → Step C .decode w
        { w with
          mapped := some n
          net := { w.net with returned := w.net.returned ++ [p] } }
  | consume {w : World N} {n b} : w.mapped = some n → w.recvBuffer.addBytesRead n = .ok b →
      Step C .consume w { w with recvBuffer := b, mapped := none }
  | accept {w : World N} {b} (p : Packet) :
      b.reaableData = w.sendBuffer.reaableData ++ C.encode p → Step C .accept w (w.accept p b)
  | refuse {w : World N} {b} : b.reaableData = w.sendBuffer.reaableData →
      Step C .refuse w (w.withSend b)

/-- A step of one of the kinds `A`. -/
def Moves (C : Codec) (A : Act → Prop) (w w' : World N) : Prop := ∃ a, A a ∧ Step C a w w'

variable {C : Codec} {A : Act → Prop} {w w' : World N}

theorem Moves.single (a : Act) (ha : A a) (h : Step C a w w') :
    ReflTransGen (Moves C A) w w' := .single ⟨a, ha, h⟩

section

variable (hs : A .silent)
include hs

theorem Moves.silent (h : w'.sendBuffer = w.sendBuffer)
    (hr : w'.recvBuffer.reaableData = w.recvBuffer.reaableData) (hm : w'.mapped = w.mapped)
    (hn : w'.net = w.net) : ReflTransGen (Moves C A) w w' :=
  Moves.single _ hs (.silent h hr hm hn)

theorem Interrupted.moves {m : Io N α} {b : StackBuffer N}
    (hb : b.reaableData = w.recvBuffer.reaableData)
    (h : Interrupted (w.withRecv b) (m.exec w)) : Prog.MovesAt (Moves C A) m w := by
  obtain ⟨ps, -, ⟨h, -⟩ | ⟨kind, h, -⟩⟩ := h <;>
  · rw [Prog.MovesAt, h]
    exact Moves.silent hs rfl hb rfl rfl

theorem networkFlush_moves (w : World N) : Prog.MovesAt (Moves C A) networkFlush w := by
  rcases networkFlush_cases w with h | ⟨k, ps, -, -, h⟩
  · exact Interrupted.moves hs (b := w.recvBuffer) rfl h
  · rw [Prog.MovesAt, h]
    exact Moves.silent hs rfl rfl rfl rfl

end

namespace TcpConnectionState

theorem borrowRecv_moves (w : World N) : Prog.MovesAt (Moves C A) borrowRecv w :=
  .get_bind (.ensure _ _)

theorem unwrapConnection_moves (w : World N) : Prog.MovesAt (Moves C A) unwrapConnection w :=
  .get_bind (.ensure _ _)

theorem liftExcept_moves (r : Except MqttError α) (w : World N) :
    Prog.MovesAt (Moves C A) (liftExcept r) w := by
  cases r with
  | ok a => exact .pure a
  | error err => exact .fail err

theorem tryReadPacket_moves (hd : A .decode) (w : World N) :
    Prog.MovesAt (Moves C A) (tryReadPacket C) w := by
  rw [Prog.MovesAt, tryReadPacket_exec]
  split
  · exact .refl
  · rename_i hm
    split
    · rename_i n p h
      exact Moves.single _ hd (.decode (Option.not_isSome_iff_eq_none.mp hm) h)
    · split <;> exact .refl
    · exact .refl

theorem dropPacket_moves (hc : A .consume) (w : World N) :
    Prog.MovesAt (Moves C A) dropPacket w := by
  rw [Prog.MovesAt, dropPacket_exec]
  split
  · exact .refl
  · rename_i n hm
    split
    · rename_i b hb
      exact Moves.single _ hc (.consume hm hb)
    · exact .refl

section

variable (hs : A .silent)
include hs

theorem notify_moves (value : ConnectionStateValue) (w : World N) :
    Prog.MovesAt (Moves C A) (notify value) w := Moves.silent hs rfl rfl rfl rfl

theorem nextPid_moves (w : World N) : Prog.MovesAt (Moves C A) nextPid w := by
  refine .get_bind (.bind (.unwrap _) fun r w _ => .bind ?_ fun _ _ _ => .pure _)
  exact Moves.silent hs rfl rfl rfl rfl

/-- A read of either kind is one step: what it takes from the transport it adds to the unread
bytes. -/
theorem receive_moves (hr : A .receive) {read} (h : read = networkRead ∨ read = networkTryRead)
    (w : World N) : Prog.MovesAt (Moves C A) (receive read) w := by
  rcases h with rfl | rfl
  · rcases receive_networkRead_cases w with ⟨-, b, hd, h⟩ | ⟨bytes, ps, b, hb, hd, -, -, -, h⟩
    · exact h.moves hs hd
    · rw [Prog.MovesAt, h]; exact Moves.single _ hr (.receive bytes hb hd)
  · rcases receive_networkTryRead_cases w with ⟨b, kind, ps, hd, -, h⟩ | ⟨bytes, ps, b, hb, hd, -, h⟩
    · rw [Prog.MovesAt, h]; exact Moves.silent hs rfl hd rfl rfl
    · rw [Prog.MovesAt, h]; exact Moves.single _ hr (.receive bytes hb hd)

theorem readPacket_moves (hr : A .receive) (hd : A .decode) (w : World N) :
    Prog.MovesAt (Moves C A) (readPacket C) w := by
  refine .bind (unwrapConnection_moves w) fun _ w _ => .get_bind ?_
  refine .loop (fun w => .bind (tryReadPacket_moves hd w) fun o w _ => ?_) _
  cases o with
  | some p => exact .pure _
  | none => exact .bind (receive_moves hs hr (.inl rfl) w) fun _ _ _ => .pure _

section

variable (ht : A .transmit)
include ht

theorem transmit_moves (h : w.sendBuffer.hasRemainingLen = true) :
    Prog.MovesAt (Moves C A) transmit w := by
  rcases transmit_cases w with hi | ⟨k, ps, b, -, -, hb, -, he⟩
  · exact Interrupted.moves hs (b := w.recvBuffer) rfl hi
  · rw [Prog.MovesAt, he]
    exact Moves.single _ ht (.transmit _ h hb)

theorem sendAllIntern_moves (w : World N) : Prog.MovesAt (Moves C A) sendAllIntern w := by
  refine .get_bind (.bind (.loop (fun w => .get_bind ?_) _) fun _ w _ => networkFlush_moves hs w)
  split
  · rename_i h
    exact .bind (transmit_moves hs ht h) fun _ _ _ => .pure _
  · exact .pure _

theorem sendAll_moves (w : World N) : Prog.MovesAt (Moves C A) sendAll w :=
  .bind (unwrapConnection_moves w) fun _ w _ => sendAllIntern_moves hs ht w

theorem send_moves (w : World N) : Prog.MovesAt (Moves C A) send w := by
  refine .get_bind ?_
  split
  · rename_i h
    refine .bind (unwrapConnection_moves w) fun _ w' hw => ?_
    rw [unwrapConnection_exec] at hw
    cases (Prod.mk.inj hw).2
    exact .bind (transmit_moves hs ht h) fun _ w _ => networkFlush_moves hs w
  · exact .pure _

theorem sendReceive_moves (hr : A .receive) (w : World N) :
    Prog.MovesAt (Moves C A) sendReceive w := by
  refine .bind (borrowRecv_moves w) fun _ w _ => .bind (.modify _ ?_) fun _ w _ => ?_
  · exact Moves.silent hs rfl StackBuffer.reaableData_flip rfl rfl
  refine .bind (unwrapConnection_moves w) fun _ w _ => ?_
  refine .get_bind (.bind (.loop (fun w => .get_bind ?_) _) fun early w _ => ?_)
  · split
    · rename_i h
      refine .bind (transmit_moves hs ht h) fun _ w _ => .bind (networkFlush_moves hs w) fun _ w _ => ?_
      exact .bind (receive_moves hs hr (.inr rfl) w) fun _ _ _ => .pure _
    · exact .pure _
  · split
    · exact .bind (receive_moves hs hr (.inl rfl) w) fun _ _ _ => .pure _
    · exact .pure _

end

end

end TcpConnectionState

namespace ConnectionState

open TcpConnectionState

variable (hs : A .silent) (ht : A .transmit) (hr : A .receive) (hd : A .decode)
include hs ht hr hd

theorem runIo_moves (w : World N) : Prog.MovesAt (Moves C A) (runIo C) w := by
  refine .get_bind (.bind (.ensure _ _) fun _ w _ => .loop (fun w => ?_) _)
  exact .bind (sendReceive_moves hs ht hr w) fun _ w _ => tryReadPacket_moves hd w

theorem runIoNonblocking_moves (w : World N) :
    Prog.MovesAt (Moves C A) (runIoNonblocking C) w := by
  refine .get_bind (.bind (.ensure _ _) fun _ w _ => .bind (send_moves hs ht w) fun _ w _ => ?_)
  refine .bind (unwrapConnection_moves w) fun _ w _ => .bind (borrowRecv_moves w) fun _ w _ => ?_
  exact .bind (receive_moves hs hr (.inr rfl) w) fun _ w _ => tryReadPacket_moves hd w

end ConnectionState

/-! ### Calls that write -/

/-- The steps other than those of a read. -/
def Calm (a : Act) : Prop := a ≠ .receive ∧ a ≠ .decode

theorem Calm.accept : Calm .accept := ⟨nofun, nofun⟩

theorem Calm.refuse : Calm .refuse := ⟨nofun, nofun⟩

/-- A relation between the states of a connection that contains the steps other than those of a
read, and every `read_packet` as a whole. -/
structure Covers (C : Codec) (R : World N → World N → Prop) : Prop where
  calm : ∀ w w', Moves C Calm w w' → R w w'
  read : ∀ w, Prog.MovesAt R (TcpConnectionState.readPacket C) w

theorem Covers.all : Covers C (N := N) (Moves C fun _ => True) where
  calm _ _ := fun ⟨a, _, h⟩ => ⟨a, trivial, h⟩
  read := TcpConnectionState.readPacket_moves trivial trivial trivial

section

variable (hC : C.WritesEncoding) {R : World N → World N → Prop} (hR : Covers C R)
include hC hR

namespace TcpConnectionState

theorem tryWritePacket_moves (p : Packet) (w : World N) :
    Prog.MovesAt R (tryWritePacket C p) w := by
  rcases tryWritePacket_cases hC p w with ⟨b, hb, h⟩ | ⟨b, r, hb, -, h⟩
  · rw [Prog.MovesAt, h]
    exact .single (hR.calm _ _ ⟨.accept, .accept, .accept p hb⟩)
  · rw [Prog.MovesAt, h]
    exact .single (hR.calm _ _ ⟨.refuse, .refuse, .refuse hb⟩)

theorem writePacketAsync_moves (p : Packet) (w : World N) :
    Prog.MovesAt R (writePacketAsync C p) w := by
  refine .get_bind (.loop (fun w => .bind (tryWritePacket_moves hC hR p w) fun sent w _ => ?_) _)
  split
  · exact .pure _
  · exact .bind ((send_moves ⟨nofun, nofun⟩ ⟨nofun, nofun⟩ w).mono hR.calm) fun _ _ _ => .pure _

theorem subscribeChunks_moves (chunks : List (List AutoSubscribe)) (w : World N) :
    Prog.MovesAt R (subscribeChunks C chunks) w := by
  induction chunks generalizing w with
  | nil => exact .pure _
  | cons chunk chunks ih =>
    refine .bind ((nextPid_moves ⟨nofun, nofun⟩ w).mono hR.calm) fun pid w _ => ?_
    refine .bind ((liftExcept_moves _ w).mono hR.calm) fun topics w _ => ?_
    refine .bind (writePacketAsync_moves hC hR _ w) fun _ w _ => ?_
    refine .bind ((sendAll_moves ⟨nofun, nofun⟩ ⟨nofun, nofun⟩ w).mono hR.calm) fun _ w _ => ?_
    refine .bind (hR.read w) fun p w _ => ?_
    refine .bind ((dropPacket_moves ⟨nofun, nofun⟩ w).mono hR.calm) fun _ w _ => ?_
    exact .bind ((liftExcept_moves _ w).mono hR.calm) fun _ w _ => ih w

theorem processConnack_moves (config : ClientConfig) (connack : Connack) (w : World N) :
    Prog.MovesAt R (processConnack C config connack) w := by
  have hnotify value (w : World N) : Prog.MovesAt R (notify value) w :=
    (notify_moves ⟨nofun, nofun⟩ value w).mono hR.calm
  unfold processConnack
  split
  · exact .bind (subscribeChunks_moves hC hR _ w) fun _ w _ => hnotify _ w
  all_goals exact .bind (hnotify _ w) fun _ _ _ => .fail _

theorem sendConnect_moves (config : ClientConfig) (lastWill : Option LastWill) (w : World N) :
    Prog.MovesAt R (sendConnect C config lastWill) w := by
  refine .bind (tryWritePacket_moves hC hR _ w) fun sent w _ => .bind (.ensure _ _) fun _ w _ => ?_
  refine .bind ((send_moves ⟨nofun, nofun⟩ ⟨nofun, nofun⟩ w).mono hR.calm) fun _ w _ => ?_
  exact (notify_moves ⟨nofun, nofun⟩ _ w).mono hR.calm

theorem awaitConnack_moves (config : ClientConfig) (w : World N) :
    Prog.MovesAt R (awaitConnack C config) w := by
  refine .bind (hR.read w) fun p w _ => ?_
  refine .bind ((dropPacket_moves ⟨nofun, nofun⟩ w).mono hR.calm) fun _ w _ => ?_
  refine .bind ((liftExcept_moves _ w).mono hR.calm) fun connack w _ => ?_
  exact processConnack_moves hC hR config connack w

end TcpConnectionState

namespace ConnectionState

open TcpConnectionState

theorem tryWritePacket_moves (p : Packet) (w : World N) :
    Prog.MovesAt R (tryWritePacket C p) w := by
  rcases tryWritePacket_cases hC p w with ⟨n, b, -, hb, h⟩ | ⟨err, b, r, -, hb, -, -, -, h⟩
  · rw [Prog.MovesAt, h]
    exact .single (hR.calm _ _ ⟨.accept, .accept, .accept p hb⟩)
  · rw [Prog.MovesAt, h]
    exact .single (hR.calm _ _ ⟨.refuse, .refuse, .refuse hb⟩)

theorem disconnect_moves (w : World N) : Prog.MovesAt R (disconnect C) w := by
  have hsendAll (w : World N) : Prog.MovesAt R sendAll w :=
    (sendAll_moves ⟨nofun, nofun⟩ ⟨nofun, nofun⟩ w).mono hR.calm
  refine .get_bind (.bind (.ensure _ _) fun _ w _ => .bind (hsendAll w) fun _ w _ => ?_)
  refine .bind (TcpConnectionState.tryWritePacket_moves hC hR _ w) fun sent w _ => ?_
  refine .bind (.ensure _ _) fun _ w _ => .bind (hsendAll w) fun _ w _ => ?_
  refine .bind ((unwrapConnection_moves w).mono hR.calm) fun _ w _ => ?_
  refine .bind (.single (hR.calm _ _ ⟨.silent, ⟨nofun, nofun⟩, .silent rfl rfl rfl rfl⟩)) fun _ w _ => ?_
  exact (notify_moves ⟨nofun, nofun⟩ _ w).mono hR.calm

end ConnectionState

/-- Every call is made of steps of `R`, if the three functions that read are. -/
theorem Call.moves {c : Call} (hsr : c ≠ .sendReceive)
    (hrun : ∀ w, Prog.MovesAt R (ConnectionState.runIo C) w)
    (hnb : ∀ w, Prog.MovesAt R (ConnectionState.runIoNonblocking C) w) (w : World N) :
    Prog.MovesAt R (c.exec C) w := by
  cases c with
  | connect config lastWill =>
    refine .bind (TcpConnectionState.sendConnect_moves hC hR config lastWill w) fun _ w _ => ?_
    exact .bind (TcpConnectionState.awaitConnack_moves hC hR config w) fun _ _ _ => .pure _
  | disconnect => exact .map (ConnectionState.disconnect_moves hC hR w)
  | tryWritePacket p => exact .map (ConnectionState.tryWritePacket_moves hC hR p w)
  | tryWritePacketInherent p => exact .map (TcpConnectionState.tryWritePacket_moves hC hR p w)
  | writePacket p => exact .map (TcpConnectionState.writePacketAsync_moves hC hR p w)
  | send =>
    exact .map ((TcpConnectionState.send_moves ⟨nofun, nofun⟩ ⟨nofun, nofun⟩ w).mono hR.calm)
  | sendAll =>
    exact .map ((TcpConnectionState.sendAll_moves ⟨nofun, nofun⟩ ⟨nofun, nofun⟩ w).mono hR.calm)
  | sendReceive => exact absurd rfl hsr
  | readPacket => exact .map (hR.read w)
  | runIo => exact .map (hrun w)
  | runIoNonblocking => exact .map (hnb w)
  | dropPacket => exact .map ((TcpConnectionState.dropPacket_moves ⟨nofun, nofun⟩ w).mono hR.calm)
  | setError => exact .map ((TcpConnectionState.notify_moves ⟨nofun, nofun⟩ _ w).mono hR.calm)

end

/-- Every call is made of steps of the connection. -/
theorem Call.steps (hC : C.WritesEncoding) (c : Call) (w : World N) :
    Prog.MovesAt (Moves C fun _ => True) (c.exec C) w := by
  by_cases hc : c = .sendReceive
  · subst hc
    exact .map (TcpConnectionState.sendReceive_moves trivial trivial trivial w)
  · exact Call.moves hC .all hc (ConnectionState.runIo_moves trivial trivial trivial trivial)
      (ConnectionState.runIoNonblocking_moves trivial trivial trivial trivial) w

/-! ## The pipe -/

def World.pipe (w : World N) : FramedPipe Packet UInt8 where
  out := w.sendBuffer.reaableData
  sent := w.net.tx
  accepted := w.net.accepted
  inq := w.recvBuffer.reaableData
  coming := w.net.rx
  returned := w.net.returned
  borrowed := w.mapped

/-- A step of the connection is a step of the pipe or one that the pipe does not see. -/
theorem Step.pipe {a : Act} (h : Step C a w w') :
    w'.pipe = w.pipe ∨ FramedPipe.Step C.encode C.decodeSliceWithLen w.pipe w'.pipe := by
  cases h with
  | silent hs hr hm hn => exact .inl (by simp only [World.pipe, hs, hr, hm, hn])
  | transmit n hr hb =>
    simp only [World.pipe, World.took, World.withScript, hb]
    exact .inr (.transmit w.pipe n)
  | receive bytes hb hd =>
    have hstep : FramedPipe.Step C.encode C.decodeSliceWithLen w.pipe _ :=
      .receive w.pipe bytes.length
    simp only [World.pipe, ← hb] at hstep
    simp only [World.pipe, World.got, World.withScript, World.withRecv, hd]
    exact .inr hstep
  | decode hm hd => exact .inr (.decode w.pipe _ _ hm hd)
  | consume hm hb =>
    obtain ⟨hn, hd⟩ := StackBuffer.addBytesRead_eq_ok hb
    simp only [World.pipe, hd]
    exact .inr (.consume w.pipe _ hm hn)
  | accept p hb =>
    simp only [World.pipe, World.accept, hb]
    exact .inr (.accept w.pipe p)
  | refuse hb => exact .inl (by simp only [World.pipe, World.withSend, hb])

/-! ## A connection from its establishment on -/

variable {incoming : List UInt8} {closed : Bool}

/-- The state of a connection that has just been established. -/
structure Fresh (incoming : List UInt8) (closed : Bool) (w : World N) : Prop where
  connection : w.connection = true
  mapped : w.mapped = none
  net : w.net = { rx := incoming, closed, tx := [], accepted := [], returned := [] }
  sendBuffer : w.sendBuffer.reaableData = []
  recvBuffer : w.recvBuffer.reaableData = []

/-- The transport answers that precede the first write of a connect. -/
def answersBeforeWrite : Host → Nat
  | .hostname _ => 2
  | .ip _ => 1

def Poll.answer : Poll → Option (Except ErrorKind Nat)
  | .ready k => some (.ok k)
  | .pending => none
  | .error kind => some (.error kind)

/-- The answers of a script, without the polls that are pending. -/
def answers (script : List Poll) : List (Except ErrorKind Nat) := script.filterMap Poll.answer

theorem nextAnswer_answers {script ps : List Poll} {a : Except ErrorKind Nat}
    (h : nextAnswer script = some (a, ps)) : answers script = a :: answers ps := by
  induction script with
  | nil => cases h
  | cons p script ih =>
    cases p with
    | pending => exact ih h
    | ready | error => cases h; rfl

theorem awaitAnswer_ok {a : Except ErrorKind Nat} (h : awaitAnswer.exec w = (.ok a, w')) :
    ∃ ps, answers w.script = a :: answers ps ∧ w' = w.withScript ps := by
  rw [awaitAnswer_exec] at h
  split at h
  · rename_i a' ps hn
    cases h
    exact ⟨ps, nextAnswer_answers hn, rfl⟩
  · cases h

namespace TcpConnectionState

theorem resolve_ok {host : Host} (h : (resolve host).exec w = (.ok (), w')) :
    ∃ ps, w' = w.withScript ps ∧
      (answers w.script).drop (answersBeforeWrite host - 1) = answers ps := by
  cases host with
  | ip addr =>
    cases h
    exact ⟨w.script, rfl, rfl⟩
  | hostname name =>
    obtain ⟨a, w₁, ha, h⟩ := Prog.exec_bind_eq_ok h
    obtain ⟨ps, hps, rfl⟩ := awaitAnswer_ok ha
    cases a with
    | error kind => cases h
    | ok k =>
      cases h
      exact ⟨ps, rfl, by rw [hps]; rfl⟩

theorem connectTransport_ok (h : (connectTransport incoming closed).exec w = (.ok (), w')) :
    ∃ ps, (answers w.script).drop 1 = answers ps ∧
      w' = { w with
        script := ps
        connection := true
        net := { rx := incoming, closed, tx := [], accepted := [], returned := [] } } := by
  obtain ⟨a, w₁, ha, h⟩ := Prog.exec_bind_eq_ok h
  obtain ⟨ps, hps, rfl⟩ := awaitAnswer_ok ha
  cases a with
  | error kind => cases h
  | ok k =>
    cases h
    exact ⟨ps, by rw [hps]; rfl, rfl⟩

end TcpConnectionState

/-- An establishment that returns has reset the buffers and has used the answers before the first
write. -/
theorem establish_ok {config : ClientConfig}
    (h : (ConnectionState.establish config incoming closed).exec w = (.ok (), w')) :
    Fresh incoming closed w' ∧
      (answers w.script).drop (answersBeforeWrite config.host) = answers w'.script := by
  rw [ConnectionState.establish, Prog.exec_get_bind] at h
  obtain ⟨_, w₁, hinner, h₁⟩ := Prog.exec_bind_eq_ok h
  obtain ⟨-, rfl⟩ := Prog.exec_ensure_eq_ok hinner
  obtain ⟨_, w₂, hborrow, h₂⟩ := Prog.exec_bind_eq_ok h₁
  obtain ⟨hm, rfl⟩ := Prog.exec_ensure_eq_ok (Prog.exec_get_bind _ _ ▸ hborrow)
  rw [Prog.exec_modify_bind] at h₂
  obtain ⟨_, w₃, hresolve, h₃⟩ := Prog.exec_bind_eq_ok h₂
  obtain ⟨ps, rfl, hps⟩ := TcpConnectionState.resolve_ok hresolve
  obtain ⟨qs, hqs, rfl⟩ := TcpConnectionState.connectTransport_ok h₃
  refine ⟨⟨rfl, hm, rfl, StackBuffer.reaableData_reset, StackBuffer.reaableData_reset⟩, ?_⟩
  rw [← hqs, World.withScript_script, ← hps, List.drop_drop]
  cases config.host <;> rfl

/-- `w` is reached on one connection: by a sequence of calls from the moment at which `connect` has
established it. -/
def OnConnection (C : Codec) (incoming : List UInt8) (closed : Bool)
    (calls : List (Call × List Poll)) (w : World N) : Prop :=
  ∃ (w₀ w₁ : World N) (config : ClientConfig),
    (ConnectionState.establish config incoming closed).exec w₀ = (.ok (), w₁) ∧
      Run.run (Call.next C) w₁ calls = some w

/-- The state after a sequence of calls. -/
def Call.after (C : Codec) (w : World N) (calls : List (Call × List Poll)) : World N :=
  calls.foldl (fun w c => ((c.1.exec C).exec (w.withScript c.2)).2) w

theorem Call.run_eq_after (w : World N) (calls : List (Call × List Poll)) :
    Run.run (Call.next C) w calls = some (Call.after C w calls) := by
  induction calls generalizing w with
  | nil => rfl
  | cons c calls ih => exact ih _

theorem OnConnection.of_calls {w₀ : World N} {config : ClientConfig}
    (h : ((ConnectionState.establish config incoming closed).exec w₀).1 = .ok ())
    (calls : List (Call × List Poll)) : OnConnection C incoming closed calls
      (Call.after C ((ConnectionState.establish config incoming closed).exec w₀).2 calls) :=
  ⟨w₀, _, config, Prod.ext h rfl, Call.run_eq_after _ calls⟩

/-- The rule for runs on one connection: what holds of a fresh connection and is preserved by every
call holds of every state that is reached. -/
theorem OnConnection.invariant {I : World N → Prop} {calls : List (Call × List Poll)}
    (hfresh : ∀ w, Fresh incoming closed w → I w)
    (hcall : ∀ w (c : Call) ps, I w → I ((c.exec C).exec (w.withScript ps)).2)
    (h : OnConnection C incoming closed calls w) : I w := by
  obtain ⟨w₀, w₁, config, hestablish, hrun⟩ := h
  refine Run.invariant (fun w c w' hw hc => ?_) (hfresh _ (establish_ok hestablish).1) hrun
  cases hc
  exact hcall w c.1 c.2 hw

/-- On every run the pipe takes steps only. -/
theorem OnConnection.pipe_invariant (hC : C.WritesEncoding) {I : FramedPipe Packet UInt8 → Prop}
    {calls : List (Call × List Poll)}
    (hfresh : I ⟨[], [], [], [], incoming, [], none⟩)
    (hstep : ∀ s s', FramedPipe.Step C.encode C.decodeSliceWithLen s s' → I s → I s')
    (h : OnConnection C incoming closed calls w) : I w.pipe := by
  refine OnConnection.invariant (I := fun w => I w.pipe) (fun w hw => ?_) (fun w c ps hw => ?_) h
  · simp only [World.pipe, hw.net, hw.sendBuffer, hw.recvBuffer, hw.mapped]
    exact hfresh
  · refine (c.steps hC (w.withScript ps)).invariant (I := fun w => I w.pipe)
      (fun s s' ⟨_, _, hs⟩ hi => ?_) hw
    rcases hs.pipe with hs | hs
    · rwa [hs]
    · exact hstep _ _ hs hi

end EmbeddedMqttc
