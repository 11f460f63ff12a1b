import EmbeddedMqttc.ReceiveCalls
import EmbeddedMqttc.RunCalls

/-!
# The receive side over reconnects

`State::run` with its connection as in `RunCalls` and with `Receives`, which gets the PUBLISH and
PUBREL packets that `process_packet` is given. A new connection finds `Receives` as the last one has
left it: the `session_present` of a connack is not looked at anywhere, and nothing but the writing of
the acknowledgements takes a pid out of the queues.
-/

namespace EmbeddedMqttc

open Prog

variable {N BUFFER TOPIC QUEUE : Nat}

/-- The last three fields are history: the first packet that was read on the present connection, what
`Receives` held at the end of its handshake, and the packets that `process_packet` was given since. -/
structure Listener (N BUFFER TOPIC QUEUE : Nat) where
  runner : Runner N
  receives : Ctx (Receives BUFFER TOPIC QUEUE)
  answer : Option Packet
  held : ReceivesInner QUEUE
  processed : List Packet
  deriving DecidableEq

namespace Listener

inductive Label where
  /-- A step of `run` that does not concern `Receives`. -/
  | run (l : RunLabel)
  /-- `send_packets`, with any answers of the connection. -/
  | sendReceives (answers : List (Except MqttError Bool))
  /-- `process_packet` with a PUBLISH or a PUBREL. -/
  | process

def new : Listener N BUFFER TOPIC QUEUE where
  runner := .new
  receives := { inner := .new, env := .new }
  answer := none
  held := (Receives.new : Receives BUFFER TOPIC QUEUE).toReceivesInner
  processed := []

variable (C : Codec) (config : ClientConfig) (lastWill : Option LastWill)
  (s : Listener N BUFFER TOPIC QUEUE)

/-- The part of `process_packet` that concerns `Receives`. -/
def receivesCall : Packet → Option (ReceivesCall BUFFER TOPIC QUEUE PUnit)
  | .publish p => some (Receives.onPublish p)
  | .pubrel pid => some (Receives.onPubrel pid)
  | _ => none

/-- The runner has made a step. -/
def moved (l : RunLabel) (runner : Runner N) : Listener N BUFFER TOPIC QUEUE :=
  match l, s.runner.stage with
  | .awaitConnack _, _ =>
    { s with
      runner
      answer := runner.world.net.returned.head?
      held := s.receives.inner.toReceivesInner
      processed := [] }
  | .processed _, .processing packet => { s with runner, processed := s.processed ++ [packet] }
  | _, _ => { s with runner }

/-- Whether a step of the runner processes a packet that `Receives` has to get. -/
def bypasses (l : RunLabel) : Bool :=
  match l, s.runner.stage with
  | .processed _, .processing packet =>
    (receivesCall packet : Option (ReceivesCall BUFFER TOPIC QUEUE PUnit)).isSome
  | _, _ => false

/-- What `process_packet` makes of the result of `Receives`. -/
def finish : Except (Stop MqttError) PUnit → Option (Runner N)
  | .ok _ => s.runner.next C config lastWill (.processed (.ok ()))
  | .error (.fail e) => s.runner.next C config lastWill (.processed (.error e))
  | .error _ => some { s.runner with stage := .panicked }

def next : Label → Option (Listener N BUFFER TOPIC QUEUE)
  | .run l =>
    if s.bypasses l then none else (s.runner.next C config lastWill l).map (s.moved l)
  | .sendReceives answers =>
    if s.runner.stage = .sending then
      some { s with
        receives :=
          (Receives.sendPackets.exec
            { s.receives with env := { s.receives.env with answers } }).2 }
    else none
  | .process =>
    match s.runner.stage with
    | .processing packet =>
      (receivesCall packet).bind fun call =>
        let (r, receives) := call.exec s.receives
        (s.finish C config lastWill r).map fun runner =>
          { s with runner, receives, processed := s.processed ++ [packet] }
    | _ => none

end Listener

/-! ## What can enter the queues -/

/-- The packets of a QoS 2 exchange that a peer sends to begin or to end it. -/
def Packet.Concerns (pid : Pid) : Packet → Prop
  | .publish p => p.qospid = .exactlyOnce pid
  | .pubrel q => q = pid
  | _ => False

namespace Receives

variable {c c' : Ctx (Receives BUFFER TOPIC QUEUE)} {pid : Pid}

theorem isDup_iff {self : ReceivesInner QUEUE} : self.isDup pid = true ↔
    pid ∈ self.awaitPubrel ∨ pid ∈ self.sendPubrec ∨ pid ∈ self.sendPubcomp := by
  rw [← Bool.not_eq_false, isDup_eq_false_iff]
  tauto

theorem Move.isDup (hmove : Move c c') (h : c'.inner.isDup pid = true) :
    c.inner.isDup pid = true := by
  rw [isDup_iff] at h ⊢
  cases hmove with
  | asked => exact h
  | puback hi => exact h
  | pubrec hi hpush =>
    rcases h with h | h | h
    · rcases (BoundedVec.mem_iff_of_push hpush).mp h with h | rfl
      · exact .inl h
      · exact .inr (.inl (BoundedVec.mem_of_get? hi))
    · exact .inr (.inl (BoundedVec.mem_removeAt h))
    · exact .inr (.inr h)
  | pubcomp hi =>
    rcases h with h | h | h
    · exact .inl h
    · exact .inr (.inl h)
    · exact .inr (.inr (BoundedVec.mem_removeAt h))

/-- A send pass adds no pid. -/
theorem sendPackets_isDup (h : (sendPackets.exec c).2.inner.isDup pid = true) :
    c.inner.isDup pid = true := by
  let I (c' : Ctx (Receives BUFFER TOPIC QUEUE)) : Prop :=
    c'.inner.isDup pid = true → c.inner.isDup pid = true
  exact sendPackets_moves.invariant (I := I) (fun _ _ hmove hi h => hi (hmove.isDup h)) id h

theorem onPublish_isDup {p : Publish} (h : ((onPublish p).exec c).2.inner.isDup pid = true) :
    c.inner.isDup pid = true ∨ p.qospid = .exactlyOnce pid := by
  rw [isDup_iff] at h ⊢
  cases hq : p.qospid with
  | atMostOnce =>
    rcases onPublish_atMostOnce_cases c hq with ⟨m, -, hexec⟩ | ⟨e, hexec⟩ <;>
      rw [hexec] at h <;> exact .inl h
  | atLeastOnce q =>
    rcases onPublish_atLeastOnce_cases c hq with ⟨m, _, -, -, hexec⟩ | ⟨m, e, -, hexec⟩ | ⟨e, hexec⟩ <;>
      rw [hexec] at h <;> exact .inl h
  | exactlyOnce q =>
    have hpushed {pubrecs : BoundedVec Pid QUEUE} (hpush : c.inner.sendPubrec.push q = some pubrecs)
        (h : pid ∈ c.inner.awaitPubrel ∨ pid ∈ pubrecs ∨ pid ∈ c.inner.sendPubcomp) :
        (pid ∈ c.inner.awaitPubrel ∨ pid ∈ c.inner.sendPubrec ∨ pid ∈ c.inner.sendPubcomp) ∨
          QosPid.exactlyOnce q = .exactlyOnce pid := by
      rcases h with h | h | h
      · exact .inl (.inl h)
      · rcases (BoundedVec.mem_iff_of_push hpush).mp h with h | rfl
        · exact .inl (.inr (.inl h))
        · exact .inr rfl
      · exact .inl (.inr (.inr h))
    rcases onPublish_exactlyOnce_cases c hq with
      ⟨-, e, hexec⟩ | ⟨pubrecs, hpush, ⟨-, hexec⟩ | ⟨-, m, -, hexec⟩ | ⟨-, e, -, hexec⟩⟩
    · rw [hexec] at h
      exact .inl h
    all_goals
      rw [hexec] at h
      exact hpushed hpush h

theorem onPubrel_isDup {q : Pid} (h : ((onPubrel q).exec c).2.inner.isDup pid = true) :
    c.inner.isDup pid = true ∨ q = pid := by
  rw [isDup_iff] at h ⊢
  rcases onPubrel_exec_cases c q with ⟨e, hexec⟩ | ⟨_, _, hpush, hawait, hexec⟩
  · rw [hexec] at h
    exact .inl h
  · rw [hexec] at h
    rcases h with h | h | h
    · rcases hawait with rfl | ⟨i, rfl⟩
      · exact .inl (.inl h)
      · exact .inl (.inl (BoundedVec.mem_removeAt h))
    · exact .inl (.inr (.inl h))
    · rcases (BoundedVec.mem_iff_of_push hpush).mp h with h | rfl
      · exact .inl (.inr (.inr h))
      · exact .inr rfl

/-- A packet adds no other pid than its own. -/
theorem receivesCall_isDup {packet : Packet} {call : ReceivesCall BUFFER TOPIC QUEUE PUnit}
    (hcall : Listener.receivesCall packet = some call)
    (h : (call.exec c).2.inner.isDup pid = true) :
    c.inner.isDup pid = true ∨ packet.Concerns pid := by
  cases packet with
  | publish p => cases hcall; exact onPublish_isDup h
  | pubrel q => cases hcall; exact onPubrel_isDup h
  | _ => cases hcall

end Receives

namespace Listener

variable {s s' : Listener N BUFFER TOPIC QUEUE} {C : Codec} {config : ClientConfig}
  {lastWill : Option LastWill} {pid : Pid}

/-- What `Receives` holds was there when the connection was made, or came with a packet since. -/
def Accounted (s : Listener N BUFFER TOPIC QUEUE) : Prop :=
  ∀ pid, s.receives.inner.isDup pid = true →
    s.held.isDup pid = true ∨ ∃ packet ∈ s.processed, packet.Concerns pid

theorem Accounted.step {l : Label} (h : s.Accounted)
    (hnext : s.next C config lastWill l = some s') : s'.Accounted := by
  intro pid hdup
  cases l with
  | run l =>
    simp only [next] at hnext
    split at hnext
    · cases hnext
    obtain ⟨runner, -, rfl⟩ := Option.map_eq_some_iff.mp hnext
    unfold moved at hdup ⊢
    split at hdup
    · exact .inl hdup
    · obtain hheld | ⟨packet, hpacket, hconcerns⟩ := h pid hdup
      · exact .inl hheld
      · exact .inr ⟨packet, List.mem_append_left _ hpacket, hconcerns⟩
    · exact h pid hdup
  | sendReceives answers =>
    obtain ⟨-, hnext⟩ := Option.ite_none_right_eq_some.mp hnext
    cases hnext
    have hbefore := Receives.sendPackets_isDup hdup
    exact h pid hbefore
  | process =>
    simp only [next] at hnext
    split at hnext
    · rename_i packet _
      obtain ⟨call, hcall, hnext⟩ := Option.bind_eq_some_iff.mp hnext
      obtain ⟨runner, -, rfl⟩ := Option.map_eq_some_iff.mp hnext
      rcases Receives.receivesCall_isDup hcall hdup with hdup | hconcerns
      · obtain hheld | ⟨packet, hpacket, hconcerns⟩ := h pid hdup
        · exact .inl hheld
        · exact .inr ⟨packet, List.mem_append_left _ hpacket, hconcerns⟩
      · exact .inr ⟨packet, List.mem_append_right _ (List.mem_singleton_self _), hconcerns⟩
    · cases hnext

theorem accounted_of_run {ls : List Label}
    (hr : Run.run (next C config lastWill) (new : Listener N BUFFER TOPIC QUEUE) ls = some s) :
    s.Accounted :=
  Run.invariant (fun _ _ _ h hnext => Accounted.step h hnext) (fun _ h => .inl h) hr

/-! ## The first publish with a pid on a connection -/

variable (C config lastWill) in
/-- `Receives` gets the packet, and `run` goes on or panics. -/
theorem process_publish {p : Publish} {c : Ctx (Receives BUFFER TOPIC QUEUE)}
    (hstage : s.runner.stage = .processing (.publish p))
    (hexec : (Receives.onPublish p).exec s.receives = (.ok ⟨⟩, c)) :
    ∃ runner, s.next C config lastWill .process =
      some { s with runner, receives := c, processed := s.processed ++ [.publish p] } := by
  obtain ⟨runner, hrunner⟩ : ∃ runner,
      s.finish C config lastWill (.ok ⟨⟩) = some runner := by
    simp only [finish, Runner.next, hstage, Runner.finishPacket, TcpConnectionState.dropPacket_exec]
    rcases s.runner.world.mapped with _ | n
    · exact ⟨_, rfl⟩
    · cases hb : s.runner.world.recvBuffer.addBytesRead n <;>
        exact ⟨_, by simp only [hb]; rfl⟩
  refine ⟨runner, ?_⟩
  simp only [next, hstage, receivesCall, Option.bind_some, hexec]
  rw [hrunner]
  rfl

/-- **The first QoS 2 publish with a pid on a connection** is delivered if `Receives` held nothing of
this pid when the connection was made, whatever the connack says about the session. It is delivered
exactly if `Receives` holds nothing of the pid when the publish arrives. Else it is only queued for
another PUBREC. -/
theorem new_message_delivered {ls : List Label} {p : Publish} {m : ReceivedPublish BUFFER TOPIC}
    (hr : Run.run (next C config lastWill) (new : Listener N BUFFER TOPIC QUEUE) ls = some s)
    (hstage : s.runner.stage = .processing (.publish p)) (hq : p.qospid = .exactlyOnce pid)
    (hfirst : ∀ packet ∈ s.processed, ¬ packet.Concerns pid)
    (hroom : s.receives.inner.sendPubrec.isFull = false)
    (hm : ReceivedPublish.tryFrom p = .ok m) :
    ∃ s', s.next C config lastWill .process = some s' ∧ pid ∈ s'.receives.inner.sendPubrec ∧
      (s.held.isDup pid = false → s'.receives.inner.queue = s.receives.inner.queue ++ [m]) ∧
      (s.receives.inner.isDup pid = false ∧
          s'.receives.inner.queue = s.receives.inner.queue ++ [m] ∨
        s.receives.inner.isDup pid = true ∧
          s'.receives.inner.queue = s.receives.inner.queue) := by
  have hheld (h : s.held.isDup pid = false) : s.receives.inner.isDup pid = false := by
    refine Bool.eq_false_iff.mpr fun hdup => ?_
    rcases accounted_of_run hr pid hdup with h' | ⟨packet, hpacket, hconcerns⟩
    · exact Bool.false_ne_true (h.symm.trans h')
    · exact hfirst packet hpacket hconcerns
  rcases Receives.onPublish_exactlyOnce_cases s.receives hq with
    ⟨hfull, -⟩ | ⟨pubrecs, hpush, ⟨hdup, hexec⟩ | ⟨hdup, m', hm', hexec⟩ | ⟨-, e, hm', -⟩⟩
  · cases hroom.symm.trans hfull
  · obtain ⟨runner, hnext⟩ := process_publish C config lastWill hstage hexec
    have hmem : pid ∈ pubrecs := (BoundedVec.mem_iff_of_push hpush).mpr (.inr rfl)
    refine ⟨_, hnext, hmem, fun h => ?_, .inr ⟨hdup, rfl⟩⟩
    cases (hheld h).symm.trans hdup
  · cases hm.symm.trans hm'
    obtain ⟨runner, hnext⟩ := process_publish C config lastWill hstage hexec
    have hmem : pid ∈ pubrecs := (BoundedVec.mem_iff_of_push hpush).mpr (.inr rfl)
    exact ⟨_, hnext, hmem, fun _ => rfl, .inl ⟨hdup, rfl⟩⟩
  · cases hm.symm.trans hm'

/-! ### A pid of the old session -/

end Listener

/-- Also PUBLISH with QoS 2 and a topic of less than 256 bytes. -/
def Wire.parseQos2 (header : UInt8) (body : List UInt8) : Option Packet :=
  match header.toNat, body with
  | 0x34, 0 :: length :: rest =>
    match rest.drop length.toNat with
    | hi :: lo :: payload =>
      (pidOf hi lo).map fun pid =>
        .publish ⟨false, .exactlyOnce pid, false, rest.take length.toNat, payload⟩
    | _ => none
  | _, _ => parse header body

namespace Listener

def samplePid : Pid := ⟨5, by decide, by decide⟩

def qos2Publish (payload : List UInt8) : Publish :=
  ⟨false, .exactlyOnce samplePid, false, [116], payload⟩

def qos2Codec : Codec := wireWith Wire.parseQos2

/-- `run` connects, and the broker answers without a session and with `packets`. -/
def connecting (packets : List Packet) : List Label :=
  [.run (.connect (Framing.frames qos2Codec.encode (.connack ⟨false, .accepted⟩ :: packets)) false
      [.ready 0, .ready 100, .ready 0]),
    .run (.awaitConnack [.ready 3])]

/-- A connection on which a message comes. -/
def firstMessage : List Label :=
  .run .run :: connecting [.publish (qos2Publish [1])] ++
    [.run (.sent (.ok .sentAll)), .run (.runIo [.ready 100])]

/-- The message is processed and acknowledged, the connection is lost, and `packets` come on the next
one, of which eight bytes are read. -/
def reconnected (packets : List Packet) : List Label :=
  firstMessage ++
    [.process, .run (.tryWritePacket (.pubrec samplePid)), .sendReceives [.ok true],
      .run (.sent (.ok .sentAll)), .run (.runIo [.error ⟨0⟩])] ++
    connecting packets ++ [.run (.sent (.ok .sentAll)), .run (.runIo [.ready 7])]

/-- Another message comes with the pid of the first one. -/
def secondMessage : List Label := reconnected [.publish (qos2Publish [2])]

def otherPid : Pid := ⟨6, by decide, by decide⟩

def otherPublish : Publish := { qos2Publish [3] with qospid := .exactlyOnce otherPid }

/-- After a message with the pid of the first one, there comes one with a pid of its own. -/
def otherMessage : List Label :=
  reconnected [.publish (qos2Publish [2]), .publish otherPublish] ++
    [.process, .run (.tryWritePacket (.pubrec samplePid)), .sendReceives [.ok true],
      .run (.sent (.ok .sentAll)), .run (.runIo [.ready 100, .ready 0, .ready 100])]

theorem received_qos2Publish (byte : UInt8) :
    ∃ m : ReceivedPublish 8 8, ReceivedPublish.tryFrom (qos2Publish [byte]) = .ok m := ⟨_, rfl⟩

theorem received_otherPublish :
    ∃ m : ReceivedPublish 8 8, ReceivedPublish.tryFrom otherPublish = .ok m := ⟨_, rfl⟩

/-- On the second connection, while the pid of the first one is still held. -/
theorem new_message_delivered_on_otherMessage :
    ∃ (s s' : Listener 64 8 8 4) (m : ReceivedPublish 8 8),
      Run.run (next qos2Codec sampleConfig none) new otherMessage = some s ∧
        s.answer = some (.connack ⟨false, .accepted⟩) ∧ s.held.isDup samplePid = true ∧
        s.processed = [.publish (qos2Publish [2])] ∧ s.receives.inner.queue.length = 1 ∧
        ReceivedPublish.tryFrom otherPublish = .ok m ∧
        s.next qos2Codec sampleConfig none .process = some s' ∧
        s'.receives.inner.queue = s.receives.inner.queue ++ [m] := by
  have hrun : (Run.run (next qos2Codec sampleConfig none) (new : Listener 64 8 8 4) otherMessage).any
      (fun s => decide (s.answer = some (.connack ⟨false, .accepted⟩) ∧
        s.held.isDup samplePid = true ∧ s.processed = [.publish (qos2Publish [2])] ∧
        s.receives.inner.queue.length = 1 ∧ s.runner.stage = .processing (.publish otherPublish) ∧
        s.receives.inner.sendPubrec.isFull = false ∧ s.held.isDup otherPid = false)) = true := by
    decide +kernel
  obtain ⟨s, hs, hprops⟩ := (Option.any_eq_true _ _).mp hrun
  obtain ⟨hanswer, hdup, hprocessed, hlength, hstage, hroom, hheld⟩ := of_decide_eq_true hprops
  obtain ⟨m, hm⟩ := received_otherPublish
  have hfirst : ∀ packet ∈ s.processed, ¬ packet.Concerns otherPid := by
    rw [hprocessed, List.forall_mem_singleton]
    exact fun h => absurd (QosPid.exactlyOnce.inj h) (by decide)
  obtain ⟨s', hnext, -, hdelivered, -⟩ :=
    new_message_delivered hs hstage rfl hfirst hroom hm
  exact ⟨s, s', m, hs, hanswer, hdup, hprocessed, hlength, hm, hnext, hdelivered hheld⟩

/-- The connack of the second connection says that there is no session, and the first message with
the pid on it is not delivered, although there is room for it. -/
theorem not_delivered_on_secondMessage :
    ∃ (s s' : Listener 64 8 8 4) (m : ReceivedPublish 8 8),
      Run.run (next qos2Codec sampleConfig none) new secondMessage = some s ∧
        s.answer = some (.connack ⟨false, .accepted⟩) ∧ s.processed = [] ∧
        s.runner.stage = .processing (.publish (qos2Publish [2])) ∧
        s.receives.inner.sendPubrec.isFull = false ∧
        ReceivedPublish.tryFrom (qos2Publish [2]) = .ok m ∧
        s.next qos2Codec sampleConfig none .process = some s' ∧
        m ∉ s'.receives.inner.queue := by
  obtain ⟨m, hm⟩ := received_qos2Publish 2
  have hrun : (Run.run (next qos2Codec sampleConfig none) (new : Listener 64 8 8 4) secondMessage).any
      (fun s => decide (s.answer = some (.connack ⟨false, .accepted⟩) ∧ s.processed = [] ∧
        s.runner.stage = .processing (.publish (qos2Publish [2])) ∧
        s.receives.inner.sendPubrec.isFull = false) &&
        (s.next qos2Codec sampleConfig none .process).any fun s' =>
          s'.receives.inner.queue.all fun received => decide (received.payload.toList = [1])) = true := by
    decide +kernel
  obtain ⟨s, hs, hprops⟩ := (Option.any_eq_true _ _).mp hrun
  obtain ⟨hprops, hnext⟩ := Bool.and_eq_true_iff.mp hprops
  obtain ⟨hanswer, hprocessed, hstage, hroom⟩ := of_decide_eq_true hprops
  obtain ⟨s', hs', hqueue⟩ := (Option.any_eq_true _ _).mp hnext
  refine ⟨s, s', m, hs, hanswer, hprocessed, hstage, hroom, hm, hs', fun hmem => ?_⟩
  have hpayload := of_decide_eq_true (List.all_eq_true.mp hqueue m hmem)
  cases hm
  exact absurd hpayload (by decide)

end Listener

end EmbeddedMqttc
