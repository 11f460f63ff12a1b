import EmbeddedMqttc.PublishSpec
import EmbeddedMqttc.Receive
import EmbeddedMqttc.Sub
import EmbeddedMqttc.Ping
import EmbeddedMqttc.Library.Run

/-!
# The client

`State` of `src/state/mod.rs` without the connection: the calls of users, the packets that
`process_packet` gets and the send phases of `run_once` in any order. Another order of the phases
than the one in `run_once` and other calls between them are possible here, so that what holds
in every run holds for every executor.

The pool of pids is shared: a publish that waits for room has its pid already, and the connection
takes a pid for each chunk of its own subscriptions.
-/

namespace EmbeddedMqttc

open Prog EmbeddedMqttc.Comp

variable {QUEUE BUFFER TOPIC : Nat} {σ α : Type}

namespace State

def newQosPid : QoS → Comp σ QosPid
  | .atMostOnce => return .atMostOnce
  | .atLeastOnce => do return .atLeastOnce (← nextPid)
  | .exactlyOnce => do return .exactlyOnce (← nextPid)

/-- `publish` up to where it waits for room. -/
def newPublish (topic payload : List UInt8) (qos : QoS) (retain : Bool) : Comp σ Publish := do
  let qospid ← newQosPid qos
  return { dup := false, qospid, retain, topicName := topic, payload }

/-- It takes the next pid if the QoS needs one. -/
theorem newQosPid_cases (c : Ctx σ) (qos : QoS) :
    (newQosPid qos).exec c = (.error .panic, c) ∨
      ∃ qospid, qospid.qos = qos ∧
        ((qospid.pid = none ∧ (newQosPid qos).exec c = (.ok qospid, c)) ∨
          ∃ pid pool, c.env.pool.nextPid = some (pid, pool) ∧ qospid.pid = some pid ∧
            (newQosPid qos).exec c = (.ok qospid, { c with env := { c.env with pool } })) := by
  cases qos with
  | atMostOnce => exact .inr ⟨_, rfl, .inl ⟨rfl, rfl⟩⟩
  | atLeastOnce | exactlyOnce =>
    unfold newQosPid
    rcases nextPid_cases c with h | ⟨pid, pool, hpool, h⟩
    · exact .inl (exec_bind_error h)
    · refine .inr ⟨_, ?_, .inr ⟨pid, pool, hpool, ?_, exec_bind_ok h⟩⟩ <;> rfl

theorem newPublish_cases (c : Ctx σ) (topic payload : List UInt8) (qos : QoS) (retain : Bool) :
    (newPublish topic payload qos retain).exec c = (.error .panic, c) ∨
      ∃ message, message.qospid.qos = qos ∧ message.topicName = topic ∧
        message.payload = payload ∧
        ((message.qospid.pid = none ∧
            (newPublish topic payload qos retain).exec c = (.ok message, c)) ∨
          ∃ pid pool, c.env.pool.nextPid = some (pid, pool) ∧ message.qospid.pid = some pid ∧
            (newPublish topic payload qos retain).exec c =
              (.ok message, { c with env := { c.env with pool } })) := by
  rcases newQosPid_cases c qos with h | ⟨qospid, hqos, ⟨hpid, h⟩ | ⟨pid, pool, hpool, hpid, h⟩⟩
  · exact .inl (exec_bind_error h)
  · exact .inr ⟨_, hqos, rfl, rfl, .inl ⟨hpid, exec_bind_ok h⟩⟩
  · exact .inr ⟨_, hqos, rfl, rfl, .inr ⟨pid, pool, hpool, hpid, exec_bind_ok h⟩⟩

end State

/-- `waiting` are the publishes whose calls wait for room, and `autoSubscribe` is the pid of the
chunk of subscriptions that the connection is making. `issued` is history: of each
request that was made, the QoS and the pid if it is a publish. -/
structure Client (QUEUE BUFFER TOPIC : Nat) where
  publishes : PublishesInner QUEUE BUFFER TOPIC
  receives : Receives BUFFER TOPIC QUEUE
  subscribes : SubsInner TOPIC QUEUE
  ping : PingStateInner
  env : Env
  waiting : List (Publish × UniqueID)
  autoSubscribe : Option Pid
  issued : List (Option QosPid)
  deriving DecidableEq

namespace Client

inductive Label where
  | publish (topic payload : List UInt8) (qos : QoS) (retain : Bool) (id : Nat)
  /-- A call of `publish` that waits looks for room. -/
  | poll (i : Nat)
  /-- A call of `publish` that waits is dropped. -/
  | drop (i : Nat)
  | subscribe (topics : List (List UInt8)) (qos : QoS) (id : Nat)
  | unsubscribe (topics : List (List UInt8)) (id : Nat)
  /-- The connection begins with a chunk of its own subscriptions. -/
  | autoSubscribe
  /-- The connection is done with the chunk, in whatever way. -/
  | autoSubscribed
  | sendPublishes (answers : List (Except MqttError Bool)) (ticks : List Duration)
  | sendReceives (answers : List (Except MqttError Bool))
  | sendSubscribes (answers : List (Except MqttError Bool)) (ticks : List Duration)
  | sendPing (answers : List (Except MqttError Bool)) (ticks : List Duration)
  | receive (packet : Packet)
  | wait (d : Duration)

def new : Client QUEUE BUFFER TOPIC where
  publishes := .new
  receives := .new
  subscribes := .new
  ping := .pingSuccess 0
  env := .new
  waiting := []
  autoSubscribe := none
  issued := []

variable (s : Client QUEUE BUFFER TOPIC)

/-! ## Calls of the components -/

def callPublishes (m : PublishesCall QUEUE BUFFER TOPIC α) :
    Except (Stop MqttError) α × Client QUEUE BUFFER TOPIC :=
  let (r, c) := m.exec ⟨s.publishes, s.env⟩
  (r, { s with publishes := c.inner, env := c.env })

def callReceives (m : ReceivesCall BUFFER TOPIC QUEUE α) :
    Except (Stop MqttError) α × Client QUEUE BUFFER TOPIC :=
  let (r, c) := m.exec ⟨s.receives, s.env⟩
  (r, { s with receives := c.inner, env := c.env })

def callSubscribes (m : SubsCall TOPIC QUEUE α) :
    Except (Stop MqttError) α × Client QUEUE BUFFER TOPIC :=
  let (r, c) := m.exec ⟨s.subscribes, s.env⟩
  (r, { s with subscribes := c.inner, env := c.env })

def callPing (m : Comp PingStateInner α) :
    Except (Stop MqttError) α × Client QUEUE BUFFER TOPIC :=
  let (r, c) := m.exec ⟨s.ping, s.env⟩
  (r, { s with ping := c.inner, env := c.env })

/-- The state at the beginning of a send phase. -/
def scripted (answers : List (Except MqttError Bool)) (ticks : List Duration) :
    Client QUEUE BUFFER TOPIC :=
  { s with env := { s.env with answers, ticks } }

def processPacket : Packet → Except (Stop MqttError) Unit × Client QUEUE BUFFER TOPIC
  | .connack _ => (.error .panic, s)
  | .publish message => s.callReceives (Receives.onPublish message)
  | .puback pid => s.callPublishes (Publishes.processIncomingPacket (.puback pid))
  | .pubrec pid => s.callPublishes (Publishes.processIncomingPacket (.pubrec pid))
  | .pubcomp pid => s.callPublishes (Publishes.processIncomingPacket (.pubcomp pid))
  | .pubrel pid => s.callReceives (Receives.onPubrel pid)
  | .suback response => s.callSubscribes (SubsInner.onSuback response)
  | .unsuback pid => s.callSubscribes (SubsInner.onUnsuback pid)
  | .pingresp => s.callPing PingStateInner.onPingResponse
  | _ => (.ok (), s)

/-! ## Steps -/

/-- A call of `publish` begins. -/
def publish (topic payload : List UInt8) (qos : QoS) (retain : Bool) (id : Nat) :
    Except (Stop MqttError) Unit × Client QUEUE BUFFER TOPIC :=
  match s.callPublishes (State.newPublish topic payload qos retain) with
  | (.ok message, s') =>
    (.ok (),
      { s' with
        waiting := s.waiting ++ [(message, ⟨id, s.issued.length⟩)]
        issued := s.issued ++ [some message.qospid] })
  | (.error x, s') => (.error x, s')

/-- A call of `publish` that waits is polled: it goes on waiting, or it ends. -/
def poll (i : Nat) : Except (Stop MqttError) Unit × Client QUEUE BUFFER TOPIC :=
  match s.waiting[i]? with
  | none => (.ok (), s)
  | some (message, uniqueId) =>
    match s.callPublishes (Publishes.publish message uniqueId) with
    | (.error .parked, s') => (.error .parked, s')
    | (r, s') => (r, { s' with waiting := s.waiting.eraseIdx i })

/-- The request gets its number, whether or not it is accepted. -/
def addRequest (m : UniqueID → SubsCall TOPIC QUEUE PUnit) (id : Nat) :
    Except (Stop MqttError) Unit × Client QUEUE BUFFER TOPIC :=
  let (r, s') := s.callSubscribes (m ⟨id, s.issued.length⟩)
  (r, { s' with issued := s.issued ++ [none] })

/-- The connection makes its subscriptions chunk by chunk. -/
def autoSubscribeChunk : Except (Stop MqttError) Unit × Client QUEUE BUFFER TOPIC :=
  match s.autoSubscribe with
  | some _ => (.ok (), s)
  | none =>
    match s.callPublishes nextPid with
    | (.ok pid, s') => (.ok (), { s' with autoSubscribe := some pid })
    | (.error x, s') => (.error x, s')

/-- Forget what a send phase returns. -/
def sent (o : Except (Stop MqttError) SendResult × Client QUEUE BUFFER TOPIC) :
    Except (Stop MqttError) Unit × Client QUEUE BUFFER TOPIC := (o.1.map fun _ => (), o.2)

/-- The outcome of a call and the state that it leaves. `topicPathCapacity` is as in
`SubsInner.send`. -/
def outcome (topicPathCapacity : Nat) :
    Label → Except (Stop MqttError) Unit × Client QUEUE BUFFER TOPIC
  | .publish topic payload qos retain id => s.publish topic payload qos retain id
  | .poll i => s.poll i
  | .drop i => (.ok (), { s with waiting := s.waiting.eraseIdx i })
  | .subscribe topics qos id => s.addRequest (SubsInner.addSubscribeRequest topics qos) id
  | .unsubscribe topics id => s.addRequest (SubsInner.addUnsubscribeRequest topics) id
  | .autoSubscribe => s.autoSubscribeChunk
  | .autoSubscribed => (.ok (), { s with autoSubscribe := none })
  | .sendPublishes answers ticks =>
    sent ((s.scripted answers ticks).callPublishes Publishes.sendPackets)
  | .sendReceives answers => sent ((s.scripted answers []).callReceives Receives.sendPackets)
  | .sendSubscribes answers ticks =>
    sent ((s.scripted answers ticks).callSubscribes (SubsInner.send topicPathCapacity))
  | .sendPing answers ticks => sent ((s.scripted answers ticks).callPing PingStateInner.send)
  | .receive packet => s.processPacket packet
  | .wait d => (.ok (), { s with env := { s.env with now := s.env.now + d } })

def next (topicPathCapacity : Nat) (l : Label) : Option (Client QUEUE BUFFER TOPIC) :=
  some (s.outcome topicPathCapacity l).2

/-- A send phase stops as its component does. -/
theorem sent_error_iff {o : Except (Stop MqttError) SendResult × Client QUEUE BUFFER TOPIC}
    {x : Stop MqttError} : (sent o).1 = .error x ↔ o.1 = .error x := by
  obtain ⟨r, s⟩ := o
  cases r with
  | error y => simp [sent, Except.map]
  | ok a => simp [sent, Except.map]

/-! ## What a request changes -/

/-- The calls of users and the beginning and end of the connection's own subscriptions. -/
def Label.isRequest : Label → Bool
  | .publish .. | .poll _ | .drop _ | .subscribe .. | .unsubscribe .. | .autoSubscribe
  | .autoSubscribed => true
  | _ => false

/-- A request is queued or waits, and it may take a pid. What was sent is not touched. -/
theorem outcome_request (topicPathCapacity : Nat) {l : Label} (hl : l.isRequest = true) :
    ∃ sendPublish sendRequest pool waiting autoSubscribe issued,
      (s.outcome topicPathCapacity l).2 =
        { s with
          publishes := { s.publishes with sendPublish }
          subscribes := { s.subscribes with sendRequest }
          env := { s.env with pool }
          waiting
          autoSubscribe
          issued } := by
  have hadd (requestType : RequestType) (topics : List (List UInt8)) (id : Nat) :
      ∃ sendRequest pool issued,
        (s.addRequest (SubsInner.addRequest requestType topics) id).2 =
          { s with
            subscribes := { s.subscribes with sendRequest }
            env := { s.env with pool }
            issued } := by
    unfold addRequest callSubscribes
    rcases SubsInner.addRequest_cases ⟨s.subscribes, s.env⟩ requestType topics
      ⟨id, s.issued.length⟩ with ⟨x, h⟩ | ⟨request, rest, pool, -, -, -, -, h⟩ <;> rw [h]
    · exact ⟨_, _, _, rfl⟩
    · exact ⟨_, _, _, rfl⟩
  cases l with
  | publish topic payload qos retain id =>
    simp only [outcome, publish, callPublishes]
    rcases State.newPublish_cases ⟨s.publishes, s.env⟩ topic payload qos retain with
      h | ⟨message, -, -, -, ⟨-, h⟩ | ⟨pid, pool, -, -, h⟩⟩ <;> rw [h]
    · exact ⟨_, _, _, _, _, _, rfl⟩
    · exact ⟨_, _, _, _, _, _, rfl⟩
    · exact ⟨_, _, _, _, _, _, rfl⟩
  | poll i =>
    simp only [outcome, poll, callPublishes]
    cases s.waiting[i]? with
    | none => exact ⟨_, _, _, _, _, _, rfl⟩
    | some w =>
      dsimp only
      rcases Publishes.publish_cases ⟨s.publishes, s.env⟩ w.1 w.2 with
        h | ⟨e, -, h⟩ | ⟨entry, queue, -, -, h⟩ <;> rw [h]
      · exact ⟨_, _, _, _, _, _, rfl⟩
      · exact ⟨_, _, _, _, _, _, rfl⟩
      · exact ⟨_, _, _, _, _, _, rfl⟩
  | drop i => exact ⟨_, _, _, _, _, _, rfl⟩
  | subscribe topics qos id =>
    obtain ⟨sendRequest, pool, issued, h⟩ := hadd (.subscribe qos) topics id
    exact ⟨_, sendRequest, pool, _, _, issued, h⟩
  | unsubscribe topics id =>
    obtain ⟨sendRequest, pool, issued, h⟩ := hadd .unsubscribe topics id
    exact ⟨_, sendRequest, pool, _, _, issued, h⟩
  | autoSubscribe =>
    simp only [outcome, autoSubscribeChunk, callPublishes]
    cases s.autoSubscribe with
    | some pid => exact ⟨_, _, _, _, _, _, rfl⟩
    | none =>
      dsimp only
      rcases nextPid_cases ⟨s.publishes, s.env⟩ with h | ⟨pid, pool, -, h⟩ <;> rw [h]
      · exact ⟨_, _, _, _, _, _, rfl⟩
      · exact ⟨_, _, _, _, _, _, rfl⟩
  | autoSubscribed => exact ⟨_, _, _, _, _, _, rfl⟩
  | _ => cases hl

end Client

end EmbeddedMqttc
