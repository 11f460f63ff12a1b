import EmbeddedMqttc.EventLoopSpec
import EmbeddedMqttc.UniqueIdPool

/-!
# Calls with their unique ids

`MqttClient::publish`, `subscribe` and `unsubscribe` of `src/client.rs` on one `State`: a call takes an
id from the pool of `UniqueIdPool`, subscribes to the events, lets the state queue its request, waits for
the event with its id and frees the id. Each step tells what it gives to its caller. The id of a
call that is dropped, panics or fails is never freed.
-/

namespace EmbeddedMqttc

open Prog EmbeddedMqttc.Comp

variable {QUEUE BUFFER TOPIC : Nat}

/-- What a poll of a call gives. -/
inductive CallOutcome where
  | pending
  | returned (result : Except MqttError Unit)
  | panicked
  deriving DecidableEq

/-- What a call that has received its event returns. -/
def MqttEvent.result : MqttEvent → Except MqttError Unit
  | .subscribeDone _ result => result.map fun _ => ()
  | _ => .ok ()

/-- The pool is shared with the clients of other states: `elsewhere` are the ids that they have in
use. -/
structure MqttClients (QUEUE BUFFER TOPIC : Nat) where
  executor : Executor QUEUE BUFFER TOPIC
  ids : UniqueIds
  elsewhere : List Nat
  deriving DecidableEq

namespace MqttClients

/-- The polls of calls. A call is made when it is polled for the first time. -/
inductive CallLabel where
  | publish (topic payload : List UInt8) (qos : QoS) (retain : Bool)
  | subscribe (topic : List UInt8) (qos : QoS)
  | unsubscribe (topic : List UInt8)
  | poll (i : Nat)

inductive Label where
  | call (l : CallLabel)
  | drop (i : Nat)
  | disconnect
  | run
  | wake
  | loop (l : Executor.LoopLabel)
  /-- A client of another state takes an id. -/
  | takeElsewhere
  | freeElsewhere (id : Nat)

def new : MqttClients QUEUE BUFFER TOPIC where
  executor := .new
  ids := .new
  elsewhere := []

variable (s : MqttClients QUEUE BUFFER TOPIC)

/-- The outcome of a poll of the call `i`. A call that has received its event frees its id and
returns. There is no call if it has panicked before it was made. -/
def settle (i : Nat) : CallOutcome × MqttClients QUEUE BUFFER TOPIC :=
  match s.executor.calls[i]? with
  | none => (.panicked, s)
  | some call =>
    match call.phase with
    | .waiting | .awaiting => (.pending, s)
    | .ended none => (.panicked, s)
    | .ended (some event) =>
      match s.ids.giveBack call.uniqueId.id with
      | none => (.panicked, s)
      | some ids => (.returned event.result, { s with ids })

/-- `UniqueID::new` and `subscribe_events`, whose error ends the call at once, come before the rest of
a call. -/
def start (l : Nat → Executor.ClientLabel) : CallOutcome × MqttClients QUEUE BUFFER TOPIC :=
  match s.ids.take with
  | none => (.panicked, s)
  | some (id, ids) =>
    match s.executor.events.subscribe s.executor.calls.length with
    | none => (.returned (.error .pubsubError), { s with ids })
    | some _ =>
      { s with executor := s.executor.clientStep (l id), ids }.settle s.executor.calls.length

def call : CallLabel → CallOutcome × MqttClients QUEUE BUFFER TOPIC
  | .publish topic payload qos retain => s.start (.publish topic payload qos retain)
  | .subscribe topic qos => s.start (.subscribe topic qos)
  | .unsubscribe topic => s.start (.unsubscribe topic)
  | .poll i =>
    match (s.executor.calls[i]?).map ClientCall.phase with
    | some .waiting | some .awaiting => { s with executor := s.executor.poll i }.settle i
    | _ => (.pending, s)

def onExecutor (topicPathCapacity : Nat) (l : Executor.Label) :
    Option (MqttClients QUEUE BUFFER TOPIC) :=
  (s.executor.next topicPathCapacity l).map fun executor => { s with executor }

/-- The calls move only while the loop is suspended, and the clients of other states at any time. -/
def next (topicPathCapacity : Nat) : Label → Option (MqttClients QUEUE BUFFER TOPIC)
  | .call l => if s.executor.polling then none else some (s.call l).2
  | .drop i => s.onExecutor topicPathCapacity (.client (.drop i))
  | .disconnect => s.onExecutor topicPathCapacity (.client .disconnect)
  | .run => s.onExecutor topicPathCapacity .run
  | .wake => s.onExecutor topicPathCapacity .wake
  | .loop l => s.onExecutor topicPathCapacity (.loop l)
  | .takeElsewhere => s.ids.take.map fun (id, ids) => { s with ids, elsewhere := id :: s.elsewhere }
  | .freeElsewhere id =>
    if id ∈ s.elsewhere then
      (s.ids.giveBack id).map fun ids => { s with ids, elsewhere := s.elsewhere.erase id }
    else none

end MqttClients

/-! ## How a call begins -/

/-- A publish is made unless it needs a pid and there is none. -/
theorem State.newPublish_error {σ : Type} {c : Ctx σ} {topic payload : List UInt8} {qos : QoS}
    {retain : Bool} (h : (State.newPublish topic payload qos retain).exec c = (.error .panic, c)) :
    qos ≠ .atMostOnce ∧ c.env.pool.nextPid = none := by
  cases qos with
  | atMostOnce => cases h
  | atLeastOnce | exactlyOnce =>
    refine ⟨nofun, ?_⟩
    cases hpool : c.env.pool.nextPid with
    | none => rfl
    | some next =>
      simp [State.newPublish, State.newQosPid, nextPid, exec_bind, hpool] at h

namespace Executor

variable {s : Executor QUEUE BUFFER TOPIC} {channel : EventChannel}

/-- A call that has subscribed to the events and is about to queue its request. -/
def begun (s : Executor QUEUE BUFFER TOPIC) (pool : PidPool PID_POOL_SIZE) (channel : EventChannel)
    (request : Request) (id : Nat) : Executor QUEUE BUFFER TOPIC :=
  { s with
    client := { s.client with env := { s.client.env with pool } }
    events := channel
    calls := s.calls ++
      [{ request, uniqueId := ⟨id, s.calls.length⟩, phase := .waiting, since := 0 }] }

theorem newCall_begun (hsubscribe : s.events.subscribe s.calls.length = some channel)
    (request : Request) (id : Nat) : s.newCall request id =
      (s.begun s.client.env.pool channel request id).poll s.calls.length := by
  rw [newCall, hsubscribe]
  rfl

/-- The first poll of a publish takes a pid if the QoS needs one. -/
theorem publish_begun (hsubscribe : s.events.subscribe s.calls.length = some channel)
    (topic payload : List UInt8) (qos : QoS) (retain : Bool) (id : Nat) :
    (qos ≠ .atMostOnce ∧ s.client.env.pool.nextPid = none ∧
      s.publish topic payload qos retain id = s) ∨
    ∃ message pool, (qos = .atMostOnce ∨ s.client.env.pool.nextPid ≠ none) ∧
      message.topicName = topic ∧ message.payload = payload ∧
      s.publish topic payload qos retain id =
        (s.begun pool channel (.publish message) id).poll s.calls.length := by
  unfold publish
  rw [hsubscribe]
  dsimp only [Client.callPublishes]
  rcases State.newPublish_cases ⟨s.client.publishes, s.client.env⟩ topic payload qos retain with
    h | ⟨message, hqos, htopic, hpayload, ⟨hpid, h⟩ | ⟨pid, pool, hpool, hpid, h⟩⟩
  · obtain ⟨hqos, hpool⟩ := State.newPublish_error h
    rw [h]
    exact .inl ⟨hqos, hpool, rfl⟩
  · rw [h]
    refine .inr ⟨message, s.client.env.pool, .inl ?_, htopic, hpayload, newCall_begun hsubscribe _ _⟩
    rw [← hqos]
    exact QosPid.qos_eq_atMostOnce hpid
  · let t : Executor QUEUE BUFFER TOPIC :=
      { s with client := { s.client with env := { s.client.env with pool } } }
    have hbegun := newCall_begun (s := t) hsubscribe (.publish message) id
    rw [h]
    refine .inr ⟨message, pool, .inr ?_, htopic, hpayload, hbegun⟩
    rw [hpool]
    exact nofun

end Executor

namespace MqttClients

variable {s : MqttClients QUEUE BUFFER TOPIC}

theorem start_cases (l : Nat → Executor.ClientLabel) :
    (s.ids.take = none ∧ s.start l = (.panicked, s)) ∨
    ∃ id ids, s.ids.take = some (id, ids) ∧
      ((s.executor.events.subscribe s.executor.calls.length = none ∧
          s.start l = (.returned (.error .pubsubError), { s with ids })) ∨
        ∃ channel, s.executor.events.subscribe s.executor.calls.length = some channel ∧
          s.start l = settle { s with executor := s.executor.clientStep (l id), ids }
            s.executor.calls.length) := by
  unfold start
  cases htake : s.ids.take with
  | none => exact .inl ⟨rfl, rfl⟩
  | some taken =>
    obtain ⟨id, ids⟩ := taken
    refine .inr ⟨id, ids, rfl, ?_⟩
    cases hsubscribe : s.executor.events.subscribe s.executor.calls.length with
    | none => exact .inl ⟨rfl, rfl⟩
    | some channel => exact .inr ⟨channel, rfl, rfl⟩

end MqttClients

end EmbeddedMqttc
