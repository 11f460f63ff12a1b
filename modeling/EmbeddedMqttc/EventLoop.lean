import EmbeddedMqttc.Client
import EmbeddedMqttc.Library.PubSubChannel

/-!
# The event loop and its clients

`State::run` of `src/state/mod.rs` and the calls of `src/client.rs` as tasks of one executor, with
the notifications of `src/state/request.rs` and the channel of completion events. A step of a
client's call is one poll of it. A poll of the loop consists of the steps from where it is woken to
where it is suspended, and only the loop moves while `polling` is set.

A call of the loop that holds the mutex of `Publishes` while it puts events in the channel runs
ahead here: its effects on the queues are there at once, which no other task can tell since they are
behind the mutex, and its events are put in the channel one by one before the mutex is released.
-/

namespace EmbeddedMqttc

open Prog EmbeddedMqttc.Comp

variable {QUEUE BUFFER TOPIC : Nat}

/-! ## Notifications -/

inductive RequestNotification where
  | newRequest
  | disconnect
  deriving DecidableEq, Repr

/-- `waker` tells whether the waker of the event loop is registered. -/
structure RequestStateInner where
  waker : Bool
  notification : Option RequestNotification
  deriving DecidableEq, Repr

namespace RequestStateInner

def new : RequestStateInner where
  waker := false
  notification := none

/-- `none` is `Poll::Pending`. A disconnect is not consumed. -/
def pollNotification (self : RequestStateInner) :
    Option RequestNotification × RequestStateInner :=
  match self.notification with
  | some .disconnect => (some .disconnect, self)
  | some other => (some other, { self with notification := none })
  | none => (none, { self with waker := true })

/-- The waker is woken, and it has to be registered again. -/
def notify (notification : RequestNotification) (self : RequestStateInner) :
    RequestStateInner where
  waker := false
  notification :=
    match self.notification with
    | some .disconnect => some .disconnect
    | _ => some notification

end RequestStateInner

/-! ## Calls of clients -/

inductive Request where
  | publish (message : Publish)
  | subscribe (topic : List UInt8) (qos : QoS)
  | unsubscribe (topic : List UInt8)
  deriving DecidableEq, Repr

/-- The events that the closure given to `await_event` takes for the completion of a request. -/
def Request.accepts (id : Nat) : Request → MqttEvent → Bool
  | .publish _, .publishDone uniqueId => uniqueId.id == id
  | .subscribe .., .subscribeDone uniqueId _ => uniqueId.id == id
  | .unsubscribe _, .unsubscribeDone uniqueId => uniqueId.id == id
  | _, _ => false

/-- A call waits until its request is queued and then for the completion event. It ends with this
event, or without one when it panics or is dropped. -/
inductive CallPhase where
  | waiting
  | awaiting
  | ended (received : Option MqttEvent)
  deriving DecidableEq

/-- `since` is history: how many events had been put in the channel when the request was queued. -/
structure ClientCall where
  request : Request
  uniqueId : UniqueID
  phase : CallPhase
  since : Nat
  deriving DecidableEq

def ClientCall.accepts (call : ClientCall) : MqttEvent → Bool :=
  call.request.accepts call.uniqueId.id

/-! ## The loop -/

/-- Where `run` is. -/
inductive LoopStage where
  | stopped
  /-- `run` sleeps after an error, or `run_once` begins and connects unless it is connected. -/
  | start
  | sendReceives
  | sendSubscribes
  | sendPing
  | runIoNonblocking
  | select
  | process (packet : Packet)
  deriving DecidableEq

/-- A call that holds the mutex of `Publishes`, with its result. -/
inductive LockedCall where
  | sendPackets (result : Except (Stop MqttError) SendResult)
  | processIncomingPacket (result : Except (Stop MqttError) Unit)
  deriving DecidableEq

inductive Loop where
  | going (stage : LoopStage)
  /-- An event is to be put in the channel, and then the others, before the mutex is released. -/
  | publishing (event : MqttEvent) (rest : List MqttEvent) (call : LockedCall)
  deriving DecidableEq

/-- The errors after which `run` connects again. -/
def MqttError.isRecoverable : MqttError → Bool
  | connectionFailed2 _ | connackError | codecError _ | receivedMessageTooLong | queueFull _
  | unexpectedAck _ => true
  | _ => false

namespace LoopStage

/-- A panic ends the loop. -/
def afterStop : Stop MqttError → LoopStage
  | .fail e => if e.isRecoverable then start else stopped
  | _ => stopped

/-- `send_packet_result` decides what comes after a send phase. -/
def afterSend (next : LoopStage) : Except (Stop MqttError) SendResult → LoopStage
  | .ok .sentAll => next
  | .ok .partiallySent => runIoNonblocking
  | .error x => afterStop x

def afterProcess : Except (Stop MqttError) Unit → LoopStage
  | .ok () => start
  | .error x => afterStop x

/-- The stages that wait for the connection, for the channel to the application or in `sleep`. The
others wait only in the event channel and in `select3`. -/
def suspends : LoopStage → Bool
  | start | runIoNonblocking | process (.publish _) => true
  | _ => false

end LoopStage

def LockedCall.next : LockedCall → LoopStage
  | sendPackets result => .afterSend .sendReceives result
  | processIncomingPacket result => .afterProcess result

abbrev EventChannel := PubSubChannel Nat MqttEvent 8 16

/-- A subscriber of `events` is the number of a call. `polling` tells that the executor polls the
loop, and `woken` that it has been woken since its last poll. `emitted` is history: all events that
were put in the channel. -/
structure Executor (QUEUE BUFFER TOPIC : Nat) where
  client : Client QUEUE BUFFER TOPIC
  events : EventChannel
  onRequestAdded : RequestStateInner
  calls : List ClientCall
  loop : Loop
  polling : Bool
  woken : Bool
  emitted : List MqttEvent
  deriving DecidableEq

namespace Executor

/-- What the futures of the ping and of the connection give in `select3` when there is no
notification. -/
inductive Ready where
  | pending
  | ping
  | io (outcome : Except MqttError Packet)

inductive LoopLabel where
  | connectFails (e : MqttError)
  /-- The connection begins with a chunk of its own subscriptions. -/
  | autoSubscribe
  | autoSubscribed
  | suspend
  | sendPublishes (answers : List (Except MqttError Bool)) (ticks : List Duration)
  /-- The next event is put in the channel, or the loop is suspended. -/
  | emit
  | sendReceives (answers : List (Except MqttError Bool))
  | sendSubscribes (answers : List (Except MqttError Bool)) (ticks : List Duration)
  | sendPing (answers : List (Except MqttError Bool)) (ticks : List Duration)
  | runIoNonblocking (outcome : Except MqttError (Option Packet))
  | select (ready : Ready)
  | process (ticks : List Duration)

inductive ClientLabel where
  | publish (topic payload : List UInt8) (qos : QoS) (retain : Bool) (id : Nat)
  | subscribe (topic : List UInt8) (qos : QoS) (id : Nat)
  | unsubscribe (topic : List UInt8) (id : Nat)
  /-- The executor polls a call. -/
  | poll (i : Nat)
  /-- A call is dropped. -/
  | drop (i : Nat)
  | disconnect

inductive Label where
  /-- `run` is called again after it has returned. -/
  | run
  /-- The executor begins to poll the loop. -/
  | wake
  | loop (l : LoopLabel)
  | client (l : ClientLabel)

def new : Executor QUEUE BUFFER TOPIC where
  client := .new
  events := .new
  onRequestAdded := .new
  calls := []
  loop := .going .start
  polling := false
  woken := false
  emitted := []

variable (s : Executor QUEUE BUFFER TOPIC)

/-! ### The calls -/

/-- Whether the loop holds the mutex of `Publishes` while it is suspended. -/
def publishesLocked : Bool :=
  match s.loop with
  | .publishing .. => true
  | .going _ => false

def notify (notification : RequestNotification) : Executor QUEUE BUFFER TOPIC :=
  { s with
    woken := s.woken || s.onRequestAdded.waker
    onRequestAdded := s.onRequestAdded.notify notification }

/-- The subscriber of the call is dropped with it. -/
def finish (i : Nat) (received : Option MqttEvent) : Executor QUEUE BUFFER TOPIC :=
  { s with
    calls := s.calls.modify i fun call => { call with phase := .ended received }
    events := s.events.unsubscribe i }

/-- A call tries to queue its request. -/
def attempt (call : ClientCall) : Except (Stop MqttError) PUnit × Client QUEUE BUFFER TOPIC :=
  match call.request with
  | .publish message =>
    if s.publishesLocked then (.error .parked, s.client)
    else s.client.callPublishes (Publishes.publish message call.uniqueId)
  | .subscribe topic qos =>
    s.client.callSubscribes (SubsInner.addSubscribeRequest [topic] qos call.uniqueId)
  | .unsubscribe topic =>
    s.client.callSubscribes (SubsInner.addUnsubscribeRequest [topic] call.uniqueId)

/-- The loop of `await_event`, up to where there is no message or an accepted one. The last argument
is the number of messages there are. -/
def readEvents (accepts : MqttEvent → Bool) (i : Nat) :
    EventChannel → Nat → Option MqttEvent × EventChannel
  | events, 0 => (none, events)
  | events, n + 1 =>
    match events.nextMessage i with
    | none => (none, events)
    | some (event, events) =>
      if accepts event then (some event, events) else readEvents accepts i events n

def awaitEvent (i : Nat) (accepts : MqttEvent → Bool) : Executor QUEUE BUFFER TOPIC :=
  match readEvents accepts i s.events ((s.events.unread i).getD []).length with
  | (none, events) => { s with events }
  | (some event, events) => { s with events }.finish i (some event)

/-- A request has been queued. -/
def requestAdded (i : Nat) : Executor QUEUE BUFFER TOPIC :=
  { s.notify .newRequest with
    calls := s.calls.modify i fun call => { call with phase := .awaiting, since := s.emitted.length } }

def poll (i : Nat) : Executor QUEUE BUFFER TOPIC :=
  match s.calls[i]? with
  | none => s
  | some call =>
    match call.phase with
    | .ended _ => s
    | .awaiting => s.awaitEvent i call.accepts
    | .waiting =>
      match s.attempt call with
      | (.ok _, client) => ({ s with client }.requestAdded i).awaitEvent i call.accepts
      | (.error .parked, client) => { s with client }
      | (.error _, client) => { s with client }.finish i none

/-- The first poll of a call. It returns with an error when there are too many subscribers. -/
def newCall (request : Request) (id : Nat) : Executor QUEUE BUFFER TOPIC :=
  match s.events.subscribe s.calls.length with
  | none => s
  | some events =>
    let call : ClientCall :=
      { request, uniqueId := ⟨id, s.calls.length⟩, phase := .waiting, since := 0 }
    { s with events, calls := s.calls ++ [call] }.poll s.calls.length

/-- A publish has its pid before it waits for the mutex. -/
def publish (topic payload : List UInt8) (qos : QoS) (retain : Bool) (id : Nat) :
    Executor QUEUE BUFFER TOPIC :=
  match s.events.subscribe s.calls.length with
  | none => s
  | some _ =>
    match s.client.callPublishes (State.newPublish topic payload qos retain) with
    | (.error _, client) => { s with client }
    | (.ok message, client) => { s with client }.newCall (.publish message) id

def drop (i : Nat) : Executor QUEUE BUFFER TOPIC :=
  match (s.calls[i]?).map ClientCall.phase with
  | some .waiting | some .awaiting => s.finish i none
  | _ => s

/-! ### The event loop -/

/-- A poll ends when `run` returns. -/
def goTo (stage : LoopStage) : Executor QUEUE BUFFER TOPIC :=
  { s with
    loop := .going stage
    polling := stage ≠ .stopped }

/-- The events that a call has added. -/
def newEvents (client : Client QUEUE BUFFER TOPIC) : List MqttEvent :=
  client.env.events.drop s.client.env.events.length

/-- The mutex of `Publishes` is held until all events are in the channel. -/
def hold (events : List MqttEvent) (call : LockedCall) : Executor QUEUE BUFFER TOPIC :=
  match events with
  | [] => s.goTo call.next
  | event :: rest => { s with loop := .publishing event rest call }

def publishImmediate (event : MqttEvent) : Executor QUEUE BUFFER TOPIC :=
  { s with
    events := s.events.publishImmediate event
    emitted := s.emitted ++ [event] }

/-! ### Steps -/

/-- A step of the loop at a stage. -/
def whenAt (stage : LoopStage) (t : Executor QUEUE BUFFER TOPIC) :
    Option (Executor QUEUE BUFFER TOPIC) :=
  if s.loop = .going stage then some t else none

/-- The first send phase. -/
def sendPublishes (answers : List (Except MqttError Bool)) (ticks : List Duration) :
    Executor QUEUE BUFFER TOPIC :=
  let (result, client) := (s.client.scripted answers ticks).callPublishes Publishes.sendPackets
  { s with client }.hold (s.newEvents client) (.sendPackets result)

/-- Another send phase. -/
def sent (next : LoopStage) (o : Except (Stop MqttError) SendResult × Client QUEUE BUFFER TOPIC) :
    Executor QUEUE BUFFER TOPIC :=
  { s with client := o.2 }.goTo (.afterSend next o.1)

def emit : Option (Executor QUEUE BUFFER TOPIC) :=
  match s.loop with
  | .going _ => none
  | .publishing event rest call =>
    match s.events.publish event with
    | none => some { s with polling := false }
    | some events =>
      some ({ s with events, emitted := s.emitted ++ [event] }.hold rest call)

/-- `select3` looks at the notification first. -/
def select (ready : Ready) : Executor QUEUE BUFFER TOPIC :=
  match s.onRequestAdded.pollNotification with
  | (some .disconnect, onRequestAdded) => { s with onRequestAdded }.goTo .stopped
  | (some .newRequest, onRequestAdded) => { s with onRequestAdded }.goTo .start
  | (none, onRequestAdded) =>
    match ready with
    | .pending => { s with onRequestAdded, polling := false }
    | .ping => { s with onRequestAdded }.goTo .start
    | .io (.ok packet) => { s with onRequestAdded }.goTo (.process packet)
    | .io (.error e) => { s with onRequestAdded }.goTo (.afterStop (.fail e))

/-- `process_packet`: `Publishes` puts its events in the channel with `publish` and `Subs` with
`publish_immediate`. -/
def process (packet : Packet) (ticks : List Duration) : Executor QUEUE BUFFER TOPIC :=
  let (result, client) := (s.client.scripted [] ticks).processPacket packet
  match packet with
  | .puback _ | .pubrec _ | .pubcomp _ =>
    { s with client }.hold (s.newEvents client) (.processIncomingPacket result)
  | _ =>
    ((s.newEvents client).foldl publishImmediate { s with client }).goTo (.afterProcess result)

/-- `topicPathCapacity` is as in `SubsInner.send`. -/
def loopStep (topicPathCapacity : Nat) : LoopLabel → Option (Executor QUEUE BUFFER TOPIC)
  | .connectFails e => s.whenAt .start (s.goTo (.afterStop (.fail e)))
  | .autoSubscribe =>
    s.whenAt .start <|
      match s.client.autoSubscribeChunk with
      | (.ok (), client) => { s with client }
      | (.error x, client) => { s with client }.goTo (.afterStop x)
  | .autoSubscribed => s.whenAt .start { s with client := { s.client with autoSubscribe := none } }
  | .suspend =>
    match s.loop with
    | .going stage => if stage.suspends then some { s with polling := false } else none
    | .publishing .. => none
  | .sendPublishes answers ticks => s.whenAt .start (s.sendPublishes answers ticks)
  | .emit => s.emit
  | .sendReceives answers =>
    s.whenAt .sendReceives <|
      s.sent .sendSubscribes ((s.client.scripted answers []).callReceives Receives.sendPackets)
  | .sendSubscribes answers ticks =>
    s.whenAt .sendSubscribes <|
      s.sent .sendPing
        ((s.client.scripted answers ticks).callSubscribes (SubsInner.send topicPathCapacity))
  | .sendPing answers ticks =>
    s.whenAt .sendPing <|
      s.sent .select ((s.client.scripted answers ticks).callPing PingStateInner.send)
  | .runIoNonblocking outcome =>
    s.whenAt .runIoNonblocking <|
      match outcome with
      | .ok none => s.goTo .start
      | .ok (some packet) => s.goTo (.process packet)
      | .error e => s.goTo (.afterStop (.fail e))
  | .select ready => s.whenAt .select (s.select ready)
  | .process ticks =>
    match s.loop with
    | .going (.process packet) => some (s.process packet ticks)
    | _ => none

def clientStep : ClientLabel → Executor QUEUE BUFFER TOPIC
  | .publish topic payload qos retain id => s.publish topic payload qos retain id
  | .subscribe topic qos id => s.newCall (.subscribe topic qos) id
  | .unsubscribe topic id => s.newCall (.unsubscribe topic) id
  | .poll i => s.poll i
  | .drop i => s.drop i
  | .disconnect => s.notify .disconnect

/-- The calls of clients move only while the loop is suspended. -/
def next (topicPathCapacity : Nat) : Label → Option (Executor QUEUE BUFFER TOPIC)
  | .run => if s.polling then none else s.whenAt .stopped (s.goTo .start)
  | .wake =>
    if s.polling ∨ s.loop = .going .stopped then none
    else some { s with polling := true, woken := false }
  | .loop l => if s.polling then s.loopStep topicPathCapacity l else none
  | .client l => if s.polling then none else some (s.clientStep l)

end Executor

end EmbeddedMqttc
