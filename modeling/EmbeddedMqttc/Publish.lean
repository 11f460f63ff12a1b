import EmbeddedMqttc.Component

/-!
# Outgoing publishes

`Publishes` of `src/state/publish2.rs`: a publish waits in `send_publish` until it is written, and
then in `await_puback` (QoS 1) or in `await_pubrec`, `send_pubrel` and `await_pubcomp` (QoS 2) until
the peer has acknowledged it.
-/

namespace EmbeddedMqttc

open Prog EmbeddedMqttc.Comp

structure OwnedPublish (BUFFER TOPIC_SIZE : Nat) where
  dup : Bool
  qospid : QosPid
  retain : Bool
  topicName : BoundedVec UInt8 TOPIC_SIZE
  payload : BoundedVec UInt8 BUFFER
  uniqueId : UniqueID
  deriving DecidableEq, Repr

variable {PARALLEL_PUBLISHES BUFFER TOPIC_SIZE : Nat}

namespace OwnedPublish

def borrow (self : OwnedPublish BUFFER TOPIC_SIZE) : Packet :=
  .publish
    { dup := self.dup
      qospid := self.qospid
      retain := self.retain
      topicName := self.topicName.toList
      payload := self.payload.toList }

def newFromPublish (publish : Publish) (uniqueId : UniqueID) :
    Except MqttError (OwnedPublish BUFFER TOPIC_SIZE) :=
  match BoundedVec.ofList? publish.topicName with
  | none => .error .topicSizeError
  | some topicName =>
    match BoundedVec.ofList? publish.payload with
    | none => .error .bufferTooSmall
    | some payload =>
      .ok
        { dup := publish.dup
          qospid := publish.qospid
          retain := publish.retain
          topicName
          payload
          uniqueId }

end OwnedPublish

structure AwaitPuback (BUFFER TOPIC_SIZE : Nat) where
  pid : Pid
  publish : OwnedPublish BUFFER TOPIC_SIZE
  publishSent : Instant
  deriving DecidableEq, Repr

structure AwaitPubrec (BUFFER TOPIC_SIZE : Nat) where
  pid : Pid
  publish : OwnedPublish BUFFER TOPIC_SIZE
  publishSent : Instant
  deriving DecidableEq, Repr

structure AwaitPubcomp where
  pid : Pid
  pubrelSent : Instant
  uniqueId : UniqueID
  deriving DecidableEq, Repr

/-- A PUBREC for which there is no entry is answered too, so there may be no unique id. -/
structure SendPubrel where
  pid : Pid
  uniqueId : Option UniqueID
  deriving DecidableEq, Repr

def SendPubrel.newAnonymous (pid : Pid) : SendPubrel where
  pid := pid
  uniqueId := none

def SendPubrel.from (value : AwaitPubrec BUFFER TOPIC_SIZE) : SendPubrel where
  pid := value.pid
  uniqueId := some value.publish.uniqueId

structure PublishesInner (PARALLEL_PUBLISHES BUFFER TOPIC_SIZE : Nat) where
  sendPublish : BoundedVec (OwnedPublish BUFFER TOPIC_SIZE) PARALLEL_PUBLISHES
  awaitPuback : BoundedVec (AwaitPuback BUFFER TOPIC_SIZE) PARALLEL_PUBLISHES
  awaitPubrec : BoundedVec (AwaitPubrec BUFFER TOPIC_SIZE) PARALLEL_PUBLISHES
  sendPubrel : BoundedVec SendPubrel PARALLEL_PUBLISHES
  awaitPubcomp : BoundedVec AwaitPubcomp PARALLEL_PUBLISHES
  deriving DecidableEq, Repr

abbrev PublishesCall (PARALLEL_PUBLISHES BUFFER TOPIC_SIZE : Nat) :=
  Comp (PublishesInner PARALLEL_PUBLISHES BUFFER TOPIC_SIZE)

section

variable {σ : Type}

def AwaitPuback.from (value : OwnedPublish BUFFER TOPIC_SIZE) :
    Comp σ (AwaitPuback BUFFER TOPIC_SIZE) :=
  match value.qospid with
  | .atLeastOnce pid => do return { pid, publish := value, publishSent := ← timeNow }
  | _ => abort

def AwaitPubrec.from (value : OwnedPublish BUFFER TOPIC_SIZE) :
    Comp σ (AwaitPubrec BUFFER TOPIC_SIZE) :=
  match value.qospid with
  | .exactlyOnce pid => do return { pid, publish := value, publishSent := ← timeNow }
  | _ => abort

def AwaitPubcomp.from (value : SendPubrel) : Comp σ AwaitPubcomp := do
  let pubrelSent ← timeNow
  let uniqueId ← unwrap value.uniqueId
  return { pid := value.pid, pubrelSent, uniqueId }

end

namespace PublishesInner

def new : PublishesInner PARALLEL_PUBLISHES BUFFER TOPIC_SIZE where
  sendPublish := .empty
  awaitPuback := .empty
  awaitPubrec := .empty
  sendPubrel := .empty
  awaitPubcomp := .empty

/-! ## Incoming packets -/

def processPuback (pid : Pid) : PublishesCall PARALLEL_PUBLISHES BUFFER TOPIC_SIZE Unit := do
  let c ← get
  match c.inner.awaitPuback.position (·.pid == pid) with
  | some index => do
    let publish ← unwrap (c.inner.awaitPuback.get? index)
    modifyInner fun q => { q with awaitPuback := q.awaitPuback.removeAt index }
    freePid publish.pid
    publishEvent (.publishDone publish.publish.uniqueId)
  | none => fail (.unexpectedAck pid)

def processPubrec (pid : Pid) : PublishesCall PARALLEL_PUBLISHES BUFFER TOPIC_SIZE Unit := do
  let c ← get
  let sendPubrel ← match c.inner.awaitPubrec.position (·.pid == pid) with
    | some index => do
      let awaitPubrec ← unwrap (c.inner.awaitPubrec.get? index)
      modifyInner fun q => { q with awaitPubrec := q.awaitPubrec.removeAt index }
      pure (SendPubrel.from awaitPubrec)
    | none => pure (SendPubrel.newAnonymous pid)
  match c.inner.sendPubrel.push sendPubrel with
  | some queue => modifyInner fun q => { q with sendPubrel := queue }
  | none => fail (.queueFull (.exactlyOnce sendPubrel.pid))

def processPubcomp (pid : Pid) : PublishesCall PARALLEL_PUBLISHES BUFFER TOPIC_SIZE Unit := do
  let c ← get
  match c.inner.awaitPubcomp.position (·.pid == pid) with
  | some index => do
    let publish ← unwrap (c.inner.awaitPubcomp.get? index)
    modifyInner fun q => { q with awaitPubcomp := q.awaitPubcomp.removeAt index }
    freePid publish.pid
    publishEvent (.publishDone publish.uniqueId)
  | none => fail (.unexpectedAck pid)

/-! ## Sending -/

/-- Whether the queue that a written publish goes to has room. -/
def hasSpace (q : PublishesInner PARALLEL_PUBLISHES BUFFER TOPIC_SIZE) : QoS → Bool
  | .atMostOnce => true
  | .atLeastOnce => !q.awaitPuback.isFull
  | .exactlyOnce => !q.awaitPubrec.isFull

/-- What becomes of a publish after it has been written. A `push_unchecked` on a full vector is a
panic here. -/
def afterPublish (current : OwnedPublish BUFFER TOPIC_SIZE) :
    PublishesCall PARALLEL_PUBLISHES BUFFER TOPIC_SIZE PUnit :=
  match current.qospid.qos with
  | .atMostOnce => publishEvent (.publishDone current.uniqueId)
  | .atLeastOnce => do
    let entry ← AwaitPuback.from current
    let queue ← unwrap ((← get).inner.awaitPuback.push entry)
    modifyInner fun q => { q with awaitPuback := queue }
  | .exactlyOnce => do
    let entry ← AwaitPubrec.from current
    let queue ← unwrap ((← get).inner.awaitPubrec.push entry)
    modifyInner fun q => { q with awaitPubrec := queue }

def sendPendingPublishesTurn (i : Nat) :
    PublishesCall PARALLEL_PUBLISHES BUFFER TOPIC_SIZE (SendResult ⊕ Nat) := do
  let c ← get
  let current ← unwrap (c.inner.sendPublish.get? i)
  if c.inner.hasSpace current.qospid.qos then
    if ← tryWritePacket ⟨current.borrow, some current.uniqueId⟩ then do
      modifyInner fun q => { q with sendPublish := q.sendPublish.removeAt i }
      afterPublish { current with dup := true }
      return .inr i
    else return .inl .partiallySent
  else return .inr (i + 1)

def sendPendingPublishes : PublishesCall PARALLEL_PUBLISHES BUFFER TOPIC_SIZE SendResult := do
  let c ← get
  whileIndex (fun c => c.inner.sendPublish.len) sendPendingPublishesTurn .sentAll
    c.inner.sendPublish.len 0

def sendPendingPubrelTurn (i : Nat) :
    PublishesCall PARALLEL_PUBLISHES BUFFER TOPIC_SIZE (SendResult ⊕ Nat) := do
  let c ← get
  let current ← unwrap (c.inner.sendPubrel.get? i)
  if !c.inner.awaitPubcomp.isFull then
    if ← tryWritePacket ⟨.pubrel current.pid, current.uniqueId⟩ then do
      modifyInner fun q => { q with sendPubrel := q.sendPubrel.removeAt i }
      let entry ← AwaitPubcomp.from current
      let queue ← unwrap ((← get).inner.awaitPubcomp.push entry)
      modifyInner fun q => { q with awaitPubcomp := queue }
      return .inr i
    else return .inl .partiallySent
  else return .inr (i + 1)

def sendPendingPubrel : PublishesCall PARALLEL_PUBLISHES BUFFER TOPIC_SIZE SendResult := do
  let c ← get
  whileIndex (fun c => c.inner.sendPubrel.len) sendPendingPubrelTurn .sentAll
    c.inner.sendPubrel.len 0

/-! ### Retransmission -/

def pubackResend : Resend (PublishesInner PARALLEL_PUBLISHES BUFFER TOPIC_SIZE)
    (AwaitPuback BUFFER TOPIC_SIZE) PARALLEL_PUBLISHES where
  queue q := q.awaitPuback
  modify f q := { q with awaitPuback := f q.awaitPuback }
  sentAt pending := pending.publishSent
  packet pending := .ok pending.publish.borrow
  request pending := pending.publish.uniqueId
  mark now pending := { pending with publishSent := now }

def pubrecResend : Resend (PublishesInner PARALLEL_PUBLISHES BUFFER TOPIC_SIZE)
    (AwaitPubrec BUFFER TOPIC_SIZE) PARALLEL_PUBLISHES where
  queue q := q.awaitPubrec
  modify f q := { q with awaitPubrec := f q.awaitPubrec }
  sentAt pending := pending.publishSent
  packet pending := .ok pending.publish.borrow
  request pending := pending.publish.uniqueId
  mark now pending := { pending with publishSent := now }

def pubcompResend : Resend (PublishesInner PARALLEL_PUBLISHES BUFFER TOPIC_SIZE)
    AwaitPubcomp PARALLEL_PUBLISHES where
  queue q := q.awaitPubcomp
  modify f q := { q with awaitPubcomp := f q.awaitPubcomp }
  sentAt pending := pending.pubrelSent
  packet pending := .ok (.pubrel pending.pid)
  request pending := pending.uniqueId
  mark now pending := { pending with pubrelSent := now }

def resendPublishes : PublishesCall PARALLEL_PUBLISHES BUFFER TOPIC_SIZE SendResult := do
  let now ← timeNow
  match ← pubackResend.scan now (pure now) with
  | .partiallySent => return .partiallySent
  | .sentAll => do
    let now ← timeNow
    pubrecResend.scan now (pure now)

def resendPubrel : PublishesCall PARALLEL_PUBLISHES BUFFER TOPIC_SIZE SendResult := do
  let now ← timeNow
  pubcompResend.scan now (pure now)

def sendPackets : PublishesCall PARALLEL_PUBLISHES BUFFER TOPIC_SIZE SendResult := do
  let r ← sendPendingPubrel
  let r ← r.next sendPendingPublishes
  let r ← r.nextSync resendPublishes
  r.nextSync resendPubrel

end PublishesInner

/-! ## The calls from outside -/

namespace Publishes

open PublishesInner

def sendPackets : PublishesCall PARALLEL_PUBLISHES BUFFER TOPIC_SIZE SendResult :=
  PublishesInner.sendPackets

/-- A packet that is no acknowledgement is only logged. -/
def processIncomingPacket : Packet → PublishesCall PARALLEL_PUBLISHES BUFFER TOPIC_SIZE Unit
  | .puback pid => processPuback pid
  | .pubrec pid => processPubrec pid
  | .pubcomp pid => processPubcomp pid
  | _ => pure ()

/-- The future of `try_with_lock` waits while `send_publish` is full. An error of its closure is
unwrapped. -/
def publish (publish : Publish) (uniqueId : UniqueID) :
    PublishesCall PARALLEL_PUBLISHES BUFFER TOPIC_SIZE Unit := do
  let c ← get
  if c.inner.sendPublish.isFull then park
  else
    match OwnedPublish.newFromPublish publish uniqueId with
    | .error _ => abort
    | .ok entry =>
      modifyInner fun q => { q with sendPublish := (q.sendPublish.push entry).getD q.sendPublish }

end Publishes

end EmbeddedMqttc
