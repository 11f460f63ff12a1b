import EmbeddedMqttc.Component

/-!
# Subscribe and unsubscribe requests

`Subs` of `src/state/sub2.rs`: a request waits in `send_request` until its packet is written, and
then in `await_ack` for the SUBACK or UNSUBACK with its pid. `topicPathCapacity` is the capacity of
the topic strings in the packets of the codec.
-/

namespace EmbeddedMqttc

open Prog EmbeddedMqttc.Comp

inductive RequestType where
  | subscribe (qos : QoS)
  | unsubscribe
  deriving DecidableEq, Repr

def RequestType.isUnsub : RequestType → Bool
  | subscribe _ => false
  | unsubscribe => true

structure SubRequest (TOPIC : Nat) where
  topics : BoundedVec (BoundedVec UInt8 TOPIC) 5
  requestType : RequestType
  pid : Pid
  uniqueId : UniqueID
  deriving DecidableEq, Repr

structure AwaitAck (TOPIC : Nat) where
  request : SubRequest TOPIC
  requestSent : Instant
  deriving DecidableEq, Repr

structure SubsInner (TOPIC PARALLEL_REQUESTS : Nat) where
  sendRequest : BoundedVec (SubRequest TOPIC) PARALLEL_REQUESTS
  awaitAck : BoundedVec (AwaitAck TOPIC) PARALLEL_REQUESTS
  deriving DecidableEq, Repr

variable {TOPIC PARALLEL_REQUESTS : Nat}

abbrev SubsCall (TOPIC PARALLEL_REQUESTS : Nat) := Comp (SubsInner TOPIC PARALLEL_REQUESTS)

namespace SubRequest

/-- `String::try_from` into a topic string of the codec. -/
def codecTopic (topicPathCapacity : Nat) (topic : BoundedVec UInt8 TOPIC) :
    Except MqttError (List UInt8) :=
  if topic.len ≤ topicPathCapacity then .ok topic.toList else .error .topicSizeError

def createSubscribeTopic (topicPathCapacity : Nat) (qos : QoS) (topic : BoundedVec UInt8 TOPIC) :
    Except MqttError SubscribeTopic :=
  (codecTopic topicPathCapacity topic).map fun topicPath => { topicPath, qos }

def createPacket (topicPathCapacity : Nat) (self : SubRequest TOPIC) : Except MqttError Packet :=
  match self.requestType with
  | .subscribe qos =>
    (self.topics.toList.mapM (createSubscribeTopic topicPathCapacity qos)).map fun topics =>
      .subscribe { pid := self.pid, topics }
  | .unsubscribe =>
    (self.topics.toList.mapM (codecTopic topicPathCapacity)).map fun topics =>
      .unsubscribe { pid := self.pid, topics }

end SubRequest

namespace SubsInner

def new : SubsInner TOPIC PARALLEL_REQUESTS where
  sendRequest := .empty
  awaitAck := .empty

/-! ## Sending -/

/-- `AwaitAck::new`. -/
def newAwaitAck (request : SubRequest TOPIC) :
    SubsCall TOPIC PARALLEL_REQUESTS (AwaitAck TOPIC) := do
  return { request, requestSent := ← timeNow }

section

variable (topicPathCapacity : Nat)

def sendRequestsTurn : SubsCall TOPIC PARALLEL_REQUESTS (SendResult ⊕ Nat) := do
  let c ← get
  let (request, sendRequest) ← unwrap c.inner.sendRequest.popFront
  if c.inner.awaitAck.isFull then return .inl .partiallySent
  else
    match request.createPacket topicPathCapacity with
    | .error e => fail e
    | .ok packet =>
      if ← tryWritePacket ⟨packet, some request.uniqueId⟩ then do
        modifyInner fun q => { q with sendRequest }
        let entry ← newAwaitAck request
        modifyInner fun q => { q with awaitAck := (q.awaitAck.push entry).getD q.awaitAck }
        return .inr 0
      else return .inl .partiallySent

/-- `while let Some(request) = self.send_request.front()`. -/
def sendRequests : SubsCall TOPIC PARALLEL_REQUESTS SendResult := do
  let c ← get
  whileIndex (fun c => c.inner.sendRequest.len) (fun _ => sendRequestsTurn topicPathCapacity)
    .sentAll c.inner.sendRequest.len 0

def requestResend :
    Resend (SubsInner TOPIC PARALLEL_REQUESTS) (AwaitAck TOPIC) PARALLEL_REQUESTS where
  queue q := q.awaitAck
  modify f q := { q with awaitAck := f q.awaitAck }
  sentAt entry := entry.requestSent
  packet entry := entry.request.createPacket topicPathCapacity
  request entry := entry.request.uniqueId
  mark now entry := { entry with requestSent := now }

def resendRequests : SubsCall TOPIC PARALLEL_REQUESTS SendResult := do
  let now ← timeNow
  (requestResend topicPathCapacity).scan now timeNow

def send : SubsCall TOPIC PARALLEL_REQUESTS SendResult := do
  let r ← sendRequests topicPathCapacity
  r.nextSync (resendRequests topicPathCapacity)

end

/-! ## Incoming packets -/

/-- The return codes are compared with the topics one by one; the first failure is the result. -/
def checkSuback (expectedQos : QoS) (uniqueId : UniqueID) :
    List SubscribeReturnCodes → List (BoundedVec UInt8 TOPIC) →
      SubsCall TOPIC PARALLEL_REQUESTS PUnit
  | .success _ :: returnCodes, _ :: topics => checkSuback expectedQos uniqueId returnCodes topics
  | .failure :: _, _ :: _ =>
    publishEvent (.subscribeDone uniqueId (.error .subscribeOrUnsubscribeFailed))
  | _, _ => publishEvent (.subscribeDone uniqueId (.ok expectedQos))

def onSuback (suback : Suback) : SubsCall TOPIC PARALLEL_REQUESTS PUnit := do
  let c ← get
  match c.inner.awaitAck.position fun a => a.request.pid == suback.pid && !a.request.requestType.isUnsub
  with
  | none => pure ⟨⟩
  | some index => do
    let entry ← unwrap (c.inner.awaitAck.get? index)
    freePid suback.pid
    modifyInner fun q => { q with awaitAck := q.awaitAck.removeAt index }
    match entry.request.requestType with
    | .subscribe qos =>
      checkSuback qos entry.request.uniqueId suback.returnCodes entry.request.topics.toList
    | .unsubscribe => abort

def onUnsuback (pid : Pid) : SubsCall TOPIC PARALLEL_REQUESTS PUnit := do
  let c ← get
  match c.inner.awaitAck.position fun a => a.request.pid == pid && a.request.requestType.isUnsub with
  | none => pure ⟨⟩
  | some index => do
    let entry ← unwrap (c.inner.awaitAck.get? index)
    modifyInner fun q => { q with awaitAck := q.awaitAck.removeAt index }
    freePid entry.request.pid
    publishEvent (.unsubscribeDone entry.request.uniqueId)

/-! ## Requests -/

/-- What `add_subscribe_request` and `add_unsubscribe_request` have in common: they wait while
`send_request` is full, and they panic when a topic is too long or there are more than five. -/
def addRequest (requestType : RequestType) (topics : List (List UInt8)) (uniqueId : UniqueID) :
    SubsCall TOPIC PARALLEL_REQUESTS PUnit := do
  let c ← get
  if c.inner.sendRequest.isFull then park
  else do
    let topics ← unwrap (topics.mapM BoundedVec.ofList?)
    let topics ← unwrap (BoundedVec.ofList? topics)
    let pid ← nextPid
    let request : SubRequest TOPIC := { topics, requestType, pid, uniqueId }
    modifyInner fun q => { q with sendRequest := (q.sendRequest.push request).getD q.sendRequest }

def addUnsubscribeRequest (topics : List (List UInt8)) (uniqueId : UniqueID) :
    SubsCall TOPIC PARALLEL_REQUESTS PUnit := addRequest .unsubscribe topics uniqueId

def addSubscribeRequest (topics : List (List UInt8)) (qos : QoS) (uniqueId : UniqueID) :
    SubsCall TOPIC PARALLEL_REQUESTS PUnit := addRequest (.subscribe qos) topics uniqueId

/-! ## What the calls do -/

/-- A move of a send pass. -/
inductive Move (topicPathCapacity : Nat) : Ctx (SubsInner TOPIC PARALLEL_REQUESTS) →
    Ctx (SubsInner TOPIC PARALLEL_REQUESTS) → Prop
  | asked : Move topicPathCapacity c { c with env := c.env.asked }
  | read : Move topicPathCapacity c { c with env := c.env.read }
  | request (hpop : c.inner.sendRequest.popFront = some (request, rest))
      (hpacket : request.createPacket topicPathCapacity = .ok packet)
      (hpush : c.inner.awaitAck.push
        { request, requestSent := (c.env.wrote ⟨packet, some request.uniqueId⟩).read.now } =
        some acks) :
      Move topicPathCapacity c
        { inner := { sendRequest := rest, awaitAck := acks }
          env := (c.env.wrote ⟨packet, some request.uniqueId⟩).read }
  | resend (hi : c.inner.awaitAck.get? i = some entry)
      (hdue : c.env.now - entry.requestSent > RESEND_DURATION)
      (hpacket : entry.request.createPacket topicPathCapacity = .ok packet) :
      Move topicPathCapacity c
        { inner :=
            { c.inner with
              awaitAck := c.inner.awaitAck.modifyAt i fun a =>
                { a with
                  requestSent := (c.env.wrote ⟨packet, some entry.request.uniqueId⟩).read.now } }
          env := (c.env.wrote ⟨packet, some entry.request.uniqueId⟩).read }

variable {topicPathCapacity : Nat} {c c' : Ctx (SubsInner TOPIC PARALLEL_REQUESTS)}

theorem sendRequestsTurn_exits (hlen : 0 < c.inner.sendRequest.len) :
    ExitsAt (Move topicPathCapacity) Fails (sendRequestsTurn topicPathCapacity) c := by
  obtain ⟨request, rest, hpop⟩ : ∃ request rest,
      c.inner.sendRequest.popFront = some (request, rest) := by
    cases hpop : c.inner.sendRequest.popFront with
    | some r => exact ⟨r.1, r.2, rfl⟩
    | none => simp [BoundedVec.len, BoundedVec.popFront_eq_none_iff.mp hpop] at hlen
  apply ExitsAt.get_bind
  apply ExitsAt.unwrap_bind hpop
  dsimp only
  split
  · exact .pure _
  · rename_i hroom
    cases hpacket : request.createPacket topicPathCapacity with
    | error e => exact .of_stop rfl .refl (.fail c e)
    | ok packet =>
      refine tryWritePacket_bind_exits .asked Fails.fail (.pure _) fun hw => ?_
      have hroom : c.inner.awaitAck.isFull = false := by simpa using hroom
      obtain ⟨acks, hpush⟩ := BoundedVec.exists_push hroom _
      refine .of_ok (a := .inr 0) ?_ (.single (.request hpop hpacket hpush))
      simp [exec_bind_ok hw, newAwaitAck, hpush, exec_bind]

theorem requestResend_exits {now : Instant} (hnow : now ≤ c.env.now) :
    ExitsAt (Move topicPathCapacity) Fails ((requestResend topicPathCapacity).scan now timeNow) c := by
  refine Resend.scan_exits (J := fun c => now ≤ c.env.now) Fails.fail
    (fun c hc => ⟨.asked, hc⟩) (fun c i entry packet hc hi hdue hpacket => ?_) hnow
  refine ⟨_, rfl, .resend hi (Nat.lt_of_lt_of_le hdue (Nat.sub_le_sub_right hc _)) hpacket, ?_⟩
  exact Nat.le_trans hc (Env.now_le_read (c.env.wrote _))

/-- A whole send pass is made of moves, and it does not panic. -/
theorem send_exits : ExitsAt (Move topicPathCapacity) Fails (send topicPathCapacity) c := by
  refine .bind ?_ fun r c₁ _ => ?_
  · apply ExitsAt.get_bind
    exact .whileIndex (J := fun _ => True)
      (fun i c _ hi => sendRequestsTurn_exits (Nat.lt_of_le_of_lt (Nat.zero_le i) hi))
      (fun _ _ _ _ _ _ => trivial) _ _ trivial
  · apply SendResult.next_exits
    intro c
    refine .bind (.of_ok (timeNow_exec c) (.single .read)) fun now c₂ h => ?_
    cases h
    exact requestResend_exits (Nat.le_refl _)

theorem send_moves : MovesAt (Move topicPathCapacity) (send topicPathCapacity) c :=
  Fails.movesAt send_exits

/-- The result of a SUBACK is one completion event. -/
theorem checkSuback_exec (qos : QoS) (uniqueId : UniqueID) (returnCodes : List SubscribeReturnCodes)
    (topics : List (BoundedVec UInt8 TOPIC)) (c : Ctx (SubsInner TOPIC PARALLEL_REQUESTS)) :
    ∃ result, (checkSuback qos uniqueId returnCodes topics).exec c =
      (.ok ⟨⟩, { c with env := c.env.emitted (.subscribeDone uniqueId result) }) := by
  induction returnCodes generalizing topics with
  | nil => exact ⟨_, rfl⟩
  | cons code codes ih =>
    cases topics with
    | nil => cases code <;> exact ⟨_, rfl⟩
    | cons topic topics =>
      cases code with
      | success _ => exact ih topics
      | failure => exact ⟨_, rfl⟩

theorem onSuback_cases (suback : Suback) (c : Ctx (SubsInner TOPIC PARALLEL_REQUESTS)) :
    (onSuback suback).exec c = (.ok ⟨⟩, c) ∨
      ∃ i entry qos result, c.inner.awaitAck.get? i = some entry ∧
        entry.request.pid = suback.pid ∧ entry.request.requestType = .subscribe qos ∧
        (onSuback suback).exec c =
          (.ok ⟨⟩,
            { inner := { c.inner with awaitAck := c.inner.awaitAck.removeAt i }
              env := (c.env.freed entry.request.pid).emitted
                (.subscribeDone entry.request.uniqueId result) }) := by
  unfold onSuback
  rw [exec_get_bind]
  split
  · exact .inl rfl
  · rename_i i hpos
    obtain ⟨entry, hi, hentry⟩ := BoundedVec.get?_of_position hpos
    simp only [Bool.and_eq_true, beq_iff_eq, Bool.not_eq_true'] at hentry
    obtain ⟨hpid, hsub⟩ := hentry
    cases htype : entry.request.requestType with
    | unsubscribe => rw [htype] at hsub; cases hsub
    | subscribe qos =>
      let removed : Ctx (SubsInner TOPIC PARALLEL_REQUESTS) :=
        { inner := { c.inner with awaitAck := c.inner.awaitAck.removeAt i }
          env := c.env.freed suback.pid }
      obtain ⟨result, hresult⟩ := checkSuback_exec qos entry.request.uniqueId suback.returnCodes
        entry.request.topics.toList removed
      refine .inr ⟨i, entry, qos, result, hi, hpid, htype, ?_⟩
      simp only [hi, htype, exec_unwrap_some_bind, freePid_bind_exec, modifyInner_bind_exec]
      rw [hpid]
      exact hresult

theorem onUnsuback_cases (pid : Pid) (c : Ctx (SubsInner TOPIC PARALLEL_REQUESTS)) :
    (onUnsuback pid).exec c = (.ok ⟨⟩, c) ∨
      ∃ i entry, c.inner.awaitAck.get? i = some entry ∧ entry.request.pid = pid ∧
        entry.request.requestType = .unsubscribe ∧
        (onUnsuback pid).exec c =
          (.ok ⟨⟩,
            { inner := { c.inner with awaitAck := c.inner.awaitAck.removeAt i }
              env := (c.env.freed entry.request.pid).emitted
                (.unsubscribeDone entry.request.uniqueId) }) := by
  unfold onUnsuback
  rw [exec_get_bind]
  split
  · exact .inl rfl
  · rename_i i hpos
    obtain ⟨entry, hi, hentry⟩ := BoundedVec.get?_of_position hpos
    simp only [Bool.and_eq_true, beq_iff_eq] at hentry
    obtain ⟨hpid, hunsub⟩ := hentry
    cases htype : entry.request.requestType with
    | subscribe qos => rw [htype] at hunsub; cases hunsub
    | unsubscribe =>
      refine .inr ⟨i, entry, hi, hpid, htype, ?_⟩
      simp [hi]

/-- A request that is accepted takes the next pid; one that is not changes nothing. -/
theorem addRequest_cases (c : Ctx (SubsInner TOPIC PARALLEL_REQUESTS)) (requestType : RequestType)
    (topics : List (List UInt8)) (uniqueId : UniqueID) :
    (∃ x, (addRequest requestType topics uniqueId).exec c = (.error x, c)) ∨
      ∃ request rest pool, request.requestType = requestType ∧ request.uniqueId = uniqueId ∧
        c.env.pool.nextPid = some (request.pid, pool) ∧
        c.inner.sendRequest.push request = some rest ∧
        (addRequest requestType topics uniqueId).exec c =
          (.ok ⟨⟩,
            { inner := { c.inner with sendRequest := rest }
              env := { c.env with pool } }) := by
  unfold addRequest
  rw [exec_get_bind]
  cases hfull : c.inner.sendRequest.isFull with
  | true => exact .inl ⟨.parked, rfl⟩
  | false =>
    simp only [Bool.false_eq_true, if_false]
    cases htopics : topics.mapM (BoundedVec.ofList? (n := TOPIC)) with
    | none => exact .inl ⟨.panic, rfl⟩
    | some strings =>
      rw [exec_unwrap_some_bind]
      cases hvec : BoundedVec.ofList? (n := 5) strings with
      | none => exact .inl ⟨.panic, rfl⟩
      | some vec =>
        rw [exec_unwrap_some_bind]
        rcases nextPid_cases c with h | ⟨pid, pool, hpool, h⟩
        · exact .inl ⟨.panic, exec_bind_error h⟩
        · obtain ⟨rest, hpush⟩ := BoundedVec.exists_push hfull
            { topics := vec, requestType, pid, uniqueId }
          refine .inr ⟨_, rest, pool, rfl, rfl, hpool, hpush, ?_⟩
          rw [exec_bind_ok h, modifyInner_exec, hpush]
          rfl

end SubsInner

end EmbeddedMqttc
