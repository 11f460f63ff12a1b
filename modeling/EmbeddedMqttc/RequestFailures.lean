import EmbeddedMqttc.IdReuse

/-!
# Requests that fail

What `State::publish`, `subscribe` and `unsubscribe` cannot queue, and what the calls of
`MqttClient` leave behind when they fail. The sizes are checked when there is room for the request,
and a size that is exceeded is a panic: the closure of `Publishes::publish` reports it, and its
result is unwrapped.
-/

namespace EmbeddedMqttc

open Prog EmbeddedMqttc.Comp Run

variable {QUEUE BUFFER TOPIC : Nat}

/-! ## What the pools have -/

/-- A pid has been freed, or not all of them have been handed out. -/
def PidPool.HasPid {POOL_SIZE : Nat} (s : PidPool POOL_SIZE) : Prop :=
  match s.pool.toList with
  | n :: _ => 0 < n ∧ n < 65536
  | [] => s.nextNewPid ≠ 65535 ∧ 0 < s.nextNewPid ∧ s.nextNewPid < 65536

theorem Pid.ofNat?_eq_none_iff {n : Nat} : Pid.ofNat? n = none ↔ ¬(0 < n ∧ n < 65536) := by
  unfold ofNat?
  split
  · exact iff_of_false (Option.some_ne_none _) (absurd ‹_›)
  · exact iff_of_true rfl ‹_›

theorem PidPool.nextPid_eq_none_iff {POOL_SIZE : Nat} {s : PidPool POOL_SIZE} :
    s.nextPid = none ↔ ¬s.HasPid := by
  unfold nextPid HasPid
  cases hpop : s.pool.popFront with
  | none =>
    rw [BoundedVec.popFront_eq_none_iff.mp hpop]
    dsimp only
    unfold take
    by_cases hall : s.nextNewPid = 65535
    · rw [if_pos hall]
      exact iff_of_true rfl fun h => h.1 hall
    · rw [if_neg hall, Option.map_eq_none_iff, Pid.ofNat?_eq_none_iff]
      exact not_congr ⟨fun h => ⟨hall, h⟩, And.right⟩
  | some popped =>
    obtain ⟨n, pool⟩ := popped
    rw [BoundedVec.popFront_eq_some_iff.mp hpop]
    dsimp only
    rw [Option.map_eq_none_iff, Pid.ofNat?_eq_none_iff]

theorem PidPool.hasPid_of_nextPid {POOL_SIZE : Nat} {s s' : PidPool POOL_SIZE} {pid : Pid}
    (h : s.nextPid = some (pid, s')) : s.HasPid := by
  by_contra hnot
  cases h.symm.trans (nextPid_eq_none_iff.mpr hnot)

/-- An id has been freed, or not all of them have been handed out. -/
def UniqueIds.HasId (s : UniqueIds) : Prop :=
  s.pool.pool.toList ≠ [] ∨ s.pool.nextUnused ≠ 2 ^ 32 - 1

theorem UniqueIds.take_eq_none_iff {s : UniqueIds} : s.take = none ↔ ¬s.HasId := by
  rw [take, Option.map_eq_none_iff, UniqueIDPool.next, HasId, not_or, not_not, not_not]
  cases hpop : s.pool.pool.popFront with
  | none =>
    rw [UniqueIDPool.take, ite_eq_left_iff]
    simp [BoundedVec.popFront_eq_none_iff.mp hpop]
  | some popped => simp [BoundedVec.popFront_eq_some_iff.mp hpop]

theorem UniqueIds.hasId_of_take {s ids : UniqueIds} {id : Nat} (h : s.take = some (id, ids)) :
    s.HasId := by
  by_contra hnot
  cases h.symm.trans (take_eq_none_iff.mpr hnot)

/-- There are fewer than sixteen subscribers. The new call is none of them. -/
def Executor.HasPlace (s : Executor QUEUE BUFFER TOPIC) : Prop :=
  s.events.behind.length < 16 ∧ s.calls.length ∉ s.events.behind.map Prod.fst

theorem Executor.subscribe_eq_none_iff {s : Executor QUEUE BUFFER TOPIC} :
    s.events.subscribe s.calls.length = none ↔ ¬s.HasPlace := by
  unfold PubSubChannel.subscribe HasPlace
  split
  · exact iff_of_false (Option.some_ne_none _) (absurd ‹_›)
  · exact iff_of_true rfl ‹_›

theorem Executor.hasPlace_of_subscribe {s : Executor QUEUE BUFFER TOPIC} {channel : EventChannel}
    (h : s.events.subscribe s.calls.length = some channel) : s.HasPlace := by
  by_contra hnot
  cases h.symm.trans (subscribe_eq_none_iff.mpr hnot)

/-! ## What a queue takes -/

/-- An entry can be made of a publish whose topic and payload fit. -/
theorem OwnedPublish.newFromPublish_cases (message : Publish) (uniqueId : UniqueID) :
    (message.topicName.length ≤ TOPIC ∧ message.payload.length ≤ BUFFER ∧
      ∃ entry : OwnedPublish BUFFER TOPIC, newFromPublish message uniqueId = .ok entry) ∨
    (¬(message.topicName.length ≤ TOPIC ∧ message.payload.length ≤ BUFFER) ∧
      ∃ e, (newFromPublish message uniqueId : Except MqttError (OwnedPublish BUFFER TOPIC)) =
        .error e) := by
  unfold newFromPublish
  by_cases htopic : message.topicName.length ≤ TOPIC
  · obtain ⟨topicName, ht⟩ := BoundedVec.exists_ofList?_iff.mpr htopic
    by_cases hpayload : message.payload.length ≤ BUFFER
    · obtain ⟨payload, hp⟩ := BoundedVec.exists_ofList?_iff.mpr hpayload
      rw [ht, hp]
      exact .inl ⟨htopic, hpayload, _, rfl⟩
    · rw [ht, BoundedVec.ofList?_eq_none hpayload]
      exact .inr ⟨fun h => hpayload h.2, _, rfl⟩
  · rw [BoundedVec.ofList?_eq_none htopic]
    exact .inr ⟨fun h => htopic h.1, _, rfl⟩

/-- `publish` waits, panics or queues the message. -/
theorem Publishes.publish_outcome (c : Ctx (PublishesInner QUEUE BUFFER TOPIC)) (message : Publish)
    (uniqueId : UniqueID) :
    (c.inner.sendPublish.isFull = true ∧
      (publish message uniqueId).exec c = (.error .parked, c)) ∨
    (c.inner.sendPublish.isFull = false ∧
      ¬(message.topicName.length ≤ TOPIC ∧ message.payload.length ≤ BUFFER) ∧
      (publish message uniqueId).exec c = (.error .panic, c)) ∨
    (message.topicName.length ≤ TOPIC ∧ message.payload.length ≤ BUFFER ∧
      ∃ entry queue, entry.uniqueId = uniqueId ∧ c.inner.sendPublish.push entry = some queue ∧
        (publish message uniqueId).exec c =
          (.ok (), { c with inner := { c.inner with sendPublish := queue } })) := by
  unfold publish
  rw [exec_get_bind]
  cases hfull : c.inner.sendPublish.isFull with
  | true => exact .inl ⟨rfl, rfl⟩
  | false =>
    rcases OwnedPublish.newFromPublish_cases message uniqueId with
      ⟨htopic, hpayload, entry, hentry⟩ | ⟨hnot, e, hentry⟩
    · obtain ⟨queue, hpush⟩ := BoundedVec.exists_push hfull entry
      have hid := (OwnedPublish.newFromPublish_ok hentry).1
      refine .inr (.inr ⟨htopic, hpayload, entry, queue, hid, hpush, ?_⟩)
      simp [hentry, hpush]
    · refine .inr (.inl ⟨rfl, hnot, ?_⟩)
      simp [hentry]

/-- A request waits, panics or is queued. -/
theorem SubsInner.addRequest_outcome (c : Ctx (SubsInner TOPIC QUEUE)) (requestType : RequestType)
    (topics : List (List UInt8)) (uniqueId : UniqueID) :
    (c.inner.sendRequest.isFull = true ∧
      (addRequest requestType topics uniqueId).exec c = (.error .parked, c)) ∨
    (c.inner.sendRequest.isFull = false ∧
      ¬((∀ topic ∈ topics, topic.length ≤ TOPIC) ∧ topics.length ≤ 5 ∧ c.env.pool.HasPid) ∧
      (addRequest requestType topics uniqueId).exec c = (.error .panic, c)) ∨
    ((∀ topic ∈ topics, topic.length ≤ TOPIC) ∧ topics.length ≤ 5 ∧ c.env.pool.HasPid ∧
      ∃ request rest pool, request.uniqueId = uniqueId ∧
        c.inner.sendRequest.push request = some rest ∧
        (addRequest requestType topics uniqueId).exec c =
          (.ok ⟨⟩,
            { inner := { c.inner with sendRequest := rest }
              env := { c.env with pool } })) := by
  unfold addRequest
  rw [exec_get_bind]
  cases hfull : c.inner.sendRequest.isFull with
  | true => exact .inl ⟨rfl, rfl⟩
  | false =>
    refine .inr ?_
    rw [if_neg Bool.false_ne_true]
    rcases BoundedVec.mapM_ofList?_cases (n := TOPIC) topics with
      ⟨hall, strings, hstrings, hlength⟩ | ⟨hnot, hnone⟩
    · rw [hstrings, exec_unwrap_some_bind, ← hlength]
      by_cases hfive : strings.length ≤ 5
      · obtain ⟨vec, hvec⟩ := BoundedVec.exists_ofList?_iff.mpr hfive
        rw [hvec, exec_unwrap_some_bind]
        cases hpid : c.env.pool.nextPid with
        | none =>
          refine .inl ⟨rfl, fun h => PidPool.nextPid_eq_none_iff.mp hpid h.2.2, ?_⟩
          simp [nextPid, exec_bind, hpid]
        | some next =>
          obtain ⟨pid, pool⟩ := next
          obtain ⟨rest, hpush⟩ := BoundedVec.exists_push hfull
            { topics := vec, requestType, pid, uniqueId }
          refine .inr ⟨hall, hfive, PidPool.hasPid_of_nextPid hpid, _, rest, pool, rfl, hpush, ?_⟩
          simp [nextPid, exec_bind, hpid, hpush]
      · rw [BoundedVec.ofList?_eq_none hfive]
        exact .inl ⟨rfl, fun h => hfive h.2.1, rfl⟩
    · rw [hnone]
      exact .inl ⟨rfl, fun h => hnot h.1, rfl⟩

/-! ## The calls of `State` -/

namespace Client

/-- There is no room for a publish, or it can be queued. -/
def TakesPublish (s : Client QUEUE BUFFER TOPIC) (topic payload : List UInt8) : Prop :=
  s.publishes.sendPublish.isFull = false → topic.length ≤ TOPIC ∧ payload.length ≤ BUFFER

/-- There is no room for a request, or it can be queued and there is a pid for it. -/
def TakesRequest (s : Client QUEUE BUFFER TOPIC) (topics : List (List UInt8)) : Prop :=
  s.subscribes.sendRequest.isFull = false →
    (∀ topic ∈ topics, topic.length ≤ TOPIC) ∧ topics.length ≤ 5 ∧ s.env.pool.HasPid

/-- The condition for the calls of `publish`, `subscribe` and `unsubscribe`. A publish takes its pid
when it begins. -/
def Admits (s : Client QUEUE BUFFER TOPIC) : Label → Prop
  | .publish _ _ qos _ _ => qos = .atMostOnce ∨ s.env.pool.HasPid
  | .poll i => ∀ message uniqueId, s.waiting[i]? = some (message, uniqueId) →
    s.TakesPublish message.topicName message.payload
  | .subscribe topics _ _ | .unsubscribe topics _ => s.TakesRequest topics
  | _ => True

/-- A call that has not failed has done its work: a publish that begins waits for room, and the
others have queued their request. -/
def Queued (s s' : Client QUEUE BUFFER TOPIC) : Label → Prop
  | .publish _ _ _ _ id => ∃ message, (message, ⟨id, s.issued.length⟩) ∈ s'.waiting
  | .poll i => ∀ message uniqueId, s.waiting[i]? = some (message, uniqueId) →
    ∃ entry ∈ s'.publishes.sendPublish.toList, entry.uniqueId = uniqueId
  | .subscribe _ _ id | .unsubscribe _ id =>
    ∃ request ∈ s'.subscribes.sendRequest.toList, request.uniqueId = ⟨id, s.issued.length⟩
  | _ => True

/-- The calls of `State::publish`, `subscribe` and `unsubscribe`. -/
def Label.isCall : Label → Bool
  | .publish .. | .poll _ | .subscribe .. | .unsubscribe .. => true
  | _ => false

/-- A call queues its request, waits or returns an error, but it does not panic. -/
structure FailsCleanly (s : Client QUEUE BUFFER TOPIC) (topicPathCapacity : Nat) (l : Label) :
    Prop where
  no_panic : l.isCall = true → (s.outcome topicPathCapacity l).1 ≠ .error .panic
  queued : (s.outcome topicPathCapacity l).1 = .ok () → s.Queued (s.outcome topicPathCapacity l).2 l

variable {s : Client QUEUE BUFFER TOPIC} {topicPathCapacity : Nat}

theorem addRequest_failsCleanly (requestType : RequestType) (topics : List (List UInt8)) (id : Nat) :
    ((s.addRequest (SubsInner.addRequest requestType topics) id).1 ≠ .error .panic ↔
      s.TakesRequest topics) ∧
    ((s.addRequest (SubsInner.addRequest requestType topics) id).1 = .ok () →
      ∃ request ∈ (s.addRequest (SubsInner.addRequest requestType topics)
        id).2.subscribes.sendRequest.toList, request.uniqueId = ⟨id, s.issued.length⟩) := by
  unfold addRequest callSubscribes TakesRequest
  rcases SubsInner.addRequest_outcome ⟨s.subscribes, s.env⟩ requestType topics
    ⟨id, s.issued.length⟩ with ⟨hfull, h⟩ | ⟨hfull, hnot, h⟩ |
      ⟨htopics, hfive, hpid, request, rest, pool, hid, hpush, h⟩ <;> rw [h]
  · refine ⟨iff_of_true nofun fun hroom => ?_, nofun⟩
    rw [hfull] at hroom
    cases hroom
  · exact ⟨iff_of_false (fun hne => hne rfl) fun htakes => hnot (htakes hfull), nofun⟩
  · refine ⟨iff_of_true nofun fun _ => ⟨htopics, hfive, hpid⟩, fun _ => ⟨request, ?_, hid⟩⟩
    dsimp only
    rw [(BoundedVec.push_eq_some_iff.mp hpush).2]
    exact List.mem_append_right _ (List.mem_singleton.mpr rfl)

theorem poll_failsCleanly_of_waiting {i : Nat} {message : Publish} {uniqueId : UniqueID}
    (hwaiting : s.waiting[i]? = some (message, uniqueId)) :
    ((s.poll i).1 ≠ .error .panic ↔ s.TakesPublish message.topicName message.payload) ∧
    ((s.poll i).1 = .ok () →
      ∃ entry ∈ (s.poll i).2.publishes.sendPublish.toList, entry.uniqueId = uniqueId) := by
  unfold poll callPublishes TakesPublish
  rw [hwaiting]
  dsimp only
  rcases Publishes.publish_outcome ⟨s.publishes, s.env⟩ message uniqueId with
    ⟨hfull, h⟩ | ⟨hfull, hnot, h⟩ | ⟨htopic, hpayload, entry, queue, hid, hpush, h⟩ <;> rw [h]
  · refine ⟨iff_of_true nofun fun hroom => ?_, nofun⟩
    rw [hfull] at hroom
    cases hroom
  · exact ⟨iff_of_false (fun hne => hne rfl) fun htakes => hnot (htakes hfull), nofun⟩
  · refine ⟨iff_of_true nofun fun _ => ⟨htopic, hpayload⟩, fun _ => ⟨entry, ?_, hid⟩⟩
    dsimp only
    rw [(BoundedVec.push_eq_some_iff.mp hpush).2]
    exact List.mem_append_right _ (List.mem_singleton.mpr rfl)

theorem poll_failsCleanly (i : Nat) :
    ((s.poll i).1 ≠ .error .panic ↔ s.Admits (.poll i)) ∧
    ((s.poll i).1 = .ok () → s.Queued (s.poll i).2 (.poll i)) := by
  cases hwaiting : s.waiting[i]? with
  | none =>
    have hstays : s.poll i = (.ok (), s) := by rw [poll, hwaiting]
    rw [hstays]
    refine ⟨iff_of_true ?_ fun message uniqueId h => ?_, fun _ message uniqueId h => ?_⟩
    · intro hpanic
      cases hpanic
    · cases hwaiting.symm.trans h
    · cases hwaiting.symm.trans h
  | some w =>
    obtain ⟨message, uniqueId⟩ := w
    obtain ⟨hpanic, hqueued⟩ := poll_failsCleanly_of_waiting hwaiting
    refine ⟨hpanic.trans ⟨fun htakes message uniqueId h => ?_, fun h => h _ _ hwaiting⟩,
      fun hok message uniqueId h => ?_⟩
    · cases hwaiting.symm.trans h
      exact htakes
    · cases hwaiting.symm.trans h
      exact hqueued hok

theorem publish_failsCleanly (topic payload : List UInt8) (qos : QoS) (retain : Bool) (id : Nat) :
    ((s.publish topic payload qos retain id).1 ≠ .error .panic ↔
      qos = .atMostOnce ∨ s.env.pool.HasPid) ∧
    ((s.publish topic payload qos retain id).1 = .ok () →
      ∃ message, (message, ⟨id, s.issued.length⟩) ∈
        (s.publish topic payload qos retain id).2.waiting) := by
  unfold publish callPublishes
  rcases State.newPublish_cases ⟨s.publishes, s.env⟩ topic payload qos retain with
    h | ⟨message, hqos, -, -, ⟨hpid, h⟩ | ⟨pid, pool, hpool, -, h⟩⟩
  · obtain ⟨hqos, hpool⟩ := State.newPublish_error h
    rw [h]
    refine ⟨iff_of_false (fun hne => hne rfl) fun hadmits => ?_, nofun⟩
    exact hadmits.elim hqos (PidPool.nextPid_eq_none_iff.mp hpool)
  · rw [h]
    refine ⟨iff_of_true nofun (.inl ?_), fun _ => ⟨message, List.mem_append_right _ ?_⟩⟩
    · rw [← hqos]
      exact QosPid.qos_eq_atMostOnce hpid
    · exact List.mem_singleton.mpr rfl
  · rw [h]
    refine ⟨iff_of_true nofun (.inr (PidPool.hasPid_of_nextPid hpool)),
      fun _ => ⟨message, List.mem_append_right _ (List.mem_singleton.mpr rfl)⟩⟩

/-- A call of `State` panics exactly when its request is not admitted. -/
theorem failsCleanly_iff (l : Label) : s.FailsCleanly topicPathCapacity l ↔ s.Admits l := by
  have hof {l : Label} (hcall : l.isCall = true)
      (h : ((s.outcome topicPathCapacity l).1 ≠ .error .panic ↔ s.Admits l) ∧
        ((s.outcome topicPathCapacity l).1 = .ok () →
          s.Queued (s.outcome topicPathCapacity l).2 l)) :
      s.FailsCleanly topicPathCapacity l ↔ s.Admits l :=
    ⟨fun hclean => h.1.mp (hclean.no_panic hcall), fun hadmits => ⟨fun _ => h.1.mpr hadmits, h.2⟩⟩
  cases l with
  | publish topic payload qos retain id => exact hof rfl (publish_failsCleanly ..)
  | poll i => exact hof rfl (poll_failsCleanly i)
  | subscribe topics qos id => exact hof rfl (addRequest_failsCleanly (.subscribe qos) topics id)
  | unsubscribe topics id => exact hof rfl (addRequest_failsCleanly .unsubscribe topics id)
  | _ => exact iff_of_true ⟨nofun, fun _ => True.intro⟩ True.intro

end Client

/-! ## The calls of `MqttClient` -/

namespace Executor

variable {s : Executor QUEUE BUFFER TOPIC} {i : Nat} {call : ClientCall}

/-- A publish waits while the loop holds the mutex. -/
def AdmitsRequest (s : Executor QUEUE BUFFER TOPIC) : Request → Prop
  | .publish message =>
    s.publishesLocked = false → s.client.TakesPublish message.topicName message.payload
  | .subscribe topic _ | .unsubscribe topic => s.client.TakesRequest [topic]

/-- The event that completes the call is in the channel and has not been read. -/
def HasReceived (s : Executor QUEUE BUFFER TOPIC) (i : Nat) (call : ClientCall) : Prop :=
  ∃ us event, s.events.unread i = some us ∧ event ∈ us ∧ call.accepts event = true

theorem attempt_outcome (s : Executor QUEUE BUFFER TOPIC) (call : ClientCall) :
    (s.AdmitsRequest call.request ∧ (s.attempt call = (.error .parked, s.client) ∨
      ∃ client, s.attempt call = (.ok ⟨⟩, client))) ∨
    (¬s.AdmitsRequest call.request ∧ s.attempt call = (.error .panic, s.client)) := by
  have hadd (requestType : RequestType) (topic : List UInt8) :
      (s.client.TakesRequest [topic] ∧
        (s.client.callSubscribes (SubsInner.addRequest requestType [topic] call.uniqueId) =
            (.error .parked, s.client) ∨
          ∃ client, s.client.callSubscribes
            (SubsInner.addRequest requestType [topic] call.uniqueId) = (.ok ⟨⟩, client))) ∨
      (¬s.client.TakesRequest [topic] ∧
        s.client.callSubscribes (SubsInner.addRequest requestType [topic] call.uniqueId) =
          (.error .panic, s.client)) := by
    unfold Client.callSubscribes Client.TakesRequest
    rcases SubsInner.addRequest_outcome ⟨s.client.subscribes, s.client.env⟩ requestType [topic]
      call.uniqueId with ⟨hfull, h⟩ | ⟨hfull, hnot, h⟩ |
        ⟨htopics, hfive, hpid, request, rest, pool, -, -, h⟩ <;> rw [h]
    · refine .inl ⟨fun hroom => ?_, .inl rfl⟩
      rw [hfull] at hroom
      cases hroom
    · exact .inr ⟨fun htakes => hnot (htakes hfull), rfl⟩
    · exact .inl ⟨fun _ => ⟨htopics, hfive, hpid⟩, .inr ⟨_, rfl⟩⟩
  unfold attempt AdmitsRequest
  cases call.request with
  | publish message =>
    cases hlocked : s.publishesLocked with
    | true => exact .inl ⟨nofun, .inl rfl⟩
    | false =>
      simp only [Bool.false_eq_true, if_false, Client.callPublishes, forall_const]
      rcases Publishes.publish_outcome ⟨s.client.publishes, s.client.env⟩ message call.uniqueId with
        ⟨hfull, h⟩ | ⟨hfull, hnot, h⟩ | ⟨htopic, hpayload, entry, queue, -, -, h⟩ <;> rw [h]
      · refine .inl ⟨fun hroom => ?_, .inl rfl⟩
        rw [hfull] at hroom
        cases hroom
      · exact .inr ⟨fun htakes => hnot (htakes hfull), rfl⟩
      · exact .inl ⟨fun _ => ⟨htopic, hpayload⟩, .inr ⟨_, rfl⟩⟩
  | subscribe topic qos => exact hadd (.subscribe qos) topic
  | unsubscribe topic => exact hadd .unsubscribe topic

/-- The event of a request that is not queued yet cannot be in the channel. -/
theorem Matched.not_hasReceived {events : List MqttEvent} (h : s.Matched events)
    (hcall : s.calls[i]? = some call) (hphase : call.phase = .waiting) : ¬s.HasReceived i call := by
  rintro ⟨us, event, hunread, hmem, haccepts⟩
  have hopen := (call.inProgress_of_waiting hphase).not_returned
  obtain ⟨hemitted, hown⟩ := h.unread i call us hcall hunread event hmem
  have hid := hown hopen (Request.id_of_accepts haccepts)
  have hreported : event ∈ s.client.env.events := by
    rw [h.reported]
    exact List.mem_append_left _ hemitted
  have hplaces : 0 < s.client.places call.uniqueId := by
    have hcount := List.count_pos_iff.mpr (List.mem_map_of_mem (f := (·.uniqueId)) hreported)
    rw [hid] at hcount
    exact Nat.lt_of_lt_of_le hcount (Nat.le_add_left ..)
  obtain ⟨owner, howner, -, hqueued⟩ := h.owned call.uniqueId hplaces
  rw [h.numbered i call hcall, hcall] at howner
  cases howner
  exact hqueued hphase

end Executor

namespace MqttClients

variable {s : MqttClients QUEUE BUFFER TOPIC} {topicPathCapacity i : Nat} {call : ClientCall}

/-- A call that waits for room can queue its request, and the id of a call that has received its event
can be freed. -/
def AdmitsPoll (s : MqttClients QUEUE BUFFER TOPIC) (i : Nat) (call : ClientCall) : Prop :=
  (call.phase = .waiting → s.executor.AdmitsRequest call.request) ∧
  (call.phase = .awaiting → s.executor.HasReceived i call → s.ids.pool.pool.isFull = false)

theorem settle_of_pending (hcall : s.executor.calls[i]? = some call)
    (hphase : call.phase = .waiting ∨ call.phase = .awaiting) : (s.settle i).1 = .pending := by
  rcases hphase with hphase | hphase <;> simp [settle, hcall, hphase]

/-- A poll of a call that waits for its event. -/
theorem settle_awaitEvent {t : Executor QUEUE BUFFER TOPIC} (ids : UniqueIds) (elsewhere : List Nat)
    (hcall : t.calls[i]? = some call) (hphase : call.phase = .awaiting) :
    let outcome :=
      (settle ⟨t.awaitEvent i call.accepts, ids, elsewhere⟩ i).1
    (¬t.HasReceived i call ∧ outcome = .pending) ∨
    (t.HasReceived i call ∧ ids.pool.pool.isFull = false ∧
      ∃ event, call.accepts event = true ∧ outcome = .returned event.result) ∨
    (t.HasReceived i call ∧ ids.pool.pool.isFull = true ∧ outcome = .panicked) := by
  cases hu : t.events.unread i with
  | none =>
    have hstays : t.awaitEvent i call.accepts = t := by
      rw [Executor.awaitEvent, hu]
      rfl
    rw [hstays]
    refine .inl ⟨?_, settle_of_pending hcall (.inr hphase)⟩
    rintro ⟨us, event, hus, -⟩
    cases hu.symm.trans hus
  | some us =>
    obtain ⟨channel, -, ⟨hnone, -, heq⟩ | ⟨event, hfind, heq⟩⟩ := Executor.awaitEvent_cases hu
    · rw [heq]
      refine .inl ⟨?_, settle_of_pending hcall (.inr hphase)⟩
      rintro ⟨us', event, hus', hmem, haccepts⟩
      cases hu.symm.trans hus'
      exact List.find?_eq_none.mp hnone event hmem haccepts
    · have haccepts := List.find?_some hfind
      have hreceived : t.HasReceived i call :=
        ⟨us, event, hu, List.mem_of_find?_eq_some hfind, haccepts⟩
      rw [heq]
      have hended : ({ t with events := channel }.finish i (some event)).calls[i]? =
          some { call with phase := .ended (some event) } := by
        simp [Executor.finish, hcall]
      unfold settle
      simp only [hended]
      cases hfull : ids.pool.pool.isFull with
      | true =>
        have hnone : ids.giveBack call.uniqueId.id = none := by
          simp [UniqueIds.giveBack, UniqueIDPool.free, BoundedVec.push_eq_none_iff.mpr hfull]
        rw [hnone]
        exact .inr (.inr ⟨hreceived, rfl, rfl⟩)
      | false =>
        obtain ⟨pool, hpush⟩ := BoundedVec.exists_push hfull call.uniqueId.id
        have hsome : ∃ ids', ids.giveBack call.uniqueId.id = some ids' := by
          simp [UniqueIds.giveBack, UniqueIDPool.free, hpush]
        obtain ⟨ids', hsome⟩ := hsome
        rw [hsome]
        exact .inr (.inl ⟨hreceived, rfl, event, haccepts, rfl⟩)

/-- A poll of a call panics exactly when it is not admitted, and a call returns only what its event
tells. -/
theorem Guarded.poll_outcome (h : s.Guarded) (hcall : s.executor.calls[i]? = some call)
    (hprogress : call.InProgress) :
    let outcome := (settle { s with executor := s.executor.poll i } i).1
    (s.AdmitsPoll i call ∧ (outcome = .pending ∨ (call.phase = .awaiting ∧
      ∃ event, call.accepts event = true ∧ outcome = .returned event.result))) ∨
    (¬s.AdmitsPoll i call ∧ outcome = .panicked) := by
  rcases Executor.poll_cases hcall hprogress with ⟨hphase, heq⟩ | ⟨hphase, hattempt⟩
  · have hadmits : s.AdmitsPoll i call ↔
        (s.executor.HasReceived i call → s.ids.pool.pool.isFull = false) := by
      refine ⟨fun h => h.2 hphase, fun h => ⟨fun hwaiting => ?_, fun _ => h⟩⟩
      cases hphase.symm.trans hwaiting
    rw [hadmits, heq]
    rcases settle_awaitEvent s.ids s.elsewhere hcall hphase with
      ⟨hnot, ho⟩ | ⟨-, hroom, ho⟩ | ⟨hreceived, hfull, ho⟩
    · exact .inl ⟨fun hreceived => absurd hreceived hnot, .inl ho⟩
    · exact .inl ⟨fun _ => hroom, .inr ⟨hphase, ho⟩⟩
    · refine .inr ⟨fun hroom => ?_, ho⟩
      rw [hroom hreceived] at hfull
      cases hfull
  · have hadmits : s.AdmitsPoll i call ↔ s.executor.AdmitsRequest call.request := by
      refine ⟨fun h => h.1 hphase, fun h => ⟨fun _ => h, fun hawaiting => ?_⟩⟩
      cases hphase.symm.trans hawaiting
    rw [hadmits]
    rcases Executor.attempt_outcome s.executor call with ⟨htakes, hcase⟩ | ⟨hnot, hpanic⟩
    · refine .inl ⟨htakes, .inl ?_⟩
      rcases hattempt with ⟨-, heq⟩ | ⟨x, hx, hfails, -⟩ | ⟨client, hqueued, heq⟩
      · rw [heq]
        exact settle_of_pending hcall (.inl hphase)
      · rcases hcase with hparked | ⟨client, hok⟩
        · cases hparked.symm.trans hfails
          exact absurd rfl hx
        · cases hok.symm.trans hfails
      · rw [heq]
        let t : Executor QUEUE BUFFER TOPIC := { s.executor with client }
        have hadded := Executor.calls_requestAdded (s := t) hcall
        have hnot : ¬s.executor.HasReceived i call := h.matched.not_hasReceived hcall hphase
        rcases settle_awaitEvent s.ids s.elsewhere hadded rfl with
          ⟨-, ho⟩ | ⟨hreceived, -⟩ | ⟨hreceived, -⟩
        · exact ho
        · exact absurd hreceived hnot
        · exact absurd hreceived hnot
    · rcases hattempt with ⟨hparked, -⟩ | ⟨x, -, -, heq⟩ | ⟨client, hok, -⟩
      · cases hparked.symm.trans hpanic
      · have hended : (s.executor.finish i none).calls[i]? =
            some { call with phase := .ended none } := by
          simp [Executor.finish, hcall]
        refine .inr ⟨hnot, ?_⟩
        rw [heq]
        simp [settle, hended]
      · cases hok.symm.trans hpanic

/-- The publish queue, the pids and the unique ids in use are as before. -/
structure Restored (s s' : MqttClients QUEUE BUFFER TOPIC) : Prop where
  client : s'.executor.client = s.executor.client
  ids : ∀ id, id ∈ s'.ids.inUse ↔ id ∈ s.ids.inUse

/-- A call does not panic, and a publish that returns an error has changed nothing. -/
structure FailsCleanly (s : MqttClients QUEUE BUFFER TOPIC) (l : CallLabel) : Prop where
  no_panic : (s.call l).1 ≠ .panicked
  restored : ∀ topic payload qos retain e, l = .publish topic payload qos retain →
    (s.call l).1 = .returned (.error e) → s.Restored (s.call l).2
  /-- A publish that has not failed at once does not fail any more. -/
  later : ∀ i call message e, l = .poll i → s.executor.calls[i]? = some call →
    call.request = .publish message → (s.call l).1 ≠ .returned (.error e)

/-- There are a unique id, a place in the event channel and, if the QoS needs one, a pid for a publish,
and its sizes are kept. A subscription that finds no place in the event channel returns an error. -/
def Admits (s : MqttClients QUEUE BUFFER TOPIC) : CallLabel → Prop
  | .publish topic payload qos _ =>
    s.ids.HasId ∧ s.executor.HasPlace ∧
      (qos = .atMostOnce ∨ s.executor.client.env.pool.HasPid) ∧
      (s.executor.publishesLocked = false → s.executor.client.TakesPublish topic payload)
  | .subscribe topic _ | .unsubscribe topic =>
    s.ids.HasId ∧ (s.executor.HasPlace → s.executor.client.TakesRequest [topic])
  | .poll i => ∀ call, s.executor.calls[i]? = some call → s.AdmitsPoll i call

/-- A new call queues its request, waits for room or panics. -/
theorem Guarded.begun_outcome (h : s.Guarded) {id : Nat} {ids : UniqueIds}
    (htake : s.ids.take = some (id, ids)) {channel : EventChannel}
    (hsubscribe : s.executor.events.subscribe s.executor.calls.length = some channel)
    (pool : PidPool PID_POOL_SIZE) (request : Request) :
    let begun := s.executor.begun pool channel request id
    let outcome := (settle { s with executor := begun.poll s.executor.calls.length, ids }
      s.executor.calls.length).1
    (begun.AdmitsRequest request ∧ outcome = .pending) ∨
      (¬begun.AdmitsRequest request ∧ outcome = .panicked) := by
  have hpolled := (h.begun htake hsubscribe pool request).poll_outcome
    (List.getElem?_concat_length ..) (ClientCall.inProgress_of_waiting rfl)
  rcases hpolled with ⟨hadmits, hpending | ⟨hphase, -⟩⟩ | ⟨hnot, hpanicked⟩
  · exact .inl ⟨hadmits.1 rfl, hpending⟩
  · cases hphase
  · exact .inr ⟨fun hadmits => hnot ⟨fun _ => hadmits, nofun⟩, hpanicked⟩

/-- A publish that waits for its event or panics fails cleanly if it does not panic. -/
theorem publish_failsCleanly_iff_pending {topic payload : List UInt8} {qos : QoS} {retain : Bool}
    (hcase : (s.call (.publish topic payload qos retain)).1 = .pending ∨
      (s.call (.publish topic payload qos retain)).1 = .panicked) :
    s.FailsCleanly (.publish topic payload qos retain) ↔
      (s.call (.publish topic payload qos retain)).1 = .pending := by
  refine ⟨fun hclean => hcase.resolve_right hclean.no_panic, fun hpending => ?_⟩
  refine { no_panic := ?_, restored := ?_, later := fun _ _ _ _ => CallLabel.noConfusion }
  · rw [hpending]
    exact CallOutcome.noConfusion
  · intro _ _ _ _ e _ herror
    cases hpending.symm.trans herror

/-- A publish that has an id and a place in the event channel. -/
theorem Guarded.publish_outcome (h : s.Guarded) {topic payload : List UInt8} {qos : QoS}
    {retain : Bool} {id : Nat} {ids : UniqueIds} (htake : s.ids.take = some (id, ids))
    {channel : EventChannel}
    (hsubscribe : s.executor.events.subscribe s.executor.calls.length = some channel)
    (heq : s.start (.publish topic payload qos retain) =
      settle { s with executor := s.executor.publish topic payload qos retain id, ids }
        s.executor.calls.length) :
    let takes := (qos = .atMostOnce ∨ s.executor.client.env.pool.HasPid) ∧
      (s.executor.publishesLocked = false → s.executor.client.TakesPublish topic payload)
    (takes ∧ (s.call (.publish topic payload qos retain)).1 = .pending) ∨
      (¬takes ∧ (s.call (.publish topic payload qos retain)).1 = .panicked) := by
  rw [MqttClients.call, heq]
  rcases Executor.publish_begun hsubscribe topic payload qos retain id with
    ⟨hqos, hpool, hstays⟩ | ⟨message, pool, hpid, rfl, rfl, hbegun⟩
  · -- the call has panicked before it was made
    have hnone : s.executor.calls[s.executor.calls.length]? = none :=
      List.getElem?_eq_none (Nat.le_refl _)
    refine .inr ⟨fun htakes => ?_, ?_⟩
    · exact htakes.1.elim hqos (PidPool.nextPid_eq_none_iff.mp hpool)
    · simp only [hstays, settle, hnone]
  · rw [hbegun]
    have hpid := hpid.imp_right fun hne => not_not.mp (mt PidPool.nextPid_eq_none_iff.mpr hne)
    rcases h.begun_outcome htake hsubscribe pool (.publish message) with
      ⟨hadmits, ho⟩ | ⟨hnot, ho⟩
    · exact .inl ⟨⟨hpid, hadmits⟩, ho⟩
    · exact .inr ⟨fun htakes => hnot htakes.2, ho⟩

theorem Guarded.publish_failsCleanly_iff (h : s.Guarded) (topic payload : List UInt8) (qos : QoS)
    (retain : Bool) : s.FailsCleanly (.publish topic payload qos retain) ↔
      s.Admits (.publish topic payload qos retain) := by
  have hcall : s.call (.publish topic payload qos retain) =
    s.start (.publish topic payload qos retain) := rfl
  rcases s.start_cases (.publish topic payload qos retain) with
    ⟨htake, heq⟩ | ⟨id, ids, htake, ⟨hsubscribe, heq⟩ | ⟨channel, hsubscribe, heq⟩⟩
  · refine iff_of_false (fun hclean => hclean.no_panic ?_) fun hadmits => ?_
    · rw [hcall, heq]
    · exact UniqueIds.take_eq_none_iff.mp htake hadmits.1
  · refine iff_of_false (fun hclean => ?_) fun hadmits =>
      Executor.subscribe_eq_none_iff.mp hsubscribe hadmits.2.1
    -- the id has been taken
    have hrestored := (hclean.restored topic payload qos retain .pubsubError rfl
      (by rw [hcall, heq])).ids id
    rw [hcall, heq] at hrestored
    obtain ⟨-, hfresh, hinUse⟩ := h.whole.take htake
    dsimp only at hrestored
    rw [hinUse] at hrestored
    exact hfresh (hrestored.mp List.mem_cons_self)
  · have hid := UniqueIds.hasId_of_take htake
    have hplace := Executor.hasPlace_of_subscribe hsubscribe
    rcases h.publish_outcome htake hsubscribe heq with ⟨htakes, ho⟩ | ⟨hnot, ho⟩
    · exact (publish_failsCleanly_iff_pending (.inl ho)).trans (iff_of_true ho ⟨hid, hplace, htakes⟩)
    · exact iff_of_false (fun hclean => hclean.no_panic ho) fun hadmits => hnot hadmits.2.2

/-- A subscription or the end of one. -/
theorem Guarded.request_no_panic_iff (h : s.Guarded) {topic : List UInt8} (request : Request)
    (hadmits : ∀ t : Executor QUEUE BUFFER TOPIC,
      t.AdmitsRequest request ↔ t.client.TakesRequest [topic])
    {l : Nat → Executor.ClientLabel}
    (hl : ∀ id, s.executor.clientStep (l id) = s.executor.newCall request id) :
    (s.start l).1 ≠ .panicked ↔
      s.ids.HasId ∧ (s.executor.HasPlace → s.executor.client.TakesRequest [topic]) := by
  rcases s.start_cases l with
    ⟨htake, heq⟩ | ⟨id, ids, htake, ⟨hsubscribe, heq⟩ | ⟨channel, hsubscribe, heq⟩⟩
  · rw [heq]
    exact iff_of_false (fun hne => hne rfl) fun h => UniqueIds.take_eq_none_iff.mp htake h.1
  · rw [heq]
    exact iff_of_true nofun ⟨UniqueIds.hasId_of_take htake,
      fun hplace => absurd hplace (Executor.subscribe_eq_none_iff.mp hsubscribe)⟩
  · have hid := UniqueIds.hasId_of_take htake
    have hplace := Executor.hasPlace_of_subscribe hsubscribe
    rw [heq, hl, Executor.newCall_begun hsubscribe]
    rcases h.begun_outcome htake hsubscribe s.executor.client.env.pool request with
      ⟨htakes, ho⟩ | ⟨hnot, ho⟩
    · rw [ho]
      exact iff_of_true nofun ⟨hid, fun _ => (hadmits _).mp htakes⟩
    · rw [ho]
      exact iff_of_false (fun hne => hne rfl) fun h => hnot ((hadmits _).mpr (h.2 hplace))

theorem result_of_accepts {event : MqttEvent} {message : Publish}
    (hrequest : call.request = .publish message) (haccepts : call.accepts event = true) :
    event.result = .ok () := by
  rw [ClientCall.accepts, hrequest] at haccepts
  cases event with
  | publishDone uniqueId => rfl
  | _ => cases haccepts

theorem failsCleanly_of_stays (hstays : s.call (.poll i) = (.pending, s)) :
    s.FailsCleanly (.poll i) := by
  refine { no_panic := ?_, restored := fun _ _ _ _ _ => CallLabel.noConfusion, later := ?_ }
  · rw [hstays]
    exact CallOutcome.noConfusion
  · intro _ _ _ e _ _ _ herror
    rw [hstays] at herror
    cases herror

theorem Guarded.poll_failsCleanly_iff_admitsPoll (h : s.Guarded)
    (hcall : s.executor.calls[i]? = some call) (hprogress : call.InProgress)
    (hpoll : s.call (.poll i) = settle { s with executor := s.executor.poll i } i) :
    s.FailsCleanly (.poll i) ↔ s.AdmitsPoll i call := by
  rcases h.poll_outcome hcall hprogress with ⟨hadmits, ho⟩ | ⟨hnot, ho⟩
  · rw [← hpoll] at ho
    refine iff_of_true
      { no_panic := ?_, restored := fun _ _ _ _ _ => CallLabel.noConfusion, later := ?_ } hadmits
    · rcases ho with ho | ⟨-, event, -, ho⟩ <;> rw [ho] <;> exact CallOutcome.noConfusion
    · rintro _ call' message e ⟨⟩ hcall' hrequest herror
      cases hcall.symm.trans hcall'
      rcases ho with ho | ⟨-, event, haccepts, ho⟩
      · cases ho.symm.trans herror
      · rw [result_of_accepts hrequest haccepts] at ho
        cases ho.symm.trans herror
  · exact iff_of_false (fun hclean => hclean.no_panic (by rw [hpoll]; exact ho)) hnot

theorem Guarded.poll_failsCleanly_iff (h : s.Guarded) (i : Nat) :
    s.FailsCleanly (.poll i) ↔ s.Admits (.poll i) := by
  cases hcall : s.executor.calls[i]? with
  | none =>
    have hstays : s.call (.poll i) = (.pending, s) := by
      simp only [MqttClients.call, hcall, Option.map_none]
    refine iff_of_true (failsCleanly_of_stays hstays) fun call h => ?_
    cases hcall.symm.trans h
  | some call =>
    have hone : s.Admits (.poll i) ↔ s.AdmitsPoll i call := by
      refine ⟨fun h => h call hcall, fun hadmits call' hcall' => ?_⟩
      cases hcall.symm.trans hcall'
      exact hadmits
    refine Iff.trans ?_ hone.symm
    cases hphase : call.phase with
    | waiting =>
      refine h.poll_failsCleanly_iff_admitsPoll hcall (call.inProgress_of_waiting hphase) ?_
      simp only [MqttClients.call, hcall, Option.map_some, hphase]
    | awaiting =>
      refine h.poll_failsCleanly_iff_admitsPoll hcall (call.inProgress_of_awaiting hphase) ?_
      simp only [MqttClients.call, hcall, Option.map_some, hphase]
    | ended received =>
      refine iff_of_true (failsCleanly_of_stays ?_) ⟨fun h => ?_, fun h => ?_⟩
      · simp only [MqttClients.call, hcall, Option.map_some, hphase]
      · cases hphase.symm.trans h
      · cases hphase.symm.trans h

theorem Guarded.failsCleanly_iff (h : s.Guarded) (l : CallLabel) :
    s.FailsCleanly l ↔ s.Admits l := by
  have hof {l : CallLabel} (hpublish : ∀ topic payload qos retain, l ≠ .publish topic payload qos retain)
      (hpoll : ∀ i, l ≠ .poll i) : s.FailsCleanly l ↔ (s.call l).1 ≠ .panicked :=
    ⟨FailsCleanly.no_panic, fun hne =>
      { no_panic := hne
        restored := fun topic payload qos retain _ hl => absurd hl (hpublish topic payload qos retain)
        later := fun i _ _ _ hl => absurd hl (hpoll i) }⟩
  cases l with
  | publish topic payload qos retain => exact h.publish_failsCleanly_iff topic payload qos retain
  | poll i => exact h.poll_failsCleanly_iff i
  | subscribe topic qos =>
    refine (hof (l := .subscribe topic qos) nofun nofun).trans ?_
    exact h.request_no_panic_iff (.subscribe topic qos) (fun _ => Iff.rfl) fun _ => rfl
  | unsubscribe topic =>
    refine (hof (l := .unsubscribe topic) nofun nofun).trans ?_
    exact h.request_no_panic_iff (.unsubscribe topic) (fun _ => Iff.rfl) fun _ => rfl

/-- A condition on the calls of a run. -/
def OnCalls (G : MqttClients QUEUE BUFFER TOPIC → CallLabel → Prop)
    (s : MqttClients QUEUE BUFFER TOPIC) : Label → Prop
  | .call l => G s l
  | _ => True

/-- Whatever the state is, a call of `State` panics exactly when its request is not admitted. In a run
the calls of `MqttClient` fail cleanly exactly when each of them is admitted. -/
theorem fail_cleanly_iff (topicPathCapacity : Nat) :
    (∀ (s : Client QUEUE BUFFER TOPIC) (l : Client.Label),
      s.FailsCleanly topicPathCapacity l ↔ s.Admits l) ∧
    ∀ ls : List Label,
      AllSteps (fun s l => s.next topicPathCapacity l) (OnCalls FailsCleanly)
          (new : MqttClients QUEUE BUFFER TOPIC) ls ↔
        AllSteps (fun s l => s.next topicPathCapacity l) (OnCalls Admits)
          (new : MqttClients QUEUE BUFFER TOPIC) ls := by
  refine ⟨fun s l => Client.failsCleanly_iff l, fun ls => ?_⟩
  have hstep {G : MqttClients QUEUE BUFFER TOPIC → Label → Prop} :
      ∀ (s : MqttClients QUEUE BUFFER TOPIC) l s', s.Guarded → G s l →
        s.next topicPathCapacity l = some s' → s'.Guarded := fun _ _ _ h _ hstep => h.next hstep
  have hiff (s : MqttClients QUEUE BUFFER TOPIC) (l : Label) (h : s.Guarded) :
      OnCalls FailsCleanly s l ↔ OnCalls Admits s l := by
    cases l with
    | call l => exact h.failsCleanly_iff l
    | _ => exact Iff.rfl
  exact ⟨AllSteps.of_invariant (I := Guarded) hstep (fun s l h => (hiff s l h).mp) new_guarded,
    AllSteps.of_invariant (I := Guarded) hstep (fun s l h => (hiff s l h).mpr) new_guarded⟩

/-- A topic that is a byte too long, and a publish while sixteen others are in progress. -/
theorem publish_fails_uncleanly :
    ((new : MqttClients 4 16 8).call (.publish (List.replicate 9 97) [] .atMostOnce false)).1 =
        .panicked ∧
      ∃ s : MqttClients 4 16 8,
        run (fun s l => s.next 16 l) new
          (List.replicate 16 (.call (.publish [97] [] .atMostOnce false))) = some s ∧
        (s.call (.publish [97] [] .atMostOnce false)).1 = .returned (.error .pubsubError) ∧
        16 ∉ s.ids.inUse ∧ 16 ∈ (s.call (.publish [97] [] .atMostOnce false)).2.ids.inUse := by
  refine ⟨by decide +kernel, ?_⟩
  have hany : (run (fun s l => s.next 16 l) (new : MqttClients 4 16 8)
      (List.replicate 16 (.call (.publish [97] [] .atMostOnce false)))).any (fun s =>
        (s.call (.publish [97] [] .atMostOnce false)).1 = .returned (.error .pubsubError) ∧
        16 ∉ s.ids.inUse ∧
        16 ∈ (s.call (.publish [97] [] .atMostOnce false)).2.ids.inUse) = true := by
    decide +kernel
  obtain ⟨s, hrun, hs⟩ := (Option.any_eq_true _ _).mp hany
  exact ⟨s, hrun, of_decide_eq_true hs⟩

end MqttClients

end EmbeddedMqttc
