import EmbeddedMqttc.EventLoop

/-!
# What the tasks do

A step of a client is made of moves: a call gets a subscriber, its request is queued, it reads
events, it ends. A step of the loop changes the channel only where it emits events.
-/

namespace EmbeddedMqttc

open Prog EmbeddedMqttc.Comp

variable {QUEUE BUFFER TOPIC : Nat}

namespace SubsInner

variable (c : Ctx (SubsInner TOPIC QUEUE))

/-- Whether a SUBACK or an UNSUBACK is for a request that waits for it. -/
def isAnsweredBy (q : SubsInner TOPIC QUEUE) : Packet → Bool
  | .suback suback =>
    (q.awaitAck.position fun a =>
      a.request.pid == suback.pid && !a.request.requestType.isUnsub).isSome
  | .unsuback pid =>
    (q.awaitAck.position fun a => a.request.pid == pid && a.request.requestType.isUnsub).isSome
  | _ => false

theorem onSuback_events (suback : Suback) :
    ((onSuback suback).exec c).2.env.events = c.env.events ∨
      c.inner.isAnsweredBy (.suback suback) = true ∧
        ∃ event, ((onSuback suback).exec c).2.env.events = c.env.events ++ [event] := by
  cases hanswered : c.inner.isAnsweredBy (.suback suback) with
  | false =>
    have hpos := Option.isSome_eq_false_iff.mp hanswered
    simp [onSuback, Option.isNone_iff_eq_none.mp hpos]
  | true =>
    rcases onSuback_cases suback c with h | ⟨_, entry, qos, result, -, -, -, h⟩
    · exact .inl (by rw [h])
    · exact .inr ⟨rfl, .subscribeDone entry.request.uniqueId result, by rw [h]; rfl⟩

theorem onUnsuback_events (pid : Pid) :
    ((onUnsuback pid).exec c).2.env.events = c.env.events ∨
      c.inner.isAnsweredBy (.unsuback pid) = true ∧
        ∃ event, ((onUnsuback pid).exec c).2.env.events = c.env.events ++ [event] := by
  cases hanswered : c.inner.isAnsweredBy (.unsuback pid) with
  | false =>
    have hpos := Option.isSome_eq_false_iff.mp hanswered
    simp [onUnsuback, Option.isNone_iff_eq_none.mp hpos]
  | true =>
    rcases onUnsuback_cases pid c with h | ⟨_, entry, -, -, -, h⟩
    · exact .inl (by rw [h])
    · exact .inr ⟨rfl, .unsubscribeDone entry.request.uniqueId, by rw [h]; rfl⟩

end SubsInner

/-- A call that has not ended. -/
def ClientCall.InProgress (call : ClientCall) : Prop := ∀ received, call.phase ≠ .ended received

theorem ClientCall.inProgress_of_waiting {call : ClientCall} (h : call.phase = .waiting) :
    call.InProgress := fun _ h' => nomatch h.symm.trans h'

theorem ClientCall.inProgress_of_awaiting {call : ClientCall} (h : call.phase = .awaiting) :
    call.InProgress := fun _ h' => nomatch h.symm.trans h'

namespace Executor

/-- A move of a client's call. -/
inductive ClientMove : Executor QUEUE BUFFER TOPIC → Executor QUEUE BUFFER TOPIC → Prop
  | pid (pool : PidPool PID_POOL_SIZE) :
      ClientMove s { s with client := { s.client with env := { s.client.env with pool } } }
  | subscribe {events : EventChannel} (hevents : s.events.subscribe s.calls.length = some events)
      (hphase : call.phase = .waiting) :
      ClientMove s { s with events, calls := s.calls ++ [call] }
  | queue (i : Nat) (hi : s.calls[i]? = some call) (hphase : call.phase = .waiting)
      (sendPublish : BoundedVec (OwnedPublish BUFFER TOPIC) QUEUE)
      (sendRequest : BoundedVec (SubRequest TOPIC) QUEUE) (pool : PidPool PID_POOL_SIZE)
      (hlocked : s.publishesLocked = true → sendPublish = s.client.publishes.sendPublish) :
      ClientMove s
        ({ s with
            client :=
              { s.client with
                publishes := { s.client.publishes with sendPublish }
                subscribes := { s.client.subscribes with sendRequest }
                env := { s.client.env with pool } } }.requestAdded i)
  /-- The call has read all that there was, and none of it was accepted. -/
  | read (i : Nat) (hi : s.calls[i]? = some call) (hphase : call.phase = .awaiting) {events : EventChannel}
      (hother : ∀ j, j ≠ i → events.unread j = s.events.unread j) {u : List MqttEvent}
      (hu : s.events.unread i = some u) (hnone : ∀ event ∈ u, call.accepts event = false)
      (hi' : events.unread i = some []) :
      ClientMove s { s with events }
  | finish (i : Nat) (hi : s.calls[i]? = some call) (hphase : call.InProgress) {events : EventChannel}
      (hother : ∀ j, j ≠ i → events.unread j = s.events.unread j) (received : Option MqttEvent) :
      ClientMove s ({ s with events }.finish i received)
  | disconnect : ClientMove s (s.notify .disconnect)

variable {s s' : Executor QUEUE BUFFER TOPIC} {i j : Nat} {call : ClientCall}

/-! ## The list of calls -/

theorem getElem?_concat_calls {calls : List ClientCall} {new : ClientCall}
    (h : (calls ++ [new])[j]? = some call) :
    (j ≠ calls.length ∧ calls[j]? = some call) ∨ (j = calls.length ∧ call = new) := by
  by_cases hlt : j < calls.length
  · rw [List.getElem?_append_left hlt] at h
    exact .inl ⟨Nat.ne_of_lt hlt, h⟩
  · rw [List.getElem?_append_right (Nat.le_of_not_lt hlt), List.getElem?_singleton] at h
    split at h
    · cases h
      exact .inr ⟨by omega, rfl⟩
    · cases h

theorem getElem?_modify_calls {calls : List ClientCall} {f : ClientCall → ClientCall}
    (h : (calls.modify i f)[j]? = some call) :
    (j ≠ i ∧ calls[j]? = some call) ∨ (j = i ∧ ∃ old, calls[i]? = some old ∧ call = f old) := by
  rw [List.getElem?_modify] at h
  by_cases hij : i = j
  · subst hij
    simp only [if_true, Option.map_eq_map, Option.map_eq_some_iff] at h
    obtain ⟨old, hold, rfl⟩ := h
    exact .inr ⟨rfl, old, hold, rfl⟩
  · simp only [hij, if_false, id_map'] at h
    exact .inl ⟨Ne.symm hij, h⟩

/-! ## Reading events -/

theorem readEvents_cases {accepts : MqttEvent → Bool} {events : EventChannel} {u : List MqttEvent}
    (hu : events.unread i = some u) :
    ∃ events', (∀ j, j ≠ i → events'.unread j = events.unread j) ∧
      readEvents accepts i events u.length = (u.find? accepts, events') ∧
      (u.find? accepts = none → events'.unread i = some []) := by
  induction u generalizing events with
  | nil => exact ⟨events, fun _ _ => rfl, rfl, fun _ => hu⟩
  | cons event rest ih =>
    obtain ⟨events₁, hnext⟩ := PubSubChannel.exists_nextMessage hu
    have hread (j : Nat) : events₁.unread j = if j = i then some rest else events.unread j := by
      obtain ⟨rest', hu', h⟩ := PubSubChannel.unread_nextMessage hnext j
      cases hu.symm.trans hu'
      exact h
    simp only [List.length_cons, readEvents, hnext, List.find?_cons]
    cases haccepts : accepts event with
    | true => exact ⟨_, fun j hj => (hread j).trans (if_neg hj), rfl, fun h => by cases h⟩
    | false =>
      obtain ⟨events', hother, hrest, hnone⟩ := ih ((hread i).trans (if_pos rfl))
      exact ⟨events', fun j hj => (hother j hj).trans ((hread j).trans (if_neg hj)), hrest, hnone⟩

/-! ## The moves of clients -/

theorem ClientMove.loop (h : ClientMove s s') : s'.loop = s.loop := by
  cases h <;> rfl

theorem ClientMove.polling (h : ClientMove s s') : s'.polling = s.polling := by
  cases h <;> rfl

theorem ClientMove.emitted (h : ClientMove s s') : s'.emitted = s.emitted := by
  cases h <;> rfl

abbrev ClientMoves : Executor QUEUE BUFFER TOPIC → Executor QUEUE BUFFER TOPIC → Prop :=
  Relation.ReflTransGen ClientMove

/-- A request that is not queued leaves the client as it is. -/
theorem attempt_cases (s : Executor QUEUE BUFFER TOPIC) (call : ClientCall) :
    (∃ x, s.attempt call = (.error x, s.client)) ∨
      ∃ sendPublish sendRequest pool,
        (s.publishesLocked = true → sendPublish = s.client.publishes.sendPublish) ∧
        s.attempt call =
          (.ok ⟨⟩,
            { s.client with
              publishes := { s.client.publishes with sendPublish }
              subscribes := { s.client.subscribes with sendRequest }
              env := { s.client.env with pool } }) := by
  have hadd (requestType : RequestType) (topics : List (List UInt8)) :
      (∃ x, s.client.callSubscribes (SubsInner.addRequest requestType topics call.uniqueId) =
          (.error x, s.client)) ∨
        ∃ sendRequest pool,
          s.client.callSubscribes (SubsInner.addRequest requestType topics call.uniqueId) =
            (.ok ⟨⟩,
              { s.client with
                subscribes := { s.client.subscribes with sendRequest }
                env := { s.client.env with pool } }) := by
    unfold Client.callSubscribes
    rcases SubsInner.addRequest_cases ⟨s.client.subscribes, s.client.env⟩ requestType topics
      call.uniqueId with ⟨x, h⟩ | ⟨request, rest, pool, -, -, -, -, h⟩ <;> rw [h]
    · exact .inl ⟨x, rfl⟩
    · exact .inr ⟨rest, pool, rfl⟩
  unfold attempt
  cases call.request with
  | publish message =>
    cases hlocked : s.publishesLocked with
    | true => exact .inl ⟨.parked, rfl⟩
    | false =>
      simp only [Bool.false_eq_true, if_false, Client.callPublishes]
      rcases Publishes.publish_cases ⟨s.client.publishes, s.client.env⟩ message call.uniqueId with
        h | ⟨e, -, h⟩ | ⟨entry, queue, -, -, h⟩ <;> rw [h]
      · exact .inl ⟨.parked, rfl⟩
      · exact .inl ⟨.panic, rfl⟩
      · exact .inr ⟨queue, s.client.subscribes.sendRequest, s.client.env.pool, False.elim, rfl⟩
  | subscribe topic qos =>
    rcases hadd (.subscribe qos) [topic] with h | ⟨sendRequest, pool, h⟩
    · exact .inl h
    · exact .inr ⟨_, sendRequest, pool, fun _ => rfl, h⟩
  | unsubscribe topic =>
    rcases hadd .unsubscribe [topic] with h | ⟨sendRequest, pool, h⟩
    · exact .inl h
    · exact .inr ⟨_, sendRequest, pool, fun _ => rfl, h⟩

/-- A call that waits for its event goes on waiting or ends. -/
theorem awaitEvent_cases {accepts : MqttEvent → Bool} {u : List MqttEvent}
    (hu : s.events.unread i = some u) :
    ∃ events : EventChannel, (∀ j, j ≠ i → events.unread j = s.events.unread j) ∧
      ((u.find? accepts = none ∧ events.unread i = some [] ∧
          s.awaitEvent i accepts = { s with events }) ∨
        ∃ event, u.find? accepts = some event ∧
          s.awaitEvent i accepts = { s with events }.finish i (some event)) := by
  obtain ⟨events, hother, hread, hnone⟩ : ∃ events : EventChannel,
      (∀ j, j ≠ i → events.unread j = s.events.unread j) ∧
      readEvents accepts i s.events u.length = (u.find? accepts, events) ∧
      (u.find? accepts = none → events.unread i = some []) := readEvents_cases hu
  refine ⟨events, hother, ?_⟩
  rw [awaitEvent, hu, Option.getD_some, hread]
  cases hfind : u.find? accepts with
  | none => exact .inl ⟨rfl, hnone hfind, rfl⟩
  | some event => exact .inr ⟨event, rfl, rfl⟩

theorem awaitEvent_moves (hi : s.calls[i]? = some call) (hphase : call.phase = .awaiting) :
    ClientMoves s (s.awaitEvent i call.accepts) := by
  cases hu : s.events.unread i with
  | none =>
    rw [awaitEvent, hu]
    exact .refl
  | some u =>
    obtain ⟨events, hother, ⟨hnone, hi', h⟩ | ⟨event, -, h⟩⟩ := awaitEvent_cases hu
    · rw [h]
      refine .single (.read i hi hphase hother hu (fun event hevent => ?_) hi')
      simpa using List.find?_eq_none.mp hnone event hevent
    · rw [h]
      exact .single (.finish i hi (call.inProgress_of_awaiting hphase) hother _)

theorem calls_requestAdded (hi : s.calls[i]? = some call) : (s.requestAdded i).calls[i]? =
    some { call with phase := .awaiting, since := s.emitted.length } := by
  simp [requestAdded, hi]

theorem requestAdded_moves (hi : s.calls[i]? = some call) :
    ClientMoves (s.requestAdded i) ((s.requestAdded i).awaitEvent i call.accepts) := by
  have h := awaitEvent_moves (calls_requestAdded hi) rfl
  exact h

theorem poll_moves (s : Executor QUEUE BUFFER TOPIC) (i : Nat) : ClientMoves s (s.poll i) := by
  unfold poll
  cases hi : s.calls[i]? with
  | none => exact .refl
  | some call =>
    cases hphase : call.phase with
    | ended received => simp only [hphase]; exact .refl
    | awaiting => simp only [hphase]; exact awaitEvent_moves hi hphase
    | waiting =>
      have hprogress := call.inProgress_of_waiting hphase
      simp only [hphase]
      rcases attempt_cases s call with ⟨x, h⟩ | ⟨sendPublish, sendRequest, pool, hlocked, h⟩
      · rw [h]
        cases x with
        | parked => exact .refl
        | fail e => exact .single (.finish i hi hprogress (fun _ _ => rfl) none)
        | panic => exact .single (.finish i hi hprogress (fun _ _ => rfl) none)
      · rw [h]
        refine .head (.queue i hi hphase sendPublish sendRequest pool hlocked) ?_
        exact requestAdded_moves hi

theorem newCall_moves (s : Executor QUEUE BUFFER TOPIC) (request : Request) (id : Nat) :
    ClientMoves s (s.newCall request id) := by
  unfold newCall
  cases hevents : s.events.subscribe s.calls.length with
  | none => exact .refl
  | some events => exact .head (.subscribe hevents rfl) (poll_moves ..)

theorem publish_moves (s : Executor QUEUE BUFFER TOPIC) (topic payload : List UInt8) (qos : QoS)
    (retain : Bool) (id : Nat) : ClientMoves s (s.publish topic payload qos retain id) := by
  unfold publish
  cases s.events.subscribe s.calls.length with
  | none => exact .refl
  | some events =>
    dsimp only [Client.callPublishes]
    rcases State.newPublish_cases ⟨s.client.publishes, s.client.env⟩ topic payload qos retain with
      h | ⟨message, -, -, -, ⟨-, h⟩ | ⟨pid, pool, -, -, h⟩⟩
    · rw [h]
    · rw [h]
      exact newCall_moves ..
    · rw [h]
      exact .head (.pid pool) (newCall_moves ..)

theorem drop_moves (s : Executor QUEUE BUFFER TOPIC) (i : Nat) : ClientMoves s (s.drop i) := by
  unfold drop
  cases hi : s.calls[i]? with
  | none => exact .refl
  | some call =>
    cases hphase : call.phase with
    | ended received => simp only [Option.map_some, hphase]; exact .refl
    | waiting =>
      simp only [Option.map_some, hphase]
      exact .single (.finish i hi (call.inProgress_of_waiting hphase) (fun _ _ => rfl) none)
    | awaiting =>
      simp only [Option.map_some, hphase]
      exact .single (.finish i hi (call.inProgress_of_awaiting hphase) (fun _ _ => rfl) none)

/-- A step of a client is made of moves. -/
theorem clientStep_moves (s : Executor QUEUE BUFFER TOPIC) (l : ClientLabel) :
    ClientMoves s (s.clientStep l) := by
  cases l with
  | publish topic payload qos retain id => exact publish_moves ..
  | subscribe topic qos id => exact newCall_moves ..
  | unsubscribe topic id => exact newCall_moves ..
  | poll i => exact poll_moves ..
  | drop i => exact drop_moves ..
  | disconnect => exact .single .disconnect

/-- What the moves of clients keep holds after a step of a client. -/
theorem clientStep_invariant {I : Executor QUEUE BUFFER TOPIC → Prop}
    (hmove : ∀ s s', ClientMove s s' → I s → I s') (hs : I s) (l : ClientLabel) :
    I (s.clientStep l) := by
  have hmoves := clientStep_moves s l
  generalize s.clientStep l = t at hmoves ⊢
  induction hmoves with
  | refl => exact hs
  | tail _ hstep ih => exact hmove _ _ hstep ih

/-! ## The calls that a step does not address -/

/-- The call that a step polls or drops. -/
def ClientLabel.target : ClientLabel → Option Nat
  | .poll i | .drop i => some i
  | _ => none

/-- The call `i` and what it has to read are as before. -/
structure LeavesCall (i : Nat) (s s' : Executor QUEUE BUFFER TOPIC) : Prop where
  call : s'.calls[i]? = s.calls[i]?
  unread : s'.events.unread i = s.events.unread i

theorem LeavesCall.refl : LeavesCall i s s := ⟨rfl, rfl⟩

theorem LeavesCall.trans {t : Executor QUEUE BUFFER TOPIC} (h : LeavesCall i s s')
    (h' : LeavesCall i s' t) : LeavesCall i s t :=
  ⟨h'.call.trans h.call, h'.unread.trans h.unread⟩

theorem finish_leavesCall (hij : i ≠ j) (received : Option MqttEvent) :
    LeavesCall i s (s.finish j received) := by
  refine ⟨?_, ?_⟩
  · exact List.getElem?_modify_ne _ _ (Ne.symm hij)
  · rw [finish, PubSubChannel.unread_unsubscribe, if_neg hij]

theorem readEvents_leavesCall (accepts : MqttEvent → Bool) (hij : i ≠ j) (events : EventChannel)
    (n : Nat) : (readEvents accepts j events n).2.unread i = events.unread i := by
  induction n generalizing events with
  | zero => rfl
  | succ n ih =>
    rw [readEvents]
    cases hnext : events.nextMessage j with
    | none => rfl
    | some next =>
      obtain ⟨event, events'⟩ := next
      obtain ⟨rest, -, hunread⟩ := PubSubChannel.unread_nextMessage hnext i
      rw [if_neg hij] at hunread
      dsimp only
      split
      · exact hunread
      · exact (ih events').trans hunread

theorem awaitEvent_leavesCall (hij : i ≠ j) (accepts : MqttEvent → Bool) :
    LeavesCall i s (s.awaitEvent j accepts) := by
  have hunread := readEvents_leavesCall accepts hij s.events
    ((s.events.unread j).getD []).length
  unfold awaitEvent
  split
  · rename_i events hread
    rw [hread] at hunread
    exact ⟨rfl, hunread⟩
  · rename_i event events hread
    rw [hread] at hunread
    have hleaves : LeavesCall i s { s with events } := ⟨rfl, hunread⟩
    exact hleaves.trans (finish_leavesCall hij _)

theorem poll_leavesCall (hij : i ≠ j) : LeavesCall i s (s.poll j) := by
  unfold poll
  cases hj : s.calls[j]? with
  | none => exact .refl
  | some call =>
    cases hphase : call.phase with
    | ended received => simp only [hphase]; exact .refl
    | awaiting => simp only [hphase]; exact awaitEvent_leavesCall hij _
    | waiting =>
      simp only [hphase]
      split
      · refine .trans ?_ (awaitEvent_leavesCall hij _)
        exact ⟨List.getElem?_modify_ne _ _ (Ne.symm hij), rfl⟩
      · exact ⟨rfl, rfl⟩
      · rename_i x client _ _
        have hleaves : LeavesCall i s { s with client } := ⟨rfl, rfl⟩
        exact hleaves.trans (finish_leavesCall hij none)

theorem newCall_leavesCall (hi : i < s.calls.length) (request : Request) (id : Nat) :
    LeavesCall i s (s.newCall request id) := by
  have hne : i ≠ s.calls.length := Nat.ne_of_lt hi
  unfold newCall
  split
  · exact .refl
  · rename_i events hevents
    refine .trans ⟨?_, ?_⟩ (poll_leavesCall hne)
    · exact List.getElem?_append_left hi
    · dsimp only
      rw [PubSubChannel.unread_subscribe hevents, if_neg hne]

/-- A step changes no call in progress but the one that it addresses. -/
theorem clientStep_leavesCall {l : ClientLabel} (hi : i < s.calls.length) (hl : l.target ≠ some i) :
    LeavesCall i s (s.clientStep l) := by
  cases l with
  | publish topic payload qos retain id =>
    simp only [clientStep, publish]
    split
    · exact .refl
    · split
      · exact ⟨rfl, rfl⟩
      · rename_i client _
        have hleaves : LeavesCall i s { s with client } := ⟨rfl, rfl⟩
        exact hleaves.trans (newCall_leavesCall (s := { s with client }) hi _ _)
  | subscribe topic qos id => exact newCall_leavesCall hi _ _
  | unsubscribe topic id => exact newCall_leavesCall hi _ _
  | poll j => exact poll_leavesCall fun h => hl (congrArg some h.symm)
  | drop j =>
    have hne : i ≠ j := fun h => hl (congrArg some h.symm)
    simp only [clientStep, drop]
    split
    · exact finish_leavesCall hne none
    · exact finish_leavesCall hne none
    · exact .refl
  | disconnect => exact ⟨rfl, rfl⟩

/-! ## The steps of the loop -/

theorem whenAt_eq_some_iff {stage : LoopStage} {t : Executor QUEUE BUFFER TOPIC} :
    s.whenAt stage t = some s' ↔ s.loop = .going stage ∧ t = s' := by
  unfold whenAt
  split <;> simp [*]

/-- A step of the run: of the loop while it is polled, of a client while it is suspended. -/
theorem next_cases {topicPathCapacity : Nat} {l : Label} (h : s.next topicPathCapacity l = some s') :
    (l = .run ∧ s.polling = false ∧ s.loop = .going .stopped ∧ s' = s.goTo .start) ∨
      (l = .wake ∧ s.polling = false ∧ s' = { s with polling := true, woken := false }) ∨
      (∃ m, l = .loop m ∧ s.polling = true ∧ s.loopStep topicPathCapacity m = some s') ∨
      ∃ m, l = .client m ∧ s.polling = false ∧ s' = s.clientStep m := by
  cases hpolling : s.polling with
  | true => cases l <;> simp_all [next]
  | false =>
    cases l with
    | run =>
      simp only [next, hpolling, Bool.false_eq_true, if_false] at h
      obtain ⟨hloop, h⟩ := whenAt_eq_some_iff.mp h
      exact .inl ⟨rfl, rfl, hloop, h.symm⟩
    | wake =>
      simp only [next, hpolling, Bool.false_eq_true, false_or] at h
      split at h
      · cases h
      · exact .inr (.inl ⟨rfl, rfl, (Option.some.inj h).symm⟩)
    | loop l => simp [next, hpolling] at h
    | client l =>
      simp only [next, hpolling, Bool.false_eq_true, if_false, Option.some.injEq] at h
      exact .inr (.inr (.inr ⟨l, rfl, rfl, h.symm⟩))

/-- What a step of the loop puts in the channel: nothing, an event with the mutex of `Publishes`
held, or an event of `Subs`. -/
inductive Emits (s s' : Executor QUEUE BUFFER TOPIC) : LoopLabel → Prop
  | nothing (hevents : s'.events = s.events) (hemitted : s'.emitted = s.emitted) : Emits s s' l
  | publish (event : MqttEvent) (hevents : s.events.publish event = some s'.events)
      (hemitted : s'.emitted = s.emitted ++ [event]) : Emits s s' .emit
  | immediate (hloop : s.loop = .going (.process packet))
      (hanswered : s.client.subscribes.isAnsweredBy packet = true) (event : MqttEvent)
      (hevents : s'.events = s.events.publishImmediate event)
      (hemitted : s'.emitted = s.emitted ++ [event]) : Emits s s' (.process ticks)

theorem newEvents_of_eq {client : Client QUEUE BUFFER TOPIC}
    (h : client.env.events = s.client.env.events) : s.newEvents client = [] := by
  rw [newEvents, h, List.drop_length]

theorem newEvents_of_concat {client : Client QUEUE BUFFER TOPIC} {event : MqttEvent}
    (h : client.env.events = s.client.env.events ++ [event]) : s.newEvents client = [event] := by
  rw [newEvents, h, List.drop_left]

/-- Of the packets that `Publishes` does not process only a SUBACK or UNSUBACK that is waited for has
an event. -/
theorem newEvents_process {packet : Packet} (ticks : List Duration)
    (hpuback : ∀ pid, packet ≠ .puback pid) (hpubrec : ∀ pid, packet ≠ .pubrec pid)
    (hpubcomp : ∀ pid, packet ≠ .pubcomp pid) :
    s.newEvents ((s.client.scripted [] ticks).processPacket packet).2 = [] ∨
      s.client.subscribes.isAnsweredBy packet = true ∧
        ∃ event, s.newEvents ((s.client.scripted [] ticks).processPacket packet).2 = [event] := by
  cases packet with
  | puback pid => exact absurd rfl (hpuback pid)
  | pubrec pid => exact absurd rfl (hpubrec pid)
  | pubcomp pid => exact absurd rfl (hpubcomp pid)
  | suback suback =>
    rcases SubsInner.onSuback_events
      ⟨s.client.subscribes, (s.client.scripted [] ticks).env⟩ suback with
      h | ⟨hanswered, event, h⟩
    · exact .inl (newEvents_of_eq h)
    · exact .inr ⟨hanswered, event, newEvents_of_concat h⟩
  | unsuback pid =>
    rcases SubsInner.onUnsuback_events
      ⟨s.client.subscribes, (s.client.scripted [] ticks).env⟩ pid with
      h | ⟨hanswered, event, h⟩
    · exact .inl (newEvents_of_eq h)
    · exact .inr ⟨hanswered, event, newEvents_of_concat h⟩
  | publish message =>
    have henv := Receives.onPublish_env ⟨s.client.receives, (s.client.scripted [] ticks).env⟩ message
    have hevents := congrArg Env.events henv
    exact .inl (newEvents_of_eq hevents)
  | pubrel pid =>
    have henv := Receives.onPubrel_env ⟨s.client.receives, (s.client.scripted [] ticks).env⟩ pid
    have hevents := congrArg Env.events henv
    exact .inl (newEvents_of_eq hevents)
  | pingresp => exact .inl (newEvents_of_eq rfl)
  | _ => exact .inl (newEvents_of_eq rfl)

variable {events : List MqttEvent} {locked : LockedCall}

@[simp] theorem goTo_calls (stage : LoopStage) : (s.goTo stage).calls = s.calls := rfl

@[simp] theorem goTo_events (stage : LoopStage) : (s.goTo stage).events = s.events := rfl

@[simp] theorem goTo_emitted (stage : LoopStage) : (s.goTo stage).emitted = s.emitted := rfl

@[simp] theorem goTo_client (stage : LoopStage) : (s.goTo stage).client = s.client := rfl

@[simp] theorem goTo_loop (stage : LoopStage) : (s.goTo stage).loop = .going stage := rfl

@[simp] theorem hold_calls : (s.hold events locked).calls = s.calls := by
  cases events <;> rfl

@[simp] theorem hold_events : (s.hold events locked).events = s.events := by
  cases events <;> rfl

@[simp] theorem hold_emitted : (s.hold events locked).emitted = s.emitted := by
  cases events <;> rfl

@[simp] theorem hold_client : (s.hold events locked).client = s.client := by
  cases events <;> rfl

theorem hold_polling (hlocked : (s.hold events locked).publishesLocked = true) :
    (s.hold events locked).polling = s.polling := by
  cases events with
  | nil => cases hlocked
  | cons event rest => rfl

/-- The state after the loop has put an event in the channel or has been suspended. -/
theorem emit_cases (h : s.emit = some s') :
    ∃ event rest locked, s.loop = .publishing event rest locked ∧
      ((s.events.publish event = none ∧ s' = { s with polling := false }) ∨
        ∃ events, s.events.publish event = some events ∧
          s' = { s with events, emitted := s.emitted ++ [event] }.hold rest locked) := by
  unfold emit at h
  cases hloop : s.loop with
  | going stage => simp [hloop] at h
  | publishing event rest locked =>
    rw [hloop] at h
    refine ⟨event, rest, locked, rfl, ?_⟩
    cases hevents : s.events.publish event with
    | none =>
      simp only [hevents, Option.some.injEq] at h
      exact .inl ⟨rfl, h.symm⟩
    | some events =>
      simp only [hevents, Option.some.injEq] at h
      exact .inr ⟨events, rfl, h.symm⟩

/-- A step of the loop with the mutex of `Publishes` released that does not touch the channel. -/
structure Quiet (s s' : Executor QUEUE BUFFER TOPIC) : Prop where
  calls : s'.calls = s.calls
  events : s'.events = s.events
  emitted : s'.emitted = s.emitted
  going : ∃ stage, s'.loop = .going stage

theorem Quiet.goTo (s : Executor QUEUE BUFFER TOPIC) (stage : LoopStage) : Quiet s (s.goTo stage) :=
  ⟨rfl, rfl, rfl, stage, rfl⟩

theorem Quiet.stay {stage : LoopStage} (hloop : s.loop = .going stage) (client polling woken) :
    Quiet s { s with client, polling, woken } := ⟨rfl, rfl, rfl, stage, hloop⟩

theorem select_quiet (hloop : s.loop = .going .select) (ready : Ready) : Quiet s (s.select ready) := by
  unfold select
  split
  · exact ⟨rfl, rfl, rfl, _, rfl⟩
  · exact ⟨rfl, rfl, rfl, _, rfl⟩
  · split
    · exact ⟨rfl, rfl, rfl, _, hloop⟩
    · exact ⟨rfl, rfl, rfl, _, rfl⟩
    · exact ⟨rfl, rfl, rfl, _, rfl⟩
    · exact ⟨rfl, rfl, rfl, _, rfl⟩

theorem loopStep_cases {topicPathCapacity : Nat} {l : LoopLabel}
    (h : s.loopStep topicPathCapacity l = some s') :
    Quiet s s' ∨
      (∃ answers ticks, l = .sendPublishes answers ticks ∧ s.loop = .going .start ∧
        s' = s.sendPublishes answers ticks) ∨
      (l = .emit ∧ s.emit = some s') ∨
      ∃ packet ticks, l = .process ticks ∧ s.loop = .going (.process packet) ∧
        s' = s.process packet ticks := by
  cases l with
  | connectFails e =>
    obtain ⟨-, rfl⟩ := whenAt_eq_some_iff.mp h
    exact .inl (.goTo s _)
  | autoSubscribe =>
    obtain ⟨hloop, rfl⟩ := whenAt_eq_some_iff.mp h
    refine .inl ?_
    split
    · exact .stay hloop ..
    · exact ⟨rfl, rfl, rfl, _, rfl⟩
  | autoSubscribed =>
    obtain ⟨hloop, rfl⟩ := whenAt_eq_some_iff.mp h
    exact .inl (.stay hloop ..)
  | suspend =>
    simp only [loopStep] at h
    split at h
    · rename_i stage hloop
      split at h
      · cases h
        exact .inl (.stay hloop ..)
      · cases h
    · cases h
  | sendPublishes answers ticks =>
    obtain ⟨hloop, rfl⟩ := whenAt_eq_some_iff.mp h
    exact .inr (.inl ⟨answers, ticks, rfl, hloop, rfl⟩)
  | emit => exact .inr (.inr (.inl ⟨rfl, h⟩))
  | sendReceives answers | sendSubscribes answers ticks | sendPing answers ticks =>
    obtain ⟨-, rfl⟩ := whenAt_eq_some_iff.mp h
    exact .inl ⟨rfl, rfl, rfl, _, rfl⟩
  | runIoNonblocking outcome =>
    obtain ⟨-, rfl⟩ := whenAt_eq_some_iff.mp h
    refine .inl ?_
    split
    · exact .goTo s _
    · exact .goTo s _
    · exact .goTo s _
  | select ready =>
    obtain ⟨hloop, rfl⟩ := whenAt_eq_some_iff.mp h
    exact .inl (select_quiet hloop ready)
  | process ticks =>
    simp only [loopStep] at h
    split at h
    · rename_i packet hloop
      exact .inr (.inr (.inr ⟨packet, ticks, rfl, hloop, (Option.some.inj h).symm⟩))
    · cases h

/-- An acknowledgement of a publish holds the mutex; another packet that is processed emits at most
one event, at once. -/
theorem process_cases (s : Executor QUEUE BUFFER TOPIC) (packet : Packet) (ticks : List Duration) :
    (∃ client events result,
      s.process packet ticks = { s with client }.hold events (.processIncomingPacket result)) ∨
      (∃ client result, s.process packet ticks = { s with client }.goTo (.afterProcess result)) ∨
      (s.client.subscribes.isAnsweredBy packet = true ∧ ∃ client event result,
        s.process packet ticks =
          ({ s with client }.publishImmediate event).goTo (.afterProcess result)) := by
  by_cases hack : (∃ pid, packet = .puback pid) ∨ (∃ pid, packet = .pubrec pid) ∨
      ∃ pid, packet = .pubcomp pid
  · obtain ⟨pid, rfl⟩ | ⟨pid, rfl⟩ | ⟨pid, rfl⟩ := hack <;> exact .inl ⟨_, _, _, rfl⟩
  · simp only [not_or, not_exists] at hack
    have hprocess : s.process packet ticks =
        ((s.newEvents ((s.client.scripted [] ticks).processPacket packet).2).foldl publishImmediate
          { s with client := ((s.client.scripted [] ticks).processPacket packet).2 }).goTo
          (.afterProcess ((s.client.scripted [] ticks).processPacket packet).1) := by
      cases packet with
      | puback pid => exact absurd rfl (hack.1 pid)
      | pubrec pid => exact absurd rfl (hack.2.1 pid)
      | pubcomp pid => exact absurd rfl (hack.2.2 pid)
      | _ => rfl
    rw [hprocess]
    rcases newEvents_process ticks hack.1 hack.2.1 hack.2.2 with h | ⟨hanswered, event, h⟩ <;> rw [h]
    · exact .inr (.inl ⟨_, _, rfl⟩)
    · exact .inr (.inr ⟨hanswered, _, event, _, rfl⟩)

theorem loopStep_calls {topicPathCapacity : Nat} {l : LoopLabel}
    (h : s.loopStep topicPathCapacity l = some s') : s'.calls = s.calls ∧ Emits s s' l := by
  rcases loopStep_cases h with hquiet | ⟨answers, ticks, rfl, -, rfl⟩ | ⟨rfl, hemit⟩ |
    ⟨packet, ticks, rfl, hloop, rfl⟩
  · exact ⟨hquiet.calls, .nothing hquiet.events hquiet.emitted⟩
  · exact ⟨hold_calls, .nothing hold_events hold_emitted⟩
  · obtain ⟨event, rest, locked, -, ⟨-, rfl⟩ | ⟨events, hevents, rfl⟩⟩ := emit_cases hemit
    · exact ⟨rfl, .nothing rfl rfl⟩
    · exact ⟨hold_calls, .publish event (by rw [hold_events]; exact hevents) hold_emitted⟩
  · rcases process_cases s packet ticks with ⟨client, events, result, h⟩ | ⟨client, result, h⟩ |
      ⟨hanswered, client, event, result, h⟩ <;> rw [h]
    · exact ⟨hold_calls, .nothing hold_events hold_emitted⟩
    · exact ⟨rfl, .nothing rfl rfl⟩
    · exact ⟨rfl, .immediate hloop hanswered event rfl rfl⟩

/-- The loop is suspended with the mutex of `Publishes` held only because the channel is full. -/
theorem loopStep_locked {topicPathCapacity : Nat} {l : LoopLabel} (hpolling : s.polling = true)
    (h : s.loopStep topicPathCapacity l = some s') (hlocked : s'.publishesLocked = true) :
    s'.polling = true ∨ (l = .emit ∧ s.events.isFull = true ∧ s' = { s with polling := false }) := by
  rcases loopStep_cases h with hquiet | ⟨answers, ticks, rfl, -, rfl⟩ | ⟨rfl, hemit⟩ |
    ⟨packet, ticks, rfl, hloop, rfl⟩
  · obtain ⟨stage, hgoing⟩ := hquiet.going
    rw [publishesLocked, hgoing] at hlocked
    cases hlocked
  · exact .inl ((hold_polling hlocked).trans hpolling)
  · obtain ⟨event, rest, locked, -, ⟨hevents, rfl⟩ | ⟨events, hevents, rfl⟩⟩ := emit_cases hemit
    · refine .inr ⟨rfl, ?_, rfl⟩
      by_contra hroom
      obtain ⟨events, h⟩ := PubSubChannel.exists_publish (Bool.eq_false_iff.mpr hroom) event
      cases hevents.symm.trans h
    · exact .inl ((hold_polling hlocked).trans hpolling)
  · rcases process_cases s packet ticks with ⟨client, events, result, h⟩ | ⟨client, result, h⟩ |
      ⟨hanswered, client, event, result, h⟩ <;> rw [h] at hlocked ⊢
    · exact .inl ((hold_polling hlocked).trans hpolling)
    · cases hlocked
    · cases hlocked

end Executor

end EmbeddedMqttc
