import EmbeddedMqttc.EventLoopSpec

/-!
# Calls and the event loop that wait for each other

The loop puts the completion of a publish in the channel while it holds the mutex of `Publishes`. A
call subscribes to the channel before it waits for this mutex, and it does not read while it waits.
When the channel fills up with events that such a call has not read, neither can go on. The same happens
when a call is dropped that has lagged: nobody will read the events that are then in the channel.
-/

namespace EmbeddedMqttc

open Run

variable {QUEUE BUFFER TOPIC : Nat}

namespace Executor

variable (s : Executor QUEUE BUFFER TOPIC)

/-- The call waits for a free slot in the queue of `Subs`. -/
def waitsForSlot (call : ClientCall) : Bool :=
  call.phase = .waiting &&
    match call.request with
    | .publish _ => false
    | .subscribe .. | .unsubscribe _ => true

/-- A call that only the loop can let go on: for the mutex of `Publishes`, or for a free slot in the
queue of its request. -/
def waitsForLoop (call : ClientCall) : Bool :=
  call.phase = .waiting &&
    match call.request with
    | .publish _ => s.publishesLocked || s.client.publishes.sendPublish.isFull
    | .subscribe .. | .unsubscribe _ => s.client.subscribes.sendRequest.isFull

/-- The loop waits for room in the channel with the mutex of `Publishes` held, and the channel is
full because of calls that wait for the loop. -/
structure Deadlocked : Prop where
  suspended : s.polling = false
  locked : s.publishesLocked = true
  full : s.events.isFull = true
  waits : ∀ i ∈ s.events.keepers, (s.calls[i]?).any s.waitsForLoop = true

instance : Decidable s.Deadlocked :=
  decidable_of_iff
    (s.polling = false ∧ s.publishesLocked = true ∧ s.events.isFull = true ∧
      ∀ i ∈ s.events.keepers, (s.calls[i]?).any s.waitsForLoop = true)
    ⟨fun ⟨h₁, h₂, h₃, h₄⟩ => ⟨h₁, h₂, h₃, h₄⟩, fun ⟨h₁, h₂, h₃, h₄⟩ => ⟨h₁, h₂, h₃, h₄⟩⟩

/-- A call of `subscribe` or `unsubscribe` may get a slot in this step. -/
def asksForSlot : ClientLabel → Bool
  | .subscribe .. | .unsubscribe .. => true
  | .poll i => (s.calls[i]?).any waitsForSlot
  | .publish .. | .drop _ | .disconnect => false

/-- The step may take the last slot in the queue of `Subs`. -/
def asksForLastSlot (l : ClientLabel) : Bool :=
  s.asksForSlot l && s.client.subscribes.sendRequest.len + 1 = QUEUE

/-- The call panics when it queues its request. -/
def attemptFails (call : ClientCall) : Bool :=
  match (s.attempt call).1 with
  | .ok _ | .error .parked => false
  | .error _ => true

/-- The call whose subscriber is dropped in this step although it has not got its event. -/
def abandoned : ClientLabel → Option Nat
  | .drop i => some i
  | .poll i =>
    if (s.calls[i]?).any fun call => call.phase = .waiting && s.attemptFails call then some i else none
  | .publish .. | .subscribe .. | .unsubscribe .. | .disconnect => none

/-- When the loop puts an event in the full channel with the mutex held, no call that waits for the loop
keeps it full; while the loop waits there, no call takes the last slot in the queue of `Subs` when
another one that waits for it keeps the channel full; and no call that has lagged is dropped. -/
def WaitersHaveRead : Label → Prop
  | .loop .emit =>
    s.events.isFull = true → ∀ i ∈ s.events.keepers, (s.calls[i]?).any s.waitsForLoop = false
  | .client l =>
    (s.publishesLocked = true → s.events.isFull = true → s.asksForLastSlot l = true →
      ∀ i ∈ s.events.keepers, l.target ≠ some i → (s.calls[i]?).any waitsForSlot = false) ∧
      ∀ i ∈ s.abandoned l, s.events.hasLagged i = false
  | _ => True

instance (l : Label) : Decidable (s.WaitersHaveRead l) := by
  unfold WaitersHaveRead
  split <;> infer_instance

variable {s} {s' : Executor QUEUE BUFFER TOPIC}

theorem waitsForLoop_of_slot {call : ClientCall} (h : waitsForSlot call = true) :
    s.waitsForLoop call = s.client.subscribes.sendRequest.isFull := by
  unfold waitsForSlot at h
  unfold waitsForLoop
  rw [Bool.and_eq_true] at h
  rw [h.1, Bool.true_and]
  cases hrequest : call.request with
  | publish message =>
    rw [hrequest] at h
    cases h.2
  | subscribe topic qos => rfl
  | unsubscribe topic => rfl

/-- While the mutex is held, every call that waits and does not wait for a slot waits for the mutex. -/
theorem waitsForLoop_or_slot {call : ClientCall} (hphase : call.phase = .waiting)
    (hlocked : s.publishesLocked = true) : s.waitsForLoop call = true ∨ waitsForSlot call = true := by
  unfold waitsForLoop waitsForSlot
  cases call.request with
  | publish message => exact .inl (by simp [hphase, hlocked])
  | subscribe topic qos => exact .inr (by simp [hphase])
  | unsubscribe topic => exact .inr (by simp [hphase])

/-- A call that waits for the loop stays as it is when it is polled. -/
theorem poll_of_waitsForLoop {i : Nat} {call : ClientCall} (hi : s.calls[i]? = some call)
    (h : s.waitsForLoop call = true) : s.poll i = s := by
  simp only [waitsForLoop, Bool.and_eq_true, decide_eq_true_eq] at h
  obtain ⟨hphase, h⟩ := h
  have hparked : s.attempt call = (.error .parked, s.client) := by
    unfold attempt
    cases hrequest : call.request with
    | publish message =>
      rw [hrequest] at h
      cases hlocked : s.publishesLocked with
      | true => rfl
      | false =>
        simp only [hlocked, Bool.false_or] at h
        simp [Client.callPublishes, Publishes.publish, h]
    | subscribe topic qos =>
      rw [hrequest] at h
      simp [Client.callSubscribes, SubsInner.addSubscribeRequest, SubsInner.addRequest, h]
    | unsubscribe topic =>
      rw [hrequest] at h
      simp [Client.callSubscribes, SubsInner.addUnsubscribeRequest, SubsInner.addRequest, h]
  simp [poll, hi, hphase, hparked]

/-- In a deadlock neither the calls that keep the channel full nor the loop can move. -/
theorem Deadlocked.poll (h : s.Deadlocked) {i : Nat} (hi : i ∈ s.events.keepers) : s.poll i = s := by
  have hwaits := h.waits i hi
  cases hcall : s.calls[i]? with
  | none => rw [hcall] at hwaits; cases hwaits
  | some call =>
    rw [hcall] at hwaits
    exact poll_of_waitsForLoop hcall hwaits

theorem Deadlocked.emit (h : s.Deadlocked) {i : Nat} {u : List MqttEvent}
    (hsubscriber : s.events.unread i = some u) :
    { s with polling := true, woken := false }.emit = some { s with woken := false } := by
  have hlocked := h.locked
  unfold publishesLocked at hlocked
  split at hlocked
  · rename_i event rest locked hloop
    simp only [Executor.emit, hloop, PubSubChannel.publish_eq_none h.full hsubscriber, h.suspended]
  · cases hlocked

/-! ## The calls that wait, and the slots that they wait for -/

/-- A call that waits after a step of a client has waited before and has read nothing, unless it is new
and has nothing to read. -/
theorem clientStep_waiting (l : ClientLabel) {j : Nat} {call : ClientCall} {u : List MqttEvent}
    (hcall : (s.clientStep l).calls[j]? = some call) (hphase : call.phase = .waiting)
    (hu : (s.clientStep l).events.unread j = some u) :
    u = [] ∨ (s.calls[j]? = some call ∧ s.events.unread j = some u) := by
  let I (t : Executor QUEUE BUFFER TOPIC) : Prop := ∀ j call u, t.calls[j]? = some call →
    call.phase = .waiting → t.events.unread j = some u →
      u = [] ∨ (s.calls[j]? = some call ∧ s.events.unread j = some u)
  suffices h : I (s.clientStep l) from h j call u hcall hphase hu
  refine clientStep_invariant (I := I) (fun t t' hmove hI j call u hcall hphase hu => ?_)
    (fun j call u hcall _ hu => .inr ⟨hcall, hu⟩) l
  cases hmove with
  | pid pool => exact hI j call u hcall hphase hu
  | disconnect => exact hI j call u hcall hphase hu
  | subscribe hevents _ =>
    rw [PubSubChannel.unread_subscribe hevents] at hu
    split at hu
    · cases hu
      exact .inl rfl
    · rename_i hj
      rcases getElem?_concat_calls hcall with ⟨-, hcall⟩ | ⟨hj', -⟩
      · exact hI j call u hcall hphase hu
      · exact absurd hj' hj
  | queue i hi _ sendPublish sendRequest pool hlocked =>
    rcases getElem?_modify_calls hcall with ⟨-, hcall⟩ | ⟨-, old, -, rfl⟩
    · exact hI j call u hcall hphase hu
    · cases hphase
  | read i hi hawaiting hother hu' hnone hi' =>
    by_cases hj : j = i
    · subst hj
      cases hi.symm.trans hcall
      cases hphase.symm.trans hawaiting
    · exact hI j call u hcall hphase ((hother j hj).symm.trans hu)
  | finish i hi hprogress hother received =>
    rcases getElem?_modify_calls hcall with ⟨hj, hcall⟩ | ⟨-, old, -, rfl⟩
    · rw [finish, PubSubChannel.unread_unsubscribe, if_neg hj, hother j hj] at hu
      exact hI j call u hcall hphase hu
    · cases hphase

theorem awaitEvent_client (i : Nat) (accepts : MqttEvent → Bool) :
    (s.awaitEvent i accepts).client = s.client := by
  unfold awaitEvent
  split <;> rfl

theorem awaitEvent_not_waiting {i : Nat} {accepts : MqttEvent → Bool} {call call' : ClientCall}
    (hcall : s.calls[i]? = some call) (hphase : call.phase ≠ .waiting)
    (h : (s.awaitEvent i accepts).calls[i]? = some call') : call'.phase ≠ .waiting := by
  unfold awaitEvent at h
  split at h
  · cases hcall.symm.trans h
    exact hphase
  · rcases getElem?_modify_calls h with ⟨hne, -⟩ | ⟨-, old, -, rfl⟩
    · exact absurd rfl hne
    · exact nofun

/-- A request of `Subs` that is queued takes one slot. -/
theorem attempt_sendRequest (call : ClientCall) :
    (s.attempt call).2.subscribes.sendRequest = s.client.subscribes.sendRequest ∨
      ((∀ message, call.request ≠ .publish message) ∧ (∃ u, (s.attempt call).1 = .ok u) ∧
        (s.attempt call).2.subscribes.sendRequest.len =
          s.client.subscribes.sendRequest.len + 1) := by
  have hadd (requestType : RequestType) (topics : List (List UInt8)) :
      let r := s.client.callSubscribes (SubsInner.addRequest requestType topics call.uniqueId)
      r.2.subscribes.sendRequest = s.client.subscribes.sendRequest ∨
        ((∃ u, r.1 = .ok u) ∧
          r.2.subscribes.sendRequest.len = s.client.subscribes.sendRequest.len + 1) := by
    unfold Client.callSubscribes
    rcases SubsInner.addRequest_cases ⟨s.client.subscribes, s.client.env⟩ requestType topics
      call.uniqueId with ⟨x, h⟩ | ⟨request, rest, pool, -, -, -, hpush, h⟩ <;> rw [h]
    · exact .inl rfl
    · refine .inr ⟨⟨_, rfl⟩, ?_⟩
      simp [BoundedVec.len, (BoundedVec.push_eq_some_iff.mp hpush).2]
  unfold attempt
  cases call.request with
  | publish message =>
    refine .inl ?_
    dsimp only
    split <;> rfl
  | subscribe topic qos =>
    exact (hadd (.subscribe qos) [topic]).imp_right fun h => ⟨by simp, h⟩
  | unsubscribe topic => exact (hadd .unsubscribe [topic]).imp_right fun h => ⟨by simp, h⟩

theorem poll_sendRequest (s : Executor QUEUE BUFFER TOPIC) (i : Nat) :
    (s.poll i).client.subscribes.sendRequest = s.client.subscribes.sendRequest ∨
      ((s.calls[i]?).any waitsForSlot = true ∧
        (s.poll i).client.subscribes.sendRequest.len = s.client.subscribes.sendRequest.len + 1 ∧
        ∀ call, (s.poll i).calls[i]? = some call → call.phase ≠ .waiting) := by
  unfold poll
  cases hi : s.calls[i]? with
  | none => exact .inl rfl
  | some call =>
    cases hphase : call.phase with
    | ended received => exact .inl (by simp only [hphase])
    | awaiting => exact .inl (by simp only [hphase, awaitEvent_client])
    | waiting =>
      simp only [hphase]
      rcases attempt_sendRequest (s := s) call with hsame | ⟨hrequest, ⟨u, hok⟩, hlen⟩
      · refine .inl ?_
        split
        · rename_i hattempt
          rw [awaitEvent_client, ← hsame, hattempt]
          rfl
        · rename_i hattempt
          rw [← hsame, hattempt]
        · rename_i hattempt
          rw [← hsame, hattempt]
          rfl
      · have hattempt : s.attempt call = (.ok u, (s.attempt call).2) := Prod.ext hok rfl
        rw [hattempt]
        refine .inr ⟨?_, ?_, fun call' hcall' => ?_⟩
        · rw [Option.any_some, waitsForSlot, hphase]
          cases hr : call.request with
          | publish message => exact absurd hr (hrequest message)
          | subscribe topic qos => rfl
          | unsubscribe topic => rfl
        · rw [awaitEvent_client]
          exact hlen
        · dsimp only at hcall'
          have hcalls : (({ s with client := (s.attempt call).2 }).requestAdded i).calls[i]? =
              some { call with phase := .awaiting, since := s.emitted.length } :=
            calls_requestAdded (s := { s with client := (s.attempt call).2 }) hi
          exact awaitEvent_not_waiting hcalls CallPhase.noConfusion hcall'

/-- The first poll of a new call. -/
theorem newCall_sendRequest (s : Executor QUEUE BUFFER TOPIC) (request : Request) (id : Nat) :
    (s.newCall request id).client.subscribes.sendRequest = s.client.subscribes.sendRequest ∨
      ((∀ message, request ≠ .publish message) ∧
        (s.newCall request id).client.subscribes.sendRequest.len =
          s.client.subscribes.sendRequest.len + 1) := by
  unfold newCall
  split
  · exact .inl rfl
  · rename_i events _
    let call : ClientCall :=
      { request, uniqueId := ⟨id, s.calls.length⟩, phase := .waiting, since := 0 }
    rcases poll_sendRequest { s with events, calls := s.calls ++ [call] } s.calls.length with
      hsame | ⟨hslot, hlen, -⟩
    · exact .inl hsame
    · refine .inr ⟨fun message hrequest => ?_, hlen⟩
      subst hrequest
      rw [List.getElem?_concat_length] at hslot
      cases hslot

/-- A step of a client leaves the queue of `Subs` as it is, or a call that asks for a slot gets one. -/
theorem clientStep_sendRequest (s : Executor QUEUE BUFFER TOPIC) (l : ClientLabel) :
    (s.clientStep l).client.subscribes.sendRequest = s.client.subscribes.sendRequest ∨
      (s.asksForSlot l = true ∧
        (s.clientStep l).client.subscribes.sendRequest.len =
          s.client.subscribes.sendRequest.len + 1 ∧
        ∀ i call, l.target = some i → (s.clientStep l).calls[i]? = some call →
          call.phase ≠ .waiting) := by
  cases l with
  | publish topic payload qos retain id =>
    refine .inl ?_
    simp only [clientStep, publish]
    split
    · rfl
    · split
      · rename_i hcall
        exact congrArg (fun r => r.2.subscribes.sendRequest) hcall.symm
      · rename_i hcall
        have hsame := congrArg (fun r => r.2.subscribes.sendRequest) hcall
        rcases newCall_sendRequest { s with client := _ } (.publish _) id with h | ⟨hne, -⟩
        · exact h.trans hsame.symm
        · exact absurd rfl (hne _)
  | subscribe topic qos id =>
    rcases s.newCall_sendRequest (.subscribe topic qos) id with h | ⟨-, hlen⟩
    · exact .inl h
    · exact .inr ⟨rfl, hlen, fun i call htarget => by cases htarget⟩
  | unsubscribe topic id =>
    rcases s.newCall_sendRequest (.unsubscribe topic) id with h | ⟨-, hlen⟩
    · exact .inl h
    · exact .inr ⟨rfl, hlen, fun i call htarget => by cases htarget⟩
  | poll i =>
    rcases poll_sendRequest s i with h | ⟨hslot, hlen, hphase⟩
    · exact .inl h
    · refine .inr ⟨hslot, hlen, fun j call htarget hcall => ?_⟩
      cases htarget
      exact hphase call hcall
  | drop i =>
    refine .inl ?_
    simp only [clientStep, drop]
    split <;> rfl
  | disconnect => exact .inl rfl

/-! ## Events that nobody will read -/

theorem readEvents_tight (accepts : MqttEvent → Bool) (i : Nat) {events : EventChannel}
    (h : events.Tight) (n : Nat) :
    (readEvents accepts i events n).2.Tight ∧ ((readEvents accepts i events n).1.isSome = true →
      (readEvents accepts i events n).2.hasLagged i = false) := by
  induction n generalizing events with
  | zero => exact ⟨h, fun hsome => by cases hsome⟩
  | succ n ih =>
    rw [readEvents]
    cases hnext : events.nextMessage i with
    | none => exact ⟨h, fun hsome => by cases hsome⟩
    | some read =>
      obtain ⟨event, events'⟩ := read
      dsimp only
      split
      · exact ⟨h.nextMessage hnext, fun _ => PubSubChannel.hasLagged_nextMessage hnext⟩
      · exact ih (h.nextMessage hnext)

theorem awaitEvent_tight (h : s.events.Tight) (i : Nat) (accepts : MqttEvent → Bool) :
    (s.awaitEvent i accepts).events.Tight := by
  obtain ⟨htight, hread⟩ := readEvents_tight accepts i h ((s.events.unread i).getD []).length
  unfold awaitEvent
  split
  · rename_i hevents
    rw [hevents] at htight
    exact htight
  · rename_i hevents
    rw [hevents] at htight hread
    exact htight.unsubscribe (hread rfl)

theorem poll_tight (h : s.events.Tight) {i : Nat}
    (hl : ∀ j ∈ s.abandoned (.poll i), s.events.hasLagged j = false) : (s.poll i).events.Tight := by
  unfold poll
  cases hi : s.calls[i]? with
  | none => exact h
  | some call =>
    cases hphase : call.phase with
    | ended received => simp only [hphase]; exact h
    | awaiting => simp only [hphase]; exact awaitEvent_tight h i call.accepts
    | waiting =>
      simp only [hphase]
      split
      · exact awaitEvent_tight (s := Executor.requestAdded { s with client := _ } i) h i _
      · exact h
      · rename_i x client hne hattempt
        refine PubSubChannel.Tight.unsubscribe h (hl i ?_)
        have hfails : s.attemptFails call = true := by
          unfold attemptFails
          rw [hattempt]
          cases x with
          | parked => exact absurd rfl hne
          | fail e => rfl
          | panic => rfl
        simp [abandoned, hi, hphase, hfails]

theorem newCall_tight (h : s.events.Tight) (request : Request) (id : Nat) :
    (s.newCall request id).events.Tight := by
  unfold newCall
  split
  · exact h
  · rename_i events hevents
    refine poll_tight (h.subscribe hevents) fun j hj => ?_
    -- the subscriber is new
    simp only [abandoned] at hj
    split at hj
    · cases hj
      exact PubSubChannel.hasLagged_subscribe hevents
    · cases hj

theorem clientStep_tight (h : s.events.Tight) {l : ClientLabel}
    (hl : ∀ i ∈ s.abandoned l, s.events.hasLagged i = false) : (s.clientStep l).events.Tight := by
  cases l with
  | publish topic payload qos retain id =>
    simp only [clientStep, publish]
    split
    · exact h
    · split
      · exact h
      · rename_i message client _
        have hsame : ({ s with client } : Executor QUEUE BUFFER TOPIC).events.Tight := h
        exact newCall_tight hsame (.publish message) id
  | subscribe topic qos id => exact newCall_tight h _ id
  | unsubscribe topic id => exact newCall_tight h _ id
  | poll i => exact poll_tight h hl
  | drop i =>
    simp only [clientStep, drop]
    split
    · exact PubSubChannel.Tight.unsubscribe h (hl i rfl)
    · exact PubSubChannel.Tight.unsubscribe h (hl i rfl)
    · exact h
  | disconnect => exact h

theorem Emits.tight {l : LoopLabel} (hemits : Emits s s' l) (h : s.events.Tight) :
    s'.events.Tight := by
  cases hemits with
  | nothing hevents _ => exact hevents ▸ h
  | publish event hevents _ => exact h.publish hevents
  | immediate _ _ event hevents _ => exact hevents ▸ h.publishImmediate event

/-! ## Runs -/

/-- While the loop is suspended with the mutex held, no call that waits for it keeps the channel full,
and every event in the channel has a reader. -/
structure RoomForWaiters (s : Executor QUEUE BUFFER TOPIC) : Prop where
  room : s.publishesLocked = true → s.polling = false → ∀ i call u, s.calls[i]? = some call →
    s.waitsForLoop call = true → s.events.unread i = some u → u.length < 8
  tight : s.events.Tight

theorem new_roomForWaiters : (new : Executor QUEUE BUFFER TOPIC).RoomForWaiters :=
  ⟨nofun, PubSubChannel.tight_new⟩

theorem RoomForWaiters.not_deadlocked (h : s.RoomForWaiters) : ¬s.Deadlocked := by
  intro hd
  have hlen : s.events.queue.length = 8 := by simpa [PubSubChannel.isFull] using hd.full
  obtain ⟨i, hi⟩ := h.tight.exists_mem_keepers fun hnil => by
    rw [hnil] at hlen
    cases hlen
  obtain ⟨call, hcall, hwaits⟩ := (Option.any_eq_true _ _).mp (hd.waits i hi)
  have hlt := h.room hd.locked hd.suspended i call _ hcall hwaits (PubSubChannel.mem_keepers_iff.mp hi)
  omega

theorem RoomForWaiters.clientStep (h : s.RoomForWaiters) {l : ClientLabel}
    (hl : s.WaitersHaveRead (.client l)) (hsuspended : s.polling = false) :
    (s.clientStep l).RoomForWaiters := by
  obtain ⟨hslot, hlagged⟩ := hl
  obtain ⟨hloop, hpolling⟩ : (s.clientStep l).loop = s.loop ∧ (s.clientStep l).polling = s.polling :=
    clientStep_invariant (I := fun t => t.loop = s.loop ∧ t.polling = s.polling)
      (fun t t' hmove ht => ⟨hmove.loop.trans ht.1, hmove.polling.trans ht.2⟩) ⟨rfl, rfl⟩ l
  refine ⟨fun hlocked _ i call u hcall hwaits hu => ?_, clientStep_tight h.tight hlagged⟩
  have hlocked' : s.publishesLocked = true := by
    rwa [publishesLocked, hloop] at hlocked
  refine Nat.lt_of_le_of_ne (PubSubChannel.unread_length_le hu) fun hlen => ?_
  have hphase : call.phase = .waiting := by
    simp only [waitsForLoop, Bool.and_eq_true, decide_eq_true_eq] at hwaits
    exact hwaits.1
  rcases clientStep_waiting l hcall hphase hu with rfl | ⟨hcall', hu'⟩
  · cases hlen
  · obtain ⟨hfull, rfl⟩ := PubSubChannel.unread_eq_queue hu' hlen
    have hkeeps := PubSubChannel.mem_keepers_iff.mpr hu'
    have hfree : s.waitsForLoop call = false := by
      by_contra hbefore
      have hlt := h.room hlocked' hsuspended i call _ hcall' (Bool.of_not_eq_false hbefore) hu'
      omega
    -- the call waits for a slot, and this step has taken the last one
    have hwaitsForSlot : waitsForSlot call = true :=
      (waitsForLoop_or_slot hphase hlocked').resolve_left (Bool.eq_false_iff.mp hfree)
    rw [waitsForLoop_of_slot hwaitsForSlot] at hwaits hfree
    rcases clientStep_sendRequest s l with hsame | ⟨hasks, htaken, htarget⟩
    · rw [hsame, hfree] at hwaits
      cases hwaits
    · have hlast : s.asksForLastSlot l = true := by
        have hcapacity := BoundedVec.isFull_iff.mp hwaits
        have hone : s.client.subscribes.sendRequest.len + 1 = QUEUE := htaken.symm.trans hcapacity
        simp [asksForLastSlot, hasks, hone]
      have hother : l.target ≠ some i := fun hl => htarget i call hl hcall hphase
      have hnone := hslot hlocked' hfull hlast i hkeeps hother
      rw [hcall', Option.any_some] at hnone
      cases hnone.symm.trans hwaitsForSlot

theorem RoomForWaiters.next {topicPathCapacity : Nat} {l : Label} (h : s.RoomForWaiters)
    (hl : s.WaitersHaveRead l) (hstep : s.next topicPathCapacity l = some s') :
    s'.RoomForWaiters := by
  rcases next_cases hstep with ⟨-, -, -, rfl⟩ | ⟨-, -, rfl⟩ | ⟨m, rfl, hpolling, hstep⟩ |
    ⟨m, rfl, hpolling, rfl⟩
  · exact ⟨nofun, h.tight⟩
  · exact ⟨fun _ => nofun, h.tight⟩
  · obtain ⟨hcalls, hemits⟩ := loopStep_calls hstep
    refine ⟨fun hlocked hsuspended i call u hcall hwaits hu => ?_, hemits.tight h.tight⟩
    rcases loopStep_locked hpolling hstep hlocked with hp | ⟨rfl, hfull, rfl⟩
    · cases hp.symm.trans hsuspended
    · refine Nat.lt_of_le_of_ne (PubSubChannel.unread_length_le hu) fun hlen => ?_
      obtain ⟨-, rfl⟩ := PubSubChannel.unread_eq_queue hu hlen
      have hread := hl hfull i (PubSubChannel.mem_keepers_iff.mpr hu)
      rw [hcall, Option.any_some] at hread
      cases hread.symm.trans hwaits
  · exact h.clientStep hl hpolling

/-- No run reaches a deadlock in which the calls that wait for the loop have read when it needs room,
and no call that has lagged is dropped. -/
theorem never_deadlocked {topicPathCapacity : Nat} {ls : List Label}
    (hread : AllSteps (fun s l => s.next topicPathCapacity l) WaitersHaveRead
      (new : Executor QUEUE BUFFER TOPIC) ls)
    (hrun : run (fun s l => s.next topicPathCapacity l) new ls = some s) : ¬s.Deadlocked := by
  have hinv := hread.invariant (fun s l s' hs hl hstep => hs.next hl hstep) new_roomForWaiters hrun
  exact hinv.not_deadlocked

/-! ## Runs with and without a deadlock -/

/-- The rest of `run_once` after the publishes. -/
def restOfPass : List Label :=
  [.loop (.sendReceives []), .loop (.sendSubscribes [.ok true, .ok true] []), .loop (.sendPing [] []),
    .loop (.select .pending)]

/-- Two calls, the first of them is the call `i`, publish with QoS 0. The loop is woken, sends them,
puts their events in the channel and goes to sleep, and both calls end. -/
def publishTwo (i : Nat) : List Label :=
  [.client (.publish [97] [] .atMostOnce false 0), .client (.publish [97] [] .atMostOnce false 1),
    .wake, .loop (.select .pending), .loop (.sendPublishes [.ok true, .ok true] []), .loop .emit,
    .loop .emit] ++
    restOfPass ++ [.client (.poll i), .client (.poll (i + 1))]

/-- `n` calls subscribe, and the loop sends the requests that are queued. -/
def subscribeFirst (n : Nat) : List Label :=
  (List.range n).map (fun id => .client (.subscribe [97] .atMostOnce (id + 2))) ++
    [.wake, .loop (.sendPublishes [] [])] ++ restOfPass ++ [.loop (.sendPublishes [] [])] ++ restOfPass

/-- One more call publishes, and its event finds the channel full. -/
def publishLast : List Label :=
  [.client (.publish [97] [] .atMostOnce false 0), .wake, .loop (.select .pending),
    .loop (.sendPublishes [.ok true] []), .loop .emit]

/-- The queue of `Subs` has two slots, and the third call waits for one. It is not polled for eight
events, although there are free slots again. -/
def lateRun : List Label :=
  subscribeFirst 3 ++ publishTwo 3 ++ publishTwo 5 ++ publishTwo 7 ++ publishTwo 9 ++
    [.client (.poll 0), .client (.poll 1)] ++ publishLast

theorem never_deadlocked_on_lateRun :
    ∃ s : Executor 2 16 16, run (fun s l => s.next 16 l) new lateRun = some s ∧
      s.publishesLocked = true ∧ s.events.keepers = [2] ∧ (s.calls[2]?).any waitsForSlot = true ∧
      ¬s.Deadlocked := by
  have hany : (run (fun s l => s.next 16 l) (new : Executor 2 16 16) lateRun).any
      (fun s => s.publishesLocked = true ∧ s.events.keepers = [2] ∧
        (s.calls[2]?).any waitsForSlot = true) = true := by
    decide +kernel
  obtain ⟨s, hrun, h⟩ := (Option.any_eq_true _ _).mp hany
  obtain ⟨hlocked, hkeepers, hwaiting⟩ := of_decide_eq_true h
  exact ⟨s, hrun, hlocked, hkeepers, hwaiting, never_deadlocked (by decide +kernel) hrun⟩

/-- `n` calls publish with QoS 0. The loop sends nine messages in one pass and puts eight completion
events in the channel; then the first nine calls are polled. -/
def crowd (n : Nat) : List Label :=
  (List.range n).map (fun id => .client (.publish [97] [] .atMostOnce false id)) ++
    [.wake, .loop (.sendPublishes (List.replicate 9 (.ok true)) [])] ++
    List.replicate 9 (.loop .emit) ++ (List.range 9).map fun i => .client (.poll i)

/-- A tenth call finds no free slot and then the mutex locked, and the loop that holds it waits for
the tenth call to read. -/
theorem crowd_deadlocked :
    ∃ s : Executor 9 16 16, run (fun s l => s.next 16 l) new (crowd 10) = some s ∧
      s.Deadlocked := by
  have hany : (run (fun s l => s.next 16 l) (new : Executor 9 16 16) (crowd 10)).any
      (fun s => s.Deadlocked) = true := by
    decide +kernel
  obtain ⟨s, hrun, hdeadlocked⟩ := (Option.any_eq_true _ _).mp hany
  exact ⟨s, hrun, of_decide_eq_true hdeadlocked⟩

/-- The second call has eight events to read when the SUBACK of the first one drops the oldest of
them. It is dropped, and the other calls read all that there is. -/
def droppedRun : List Label :=
  subscribeFirst 2 ++ publishTwo 2 ++ publishTwo 4 ++ publishTwo 6 ++ publishTwo 8 ++
    [.client (.poll 0), .wake,
      .loop (.select (.io (.ok (.suback ⟨⟨1, Nat.one_pos, Pid.one_lt⟩, [.success .atMostOnce]⟩)))),
      .loop (.process []), .loop (.sendPublishes [] [])] ++ restOfPass ++
    [.client (.poll 0), .client (.drop 1)] ++ publishLast

/-- No subscriber is left that could make room for the loop. -/
theorem droppedRun_deadlocked :
    ∃ s : Executor 2 16 16, run (fun s l => s.next 16 l) new droppedRun = some s ∧
      s.events.keepers = [] ∧ s.Deadlocked := by
  have hany : (run (fun s l => s.next 16 l) (new : Executor 2 16 16) droppedRun).any
      (fun s => s.events.keepers = [] ∧ s.Deadlocked) = true := by
    decide +kernel
  obtain ⟨s, hrun, h⟩ := (Option.any_eq_true _ _).mp hany
  exact ⟨s, hrun, of_decide_eq_true h⟩

end Executor

end EmbeddedMqttc
