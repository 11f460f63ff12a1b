import EmbeddedMqttc.EventLoopSpec

/-!
# A task that replies from its receive loop

A task of the application takes the next received message, publishes something of QoS 1 or 2 and waits
until this has been acknowledged, again and again. The channel to it holds one message, and the loop,
which also processes the acknowledgements, waits while the channel is full: two messages that arrive
while the task waits stop both for ever.
-/

namespace EmbeddedMqttc

open Prog EmbeddedMqttc.Comp Run

variable {QUEUE BUFFER TOPIC : Nat}

/-- What `on_publish` puts in the channel to the application. -/
def Receives.delivery (self : Receives BUFFER TOPIC QUEUE) (message : Publish) :
    Option (ReceivedPublish BUFFER TOPIC) :=
  (((onPublish message).exec ⟨self, .new⟩).2.inner.queue.drop self.queue.length).head?

/-- The packet that the loop gets from the connection in a step. In `select3` it gets none when there
is a notification. -/
def Executor.receives (s : Executor QUEUE BUFFER TOPIC) : Executor.LoopLabel → Option Packet
  | .runIoNonblocking (.ok packet) => packet
  | .select (.io (.ok packet)) =>
    match s.onRequestAdded.notification with
    | none => some packet
    | some _ => none
  | _ => none

theorem LoopStage.afterStop_ne_process (x : Stop MqttError) (packet : Packet) :
    LoopStage.afterStop x ≠ .process packet := by
  cases x with
  | fail e =>
    rw [LoopStage.afterStop]
    split <;> exact nofun
  | panic | parked => exact nofun

theorem LoopStage.afterSend_ne_process {packet : Packet} (stage : LoopStage)
    (hstage : stage ≠ .process packet) (result : Except (Stop MqttError) SendResult) :
    LoopStage.afterSend stage result ≠ .process packet := by
  rcases result with x | _ | _
  · exact afterStop_ne_process x packet
  · exact nofun
  · exact hstage

theorem LoopStage.afterProcess_ne_process (result : Except (Stop MqttError) Unit) (packet : Packet) :
    LoopStage.afterProcess result ≠ .process packet := by
  rcases result with x | _
  · exact afterStop_ne_process x packet
  · exact nofun

theorem LockedCall.next_ne_process (call : LockedCall) (packet : Packet) :
    call.next ≠ .process packet := by
  cases call with
  | sendPackets result => exact LoopStage.afterSend_ne_process .sendReceives nofun result
  | processIncomingPacket result => exact LoopStage.afterProcess_ne_process result packet

namespace Executor

variable {s s' : Executor QUEUE BUFFER TOPIC} {packet : Packet}

theorem goTo_ne_process {stage : LoopStage} (hstage : stage ≠ .process packet) :
    (s.goTo stage).loop ≠ .going (.process packet) := by
  rw [goTo_loop]
  exact fun h => hstage (Loop.going.inj h)

theorem hold_ne_process (events : List MqttEvent) (call : LockedCall) :
    (s.hold events call).loop ≠ .going (.process packet) := by
  cases events with
  | nil => exact goTo_ne_process (call.next_ne_process packet)
  | cons event rest => exact nofun

/-- The loop processes a packet that it has got from the connection in the step before. -/
theorem loopStep_process {topicPathCapacity : Nat} {l : LoopLabel}
    (h : s.loopStep topicPathCapacity l = some s') (hloop : s'.loop = .going (.process packet)) :
    (s.receives l = some packet ∨ l = .suspend ∧ s.loop = .going (.process packet)) ∧
      s'.client = s.client ∧ s'.calls = s.calls ∧ s'.events = s.events := by
  cases l with
  | connectFails e =>
    obtain ⟨-, rfl⟩ := whenAt_eq_some_iff.mp h
    exact absurd hloop (goTo_ne_process (LoopStage.afterStop_ne_process _ _))
  | autoSubscribe =>
    obtain ⟨hstart, rfl⟩ := whenAt_eq_some_iff.mp h
    split at hloop
    · cases hstart.symm.trans hloop
    · exact absurd hloop (goTo_ne_process (LoopStage.afterStop_ne_process _ _))
  | autoSubscribed =>
    obtain ⟨hstart, rfl⟩ := whenAt_eq_some_iff.mp h
    cases hstart.symm.trans hloop
  | suspend =>
    simp only [loopStep] at h
    split at h
    · split at h
      · cases h
        exact ⟨.inr ⟨rfl, hloop⟩, rfl, rfl, rfl⟩
      · cases h
    · cases h
  | sendPublishes answers ticks =>
    obtain ⟨-, rfl⟩ := whenAt_eq_some_iff.mp h
    exact absurd hloop (hold_ne_process _ _)
  | emit =>
    obtain ⟨event, rest, locked, hpublishing, ⟨-, rfl⟩ | ⟨events, -, rfl⟩⟩ := emit_cases h
    · cases hpublishing.symm.trans hloop
    · exact absurd hloop (hold_ne_process _ _)
  | sendReceives answers =>
    obtain ⟨-, rfl⟩ := whenAt_eq_some_iff.mp h
    exact absurd hloop
      (goTo_ne_process (LoopStage.afterSend_ne_process .sendSubscribes LoopStage.noConfusion _))
  | sendSubscribes answers ticks =>
    obtain ⟨-, rfl⟩ := whenAt_eq_some_iff.mp h
    exact absurd hloop
      (goTo_ne_process (LoopStage.afterSend_ne_process .sendPing LoopStage.noConfusion _))
  | sendPing answers ticks =>
    obtain ⟨-, rfl⟩ := whenAt_eq_some_iff.mp h
    exact absurd hloop (goTo_ne_process (LoopStage.afterSend_ne_process .select LoopStage.noConfusion _))
  | runIoNonblocking outcome =>
    obtain ⟨-, rfl⟩ := whenAt_eq_some_iff.mp h
    rcases outcome with e | _ | p
    · exact absurd hloop (goTo_ne_process (LoopStage.afterStop_ne_process _ _))
    · cases hloop
    · cases hloop
      exact ⟨.inl rfl, rfl, rfl, rfl⟩
  | select ready =>
    obtain ⟨hselect, rfl⟩ := whenAt_eq_some_iff.mp h
    unfold select RequestStateInner.pollNotification at hloop ⊢
    cases hnotification : s.onRequestAdded.notification with
    | some notification =>
      cases notification with
      | newRequest | disconnect =>
        rw [hnotification] at hloop
        cases hloop
    | none =>
      rw [hnotification] at hloop
      rcases ready with _ | _ | e | p
      · cases hselect.symm.trans hloop
      · cases hloop
      · exact absurd hloop (goTo_ne_process (LoopStage.afterStop_ne_process _ _))
      · cases hloop
        refine ⟨.inl ?_, rfl, rfl, rfl⟩
        rw [receives, hnotification]
  | process ticks =>
    simp only [loopStep] at h
    split at h
    · cases h
      rename_i packet' _
      rcases process_cases s packet' ticks with ⟨client, events, result, h⟩ | ⟨client, result, h⟩ |
        ⟨-, client, event, result, h⟩ <;> rw [h] at hloop
      · exact absurd hloop (hold_ne_process _ _)
      · exact absurd hloop (goTo_ne_process (LoopStage.afterProcess_ne_process _ _))
      · exact absurd hloop (goTo_ne_process (LoopStage.afterProcess_ne_process _ _))
    · cases h

theorem loopStep_receives {topicPathCapacity : Nat} {l : LoopLabel}
    (h : s.loopStep topicPathCapacity l = some s') (hl : s.receives l = some packet) :
    s'.loop = .going (.process packet) ∧ s'.polling = true := by
  cases l with
  | runIoNonblocking outcome =>
    obtain ⟨-, rfl⟩ := whenAt_eq_some_iff.mp h
    rcases outcome with e | _ | p
    · cases hl
    · cases hl
    · cases hl
      exact ⟨rfl, rfl⟩
  | select ready =>
    obtain ⟨-, rfl⟩ := whenAt_eq_some_iff.mp h
    rcases ready with _ | _ | e | p
    · cases hl
    · cases hl
    · cases hl
    · simp only [receives] at hl
      split at hl
      · rename_i hnotification
        cases hl
        simp only [select, RequestStateInner.pollNotification, hnotification]
        exact ⟨rfl, rfl⟩
      · cases hl
  | _ => cases hl

/-- What a client does leaves `Receives` to the loop. -/
theorem ClientMove.receives (h : ClientMove s s') : s'.client.receives = s.client.receives := by
  cases h <;> rfl

theorem clientStep_frame (l : ClientLabel) :
    (s.clientStep l).loop = s.loop ∧ (s.clientStep l).client.receives = s.client.receives := by
  refine clientStep_invariant
    (I := fun t => t.loop = s.loop ∧ t.client.receives = s.client.receives) (fun _ _ hmove h => ?_)
    ⟨rfl, rfl⟩ l
  exact ⟨hmove.loop.trans h.1, hmove.receives.trans h.2⟩

end Executor

/-- The task waits for a message, or for the end of its call of `publish`. -/
inductive ReplyStage where
  | receiving
  | publishing (call : Nat)
  deriving DecidableEq

/-- The only subscriber of the channel `received` is the task. -/
structure Replier (QUEUE BUFFER TOPIC : Nat) where
  executor : Executor QUEUE BUFFER TOPIC
  received : PubSubChannel Unit (ReceivedPublish BUFFER TOPIC) 1 8
  task : ReplyStage
  deriving DecidableEq

namespace Replier

inductive Label where
  /-- A step of the loop or of other tasks. -/
  | executor (l : Executor.Label)
  /-- The task takes the next message and calls `publish`. -/
  | reply (topic payload : List UInt8) (qos : QoS) (retain : Bool) (id : Nat)
  /-- The task is polled while it waits in `publish`. -/
  | poll

def new : Replier QUEUE BUFFER TOPIC where
  executor := .new
  received := (PubSubChannel.new.subscribe ()).getD .new
  task := .receiving

variable (s : Replier QUEUE BUFFER TOPIC)

/-- The message that the loop has to put in the channel. -/
def pendingDelivery : Option (ReceivedPublish BUFFER TOPIC) :=
  match s.executor.loop with
  | .going (.process (.publish message)) => s.executor.client.receives.delivery message
  | _ => none

/-- The loop waits for room in the channel. -/
def blocked : Bool := s.pendingDelivery.isSome && s.received.isFull

/-- The call of the task is its own, and the loop is not suspended in `process_packet` unless it
waits for room. -/
def permits : Executor.Label → Bool
  | .client l => l.target.all fun i => s.task ≠ .publishing i
  | .loop .suspend =>
    match s.executor.loop with
    | .going (.process _) => s.blocked
    | _ => true
  | _ => true

/-- The stage of the task after a poll of its call. -/
def settle (executor : Executor QUEUE BUFFER TOPIC) (i : Nat) : ReplyStage :=
  match (executor.calls[i]?).map ClientCall.phase with
  | some .waiting | some .awaiting => .publishing i
  | _ => .receiving

def executorStep (topicPathCapacity : Nat) (l : Executor.Label) : Option (Replier QUEUE BUFFER TOPIC) :=
  match l, s.pendingDelivery with
  | .loop (.process _), some message =>
    (s.received.publish message).bind fun received =>
      (s.executor.next topicPathCapacity l).map fun executor => { s with executor, received }
  | _, _ => (s.executor.next topicPathCapacity l).map fun executor => { s with executor }

def reply (topic payload : List UInt8) (qos : QoS) (retain : Bool) (id : Nat) :
    Option (Replier QUEUE BUFFER TOPIC) :=
  match s.received.nextMessage () with
  | none => none
  | some (_, received) =>
    let executor := s.executor.publish topic payload qos retain id
    some { executor, received, task := settle executor s.executor.calls.length }

def next (topicPathCapacity : Nat) : Label → Option (Replier QUEUE BUFFER TOPIC)
  | .executor l => if s.permits l then s.executorStep topicPathCapacity l else none
  | .reply topic payload qos retain id =>
    if s.executor.polling ∨ qos = .atMostOnce ∨ s.task ≠ .receiving then none
    else s.reply topic payload qos retain id
  | .poll =>
    match s.task with
    | .receiving => none
    | .publishing i =>
      if s.executor.polling then none
      else
        let executor := s.executor.poll i
        some { s with executor, task := settle executor i }

/-! ## The deadlock -/

/-- The task is in its call of `publish`, and there is no completion for it in the event channel. -/
def waits : Bool :=
  match s.task with
  | .receiving => false
  | .publishing i =>
    !(s.executor.calls[i]?).any fun call =>
      ((s.executor.events.unread i).getD []).any call.accepts

/-- The loop is suspended because the channel to the task is full, and the task waits for an
acknowledgement that the loop has not processed. -/
structure Deadlocked : Prop where
  suspended : s.executor.polling = false
  blocked : s.blocked = true
  waits : s.waits = true

instance : Decidable s.Deadlocked :=
  decidable_of_iff
    (s.executor.polling = false ∧ s.blocked = true ∧ s.waits = true)
    ⟨fun ⟨h₁, h₂, h₃⟩ => ⟨h₁, h₂, h₃⟩, fun ⟨h₁, h₂, h₃⟩ => ⟨h₁, h₂, h₃⟩⟩

/-- When the loop gets a PUBLISH that is to be delivered while the task waits, there is room in the
channel. -/
def RoomWhileWaiting : Label → Prop
  | .executor (.loop l) =>
    match s.executor.receives l with
    | some (.publish message) =>
      (s.executor.client.receives.delivery message).isSome = true → s.waits = true →
        s.received.isFull = false
    | _ => True
  | _ => True

instance (l : Label) : Decidable (s.RoomWhileWaiting l) := by
  unfold RoomWhileWaiting
  split
  · split <;> infer_instance
  · infer_instance

variable {s} {s' : Replier QUEUE BUFFER TOPIC} {topicPathCapacity : Nat}

/-! ## Steps that do not concern the task -/

/-- The channel to the task holds one message, so that there is room when the task has taken it. -/
theorem isFull_nextMessage {received received' : PubSubChannel Unit (ReceivedPublish BUFFER TOPIC) 1 8}
    {message : ReceivedPublish BUFFER TOPIC} (htight : received.Tight)
    (h : received.nextMessage () = some (message, received')) : received'.isFull = false := by
  obtain ⟨rest, hunread, hrest⟩ := PubSubChannel.unread_nextMessage h ()
  rw [if_pos rfl] at hrest
  have hlen := PubSubChannel.unread_length_le hunread
  rw [List.length_cons] at hlen
  obtain rfl : rest = [] := List.length_eq_zero_iff.mp (by omega)
  by_contra hfull
  have hqueue : received'.queue.length = 1 := by
    simpa [PubSubChannel.isFull] using hfull
  obtain ⟨i, hi⟩ := (htight.nextMessage h).exists_mem_keepers fun hnil => by
    rw [hnil] at hqueue
    cases hqueue
  have hkeeps := PubSubChannel.mem_keepers_iff.mp hi
  rw [show received'.queue = [] from (Option.some.inj (hrest.symm.trans hkeeps)).symm] at hqueue
  cases hqueue

theorem blocked_eq {executor : Executor QUEUE BUFFER TOPIC} {task : ReplyStage}
    (hloop : executor.loop = s.executor.loop)
    (hreceives : executor.client.receives = s.executor.client.receives) :
    blocked { s with executor, task } = s.blocked := by
  simp only [blocked, pendingDelivery, hloop, hreceives]

theorem waits_eq {executor : Executor QUEUE BUFFER TOPIC}
    (hleaves : ∀ i, s.task = .publishing i → Executor.LeavesCall i s.executor executor)
    (received : PubSubChannel Unit (ReceivedPublish BUFFER TOPIC) 1 8) :
    waits { s with executor, received } = s.waits := by
  unfold waits
  cases htask : s.task with
  | receiving => rfl
  | publishing i =>
    obtain ⟨hcall, hunread⟩ := hleaves i htask
    simp only [hcall, hunread]

theorem blocked_process (h : s.blocked = true) :
    ∃ message, s.executor.loop = .going (.process (.publish message)) ∧
      (s.executor.client.receives.delivery message).isSome = true ∧ s.received.isFull = true := by
  simp only [blocked, Bool.and_eq_true, pendingDelivery] at h
  obtain ⟨hpending, hfull⟩ := h
  split at hpending
  · exact ⟨_, by assumption, hpending, hfull⟩
  · cases hpending

theorem settle_publishing {executor : Executor QUEUE BUFFER TOPIC} {i j : Nat}
    (h : settle executor i = .publishing j) : j = i ∧ i < executor.calls.length := by
  unfold settle at h
  cases hcall : executor.calls[i]? with
  | none =>
    rw [hcall] at h
    cases h
  | some call =>
    have hlt := (List.getElem?_eq_some_iff.mp hcall).1
    rw [hcall] at h
    cases hphase : call.phase <;> rw [Option.map_some, hphase] at h <;> cases h <;> exact ⟨rfl, hlt⟩

/-- When there is a completion for the call, polling it ends it, unless its request cannot even be
queued. -/
theorem poll_completed {executor : Executor QUEUE BUFFER TOPIC} {i : Nat} {call : ClientCall}
    {u : List MqttEvent} (hcall : executor.calls[i]? = some call)
    (hu : executor.events.unread i = some u) (hcompleted : u.any call.accepts = true) :
    executor.poll i = executor ∨ settle (executor.poll i) i = .receiving := by
  have hfinish (t : Executor QUEUE BUFFER TOPIC) (received : Option MqttEvent) :
      settle (t.finish i received) i = .receiving := by
    unfold settle Executor.finish
    cases h : t.calls[i]? <;> simp [h]
  have hawait (t : Executor QUEUE BUFFER TOPIC) (hu : t.events.unread i = some u) :
      settle (t.awaitEvent i call.accepts) i = .receiving := by
    obtain ⟨event, hevent, haccepts⟩ := List.any_eq_true.mp hcompleted
    obtain ⟨events, -, ⟨hnone, -, -⟩ | ⟨event', -, h⟩⟩ := Executor.awaitEvent_cases hu
    · exact absurd haccepts (by simpa using List.find?_eq_none.mp hnone event hevent)
    · rw [h]
      exact hfinish _ _
  unfold Executor.poll
  rw [hcall]
  cases hphase : call.phase with
  | ended received => exact .inl (by simp [hphase])
  | awaiting =>
    simp only [hphase]
    exact .inr (hawait executor hu)
  | waiting =>
    simp only [hphase]
    rcases Executor.attempt_cases executor call with ⟨x, h⟩ | ⟨sendPublish, sendRequest, pool, -, h⟩ <;>
      rw [h]
    · cases x with
      | parked => exact .inl rfl
      | fail e | panic => exact .inr (hfinish _ _)
    · exact .inr (hawait _ hu)

/-! ## Runs without a deadlock -/

/-- While the loop waits for room in the channel to the task, the task can go on. -/
structure Unblocked (s : Replier QUEUE BUFFER TOPIC) : Prop where
  free : s.blocked = true → s.waits = false
  tracked : ∀ i, s.task = .publishing i → i < s.executor.calls.length

theorem new_unblocked : (new : Replier QUEUE BUFFER TOPIC).Unblocked :=
  ⟨fun _ => rfl, nofun⟩

theorem Unblocked.not_deadlocked (h : s.Unblocked) : ¬s.Deadlocked := fun hd =>
  Bool.false_ne_true ((h.free hd.blocked).symm.trans hd.waits)

theorem Unblocked.poll (h : s.Unblocked) {i : Nat} (htask : s.task = .publishing i) :
    Unblocked { s with executor := s.executor.poll i, task := settle (s.executor.poll i) i } := by
  obtain ⟨hloop, hreceives⟩ := Executor.clientStep_frame (s := s.executor) (.poll i)
  refine ⟨fun hblocked => ?_, fun j hj => ?_⟩
  · have hfree := h.free ((blocked_eq hloop hreceives).symm.trans hblocked)
    simp only [waits, htask, Bool.not_eq_false'] at hfree
    obtain ⟨call, hcall, hcompleted⟩ := (Option.any_eq_true _ _).mp hfree
    cases hu : s.executor.events.unread i with
    | none =>
      rw [hu] at hcompleted
      cases hcompleted
    | some u =>
      rw [hu, Option.getD_some] at hcompleted
      rcases poll_completed hcall hu hcompleted with hsame | hsettled
      · unfold waits
        rw [hsame]
        split
        · rfl
        · rename_i j hj
          obtain ⟨rfl, -⟩ := settle_publishing hj
          simp [hcall, hu, hcompleted]
      · unfold waits
        rw [hsettled]
  · obtain ⟨rfl, hlt⟩ := settle_publishing hj
    exact hlt

theorem unblocked_of_settle {i : Nat} (h : s.blocked = false) (htask : s.task = settle s.executor i) :
    s.Unblocked := by
  refine ⟨fun hblocked => absurd hblocked (by simp [h]), fun j hj => ?_⟩
  rw [htask] at hj
  obtain ⟨rfl, hlt⟩ := settle_publishing hj
  exact hlt

/-- The executor has moved and the task's call is as before. -/
theorem Unblocked.executor (h : s.Unblocked) {executor : Executor QUEUE BUFFER TOPIC}
    (hleaves : ∀ i, s.task = .publishing i → Executor.LeavesCall i s.executor executor)
    (received : PubSubChannel Unit (ReceivedPublish BUFFER TOPIC) 1 8)
    (hfree : blocked { s with executor, received } = true → s.waits = false) :
    Unblocked { s with executor, received } := by
  refine ⟨fun hblocked => ?_, fun i hi => ?_⟩
  · rw [waits_eq hleaves]
    exact hfree hblocked
  · have hlt := h.tracked i hi
    have hcall := (hleaves i hi).call
    rw [List.getElem?_eq_getElem hlt] at hcall
    exact (List.getElem?_eq_some_iff.mp hcall).1

theorem Unblocked.client (h : s.Unblocked) {l : Executor.ClientLabel}
    (hpermits : s.permits (.client l) = true) :
    Unblocked { s with executor := s.executor.clientStep l } := by
  obtain ⟨hloop, hreceives⟩ := Executor.clientStep_frame (s := s.executor) l
  refine h.executor (fun i hi => ?_) _ fun hblocked => ?_
  · refine Executor.clientStep_leavesCall (h.tracked i hi) fun htarget => ?_
    rw [permits, htarget, Option.all_some, decide_eq_true_eq] at hpermits
    exact hpermits hi
  · rw [blocked_eq hloop hreceives] at hblocked
    exact h.free hblocked

/-- A step of the loop: to where it waits for room it gets only with a PUBLISH that it has received. -/
theorem Unblocked.loop (h : s.Unblocked) {l : Executor.LoopLabel}
    (hl : s.RoomWhileWaiting (.executor (.loop l))) {executor : Executor QUEUE BUFFER TOPIC}
    (hstep : s.executor.loopStep topicPathCapacity l = some executor)
    (received : PubSubChannel Unit (ReceivedPublish BUFFER TOPIC) 1 8)
    (hreceived : received = s.received ∨ ∃ ticks, l = .process ticks) :
    Unblocked { s with executor, received } := by
  have hcalls := (Executor.loopStep_calls hstep).1
  by_cases hblocked : blocked { s with executor, received } = true
  case neg =>
    refine ⟨fun h => absurd h hblocked, fun i hi => ?_⟩
    rw [hcalls]
    exact h.tracked i hi
  obtain ⟨message, hloop, hdelivery, hfull⟩ := blocked_process hblocked
  obtain ⟨hget, hclient, -, hevents⟩ := Executor.loopStep_process hstep hloop
  refine h.executor (fun i _ => ⟨by rw [hcalls], by rw [hevents]⟩) received fun _ => ?_
  rw [hclient] at hdelivery
  have hsame : received = s.received := by
    rcases hreceived with hsame | ⟨ticks, rfl⟩
    · exact hsame
    · rcases hget with hget | ⟨hsuspend, -⟩
      · cases hget
      · cases hsuspend
  rcases hget with hget | ⟨rfl, hbefore⟩
  · by_contra hwaits
    have hroom := hl
    simp only [RoomWhileWaiting, hget] at hroom
    rw [Bool.not_eq_false] at hwaits
    rw [hsame, hroom hdelivery hwaits] at hfull
    cases hfull
  · refine h.free ?_
    simp only [blocked, pendingDelivery, hbefore, hdelivery, Bool.true_and]
    rwa [← hsame]

theorem Unblocked.executorStep (h : s.Unblocked) {l : Executor.Label}
    (hl : s.RoomWhileWaiting (.executor l)) (hpermits : s.permits l = true)
    (hstep : s.executorStep topicPathCapacity l = some s') : s'.Unblocked := by
  have hsame {executor : Executor QUEUE BUFFER TOPIC}
      (hnext : s.executor.next topicPathCapacity l = some executor) :
      Unblocked { s with executor } := by
    rcases Executor.next_cases hnext with ⟨rfl, -, -, rfl⟩ | ⟨rfl, -, rfl⟩ | ⟨m, rfl, -, hloop⟩ |
      ⟨m, rfl, -, rfl⟩
    · exact ⟨(fun hblocked => by cases hblocked), h.tracked⟩
    · exact ⟨h.free, h.tracked⟩
    · exact h.loop hl hloop s.received (.inl rfl)
    · exact h.client hpermits
  unfold Replier.executorStep at hstep
  split at hstep
  · rename_i ticks message _
    obtain ⟨received, -, hstep⟩ := Option.bind_eq_some_iff.mp hstep
    obtain ⟨executor, hnext, rfl⟩ := Option.map_eq_some_iff.mp hstep
    rcases Executor.next_cases hnext with ⟨hm, -⟩ | ⟨hm, -⟩ | ⟨m, hm, -, hloop⟩ | ⟨m, hm, -⟩
    · cases hm
    · cases hm
    · cases hm
      exact h.loop hl hloop received (.inr ⟨ticks, rfl⟩)
    · cases hm
  · obtain ⟨executor, hnext, rfl⟩ := Option.map_eq_some_iff.mp hstep
    exact hsame hnext

theorem new_tight : (new : Replier QUEUE BUFFER TOPIC).received.Tight := by
  dsimp only [new]
  cases hsubscribe : PubSubChannel.new.subscribe () with
  | none => exact PubSubChannel.tight_new
  | some received => exact PubSubChannel.tight_new.subscribe hsubscribe

/-- The loop publishes to the channel and the task reads it: every message in it is one that the task
has not read. -/
theorem received_tight (h : s.received.Tight) {l : Label}
    (hstep : s.next topicPathCapacity l = some s') : s'.received.Tight := by
  cases l with
  | executor l =>
    simp only [Replier.next] at hstep
    split at hstep
    · unfold Replier.executorStep at hstep
      split at hstep
      · obtain ⟨received, hpublish, hstep⟩ := Option.bind_eq_some_iff.mp hstep
        obtain ⟨executor, -, rfl⟩ := Option.map_eq_some_iff.mp hstep
        exact h.publish hpublish
      · obtain ⟨executor, -, rfl⟩ := Option.map_eq_some_iff.mp hstep
        exact h
    · cases hstep
  | reply topic payload qos retain id =>
    simp only [Replier.next] at hstep
    split at hstep
    · cases hstep
    · unfold Replier.reply at hstep
      split at hstep
      · cases hstep
      · rename_i message received hnext
        cases hstep
        exact h.nextMessage hnext
  | poll =>
    simp only [Replier.next] at hstep
    split at hstep
    · cases hstep
    · split at hstep
      · cases hstep
      · cases hstep
        exact h

theorem Unblocked.next (h : s.Unblocked) (htight : s.received.Tight) {l : Label}
    (hl : s.RoomWhileWaiting l) (hstep : s.next topicPathCapacity l = some s') : s'.Unblocked := by
  cases l with
  | executor l =>
    simp only [Replier.next] at hstep
    split at hstep
    · exact h.executorStep hl (by assumption) hstep
    · cases hstep
  | reply topic payload qos retain id =>
    simp only [Replier.next] at hstep
    split at hstep
    · cases hstep
    · unfold Replier.reply at hstep
      split at hstep
      · cases hstep
      · rename_i message received hnext
        cases hstep
        refine unblocked_of_settle ?_ rfl
        rw [blocked, isFull_nextMessage htight hnext, Bool.and_false]
  | poll =>
    simp only [Replier.next] at hstep
    split at hstep
    · cases hstep
    · rename_i i htask
      split at hstep
      · cases hstep
      · cases hstep
        exact h.poll htask

/-- No run reaches the deadlock in which there is room in the channel whenever the loop gets a PUBLISH
for the task while this waits. -/
theorem replies_acknowledged {ls : List Label}
    (hroom : AllSteps (fun s l => s.next topicPathCapacity l) RoomWhileWaiting
      (new : Replier QUEUE BUFFER TOPIC) ls)
    (hrun : run (fun s l => s.next topicPathCapacity l) new ls = some s) : ¬s.Deadlocked := by
  let I (s : Replier QUEUE BUFFER TOPIC) : Prop := s.Unblocked ∧ s.received.Tight
  have hstep : ∀ s l s', I s → RoomWhileWaiting s l → s.next topicPathCapacity l = some s' → I s' :=
    fun _ _ _ hs hl hstep => ⟨hs.1.next hs.2 hl hstep, received_tight hs.2 hstep⟩
  have hinv : I s := hroom.invariant hstep ⟨new_unblocked, new_tight⟩ hrun
  exact hinv.1.not_deadlocked

/-- A step that breaks the condition leads to the deadlock. -/
theorem deadlocked_of_full {l : Label} (h : ¬s.RoomWhileWaiting l)
    (hstep : s.next topicPathCapacity l = some s') :
    ∃ t, s'.next topicPathCapacity (.executor (.loop .suspend)) = some t ∧ t.Deadlocked := by
  obtain ⟨l, message, rfl, hget, hdelivery, hwaits, hfull⟩ : ∃ m message, l = .executor (.loop m) ∧
      s.executor.receives m = some (.publish message) ∧
      (s.executor.client.receives.delivery message).isSome = true ∧ s.waits = true ∧
        s.received.isFull = true := by
    unfold RoomWhileWaiting at h
    split at h
    · split at h
      · simp only [Classical.not_imp, Bool.not_eq_false] at h
        exact ⟨_, _, rfl, by assumption, h⟩
      · exact absurd trivial h
    · exact absurd trivial h
  obtain ⟨executor, hnext, rfl⟩ : ∃ t, s.executor.next topicPathCapacity (.loop l) = some t ∧
      s' = { s with executor := t } := by
    simp only [Replier.next] at hstep
    split at hstep
    · unfold Replier.executorStep at hstep
      split at hstep
      · rename_i hprocess _
        cases hprocess
        cases hget
      · obtain ⟨t, hnext, rfl⟩ := Option.map_eq_some_iff.mp hstep
        exact ⟨t, hnext, rfl⟩
    · cases hstep
  rcases Executor.next_cases hnext with ⟨hl, -⟩ | ⟨hl, -⟩ | ⟨m, hl, -, hloopStep⟩ | ⟨m, hl, -⟩
  · cases hl
  · cases hl
  · cases hl
    obtain ⟨hloop, hpolling⟩ := Executor.loopStep_receives hloopStep hget
    obtain ⟨-, hclient, hcalls, hevents⟩ := Executor.loopStep_process hloopStep hloop
    have hblocked : blocked { s with executor } = true := by
      simp only [blocked, pendingDelivery, hloop, hclient, hdelivery, hfull, Bool.and_true]
    have hwaits' : waits { s with executor } = true :=
      (waits_eq (fun i _ => ⟨by rw [hcalls], by rw [hevents]⟩) s.received).trans hwaits
    refine ⟨{ s with executor := { executor with polling := false } }, ?_, rfl, ?_, ?_⟩
    · simp only [Replier.next, permits, hloop, hblocked, if_true, Replier.executorStep,
        Executor.next, hpolling, Executor.loopStep, LoopStage.suspends, Option.map_some]
    · exact hblocked
    · exact hwaits'
  · cases hl

/-! ### A task that has replied -/

/-- From the beginning of `run_once` to `select3`, where `answers` are those of the first phase. -/
def pass (answers : List (Except MqttError Bool)) : List Label :=
  [.executor (.loop (.sendPublishes answers [])), .executor (.loop (.sendReceives [])),
    .executor (.loop (.sendSubscribes [] [])), .executor (.loop (.sendPing [] []))]

def receive (packet : Packet) : Label := .executor (.loop (.select (.io (.ok packet))))

def message (payload : UInt8) : Packet :=
  .publish
    { dup := false, qospid := .atMostOnce, retain := false, topicName := [97], payload := [payload] }

/-- The task takes a message and publishes one of QoS 1, which is sent. Then a second message comes. -/
def replyRun : List Label :=
  [.executor .wake] ++ pass [] ++ [receive (message 1), .executor (.loop (.process []))] ++ pass [] ++
    [.executor (.loop (.select .pending)), .reply [98] [] .atLeastOnce false 0, .executor .wake,
      .executor (.loop (.select .pending))] ++
    pass [.ok true] ++ [receive (message 2), .executor (.loop (.process []))] ++ pass []

/-- The broker acknowledges it, and the task waits for a message again. -/
def acknowledgedRun : List Label :=
  replyRun ++ [receive (.puback ⟨1, Nat.one_pos, Pid.one_lt⟩), .executor (.loop (.process [])),
    .executor (.loop .emit)] ++ pass [] ++ [.executor (.loop (.select .pending)), .poll]

theorem replies_acknowledged_on_acknowledgedRun :
    ∃ s : Replier 4 16 16, run (fun s l => s.next 16 l) new acknowledgedRun = some s ∧
      s.task = .receiving ∧ ¬s.Deadlocked := by
  have hany : (run (fun s l => s.next 16 l) (new : Replier 4 16 16) acknowledgedRun).any
      (fun s => s.task = .receiving) = true := by
    decide +kernel
  obtain ⟨s, hrun, htask⟩ := (Option.any_eq_true _ _).mp hany
  exact ⟨s, hrun, of_decide_eq_true htask, replies_acknowledged (by decide +kernel) hrun⟩

/-! ## The deadlock is for ever -/

/-- Nobody can help the loop and the task any more. -/
structure Stuck (s : Replier QUEUE BUFFER TOPIC) : Prop where
  blocked : s.blocked = true
  waits : s.waits = true
  awaiting : ∃ i call, s.task = .publishing i ∧ s.executor.calls[i]? = some call ∧
    call.phase = .awaiting
  subscribed : (s.received.unread ()).isSome = true

/-- The loop does nothing but look whether there is room. -/
theorem Stuck.loop (h : s.Stuck) {l : Executor.LoopLabel}
    (hstep : s.executorStep topicPathCapacity (.loop l) = some s') :
    s' = { s with executor := { s.executor with polling := false } } := by
  obtain ⟨message, hloop, hdelivery, hfull⟩ := blocked_process h.blocked
  obtain ⟨m, hpending⟩ := Option.isSome_iff_exists.mp hdelivery
  obtain ⟨u, hunread⟩ := Option.isSome_iff_exists.mp h.subscribed
  have hpending : s.pendingDelivery = some m := by
    rw [pendingDelivery, hloop]
    exact hpending
  have hother (stage : LoopStage) (t : Executor QUEUE BUFFER TOPIC)
      (hstage : stage ≠ .process (.publish message)) : s.executor.whenAt stage t = none := by
    rw [Executor.whenAt, hloop]
    exact if_neg fun h => hstage (Loop.going.inj h).symm
  -- the one step that the loop can take, unless it is `process_packet`
  have hnext (hl : ∀ ticks, l ≠ .process ticks) :
      ∃ t, s.executor.loopStep topicPathCapacity l = some t ∧ s' = { s with executor := t } := by
    unfold Replier.executorStep at hstep
    split at hstep
    · rename_i ticks m' hprocess _
      exact absurd (Executor.Label.loop.inj hprocess) (hl ticks)
    · obtain ⟨t, hnext, rfl⟩ := Option.map_eq_some_iff.mp hstep
      simp only [Executor.next] at hnext
      split at hnext
      · exact ⟨t, hnext, rfl⟩
      · cases hnext
  cases l with
  | process ticks =>
    simp only [Replier.executorStep, hpending, PubSubChannel.publish_eq_none hfull hunread,
      Option.bind_none] at hstep
    cases hstep
  | suspend =>
    obtain ⟨t, ht, rfl⟩ := hnext fun _ => Executor.LoopLabel.noConfusion
    simp only [Executor.loopStep] at ht
    split at ht
    · split at ht
      · cases ht
        rfl
      · cases ht
    · cases ht
  | emit =>
    obtain ⟨t, ht, rfl⟩ := hnext fun _ => Executor.LoopLabel.noConfusion
    obtain ⟨event, rest, locked, hpublishing, -⟩ := Executor.emit_cases ht
    cases hpublishing.symm.trans hloop
  | connectFails | autoSubscribe | autoSubscribed | sendPublishes | sendReceives | sendSubscribes
  | sendPing | runIoNonblocking | select =>
    obtain ⟨t, ht, rfl⟩ := hnext fun _ => Executor.LoopLabel.noConfusion
    simp only [Executor.loopStep] at ht
    rw [hother _ _ LoopStage.noConfusion] at ht
    cases ht

/-- The executor has moved, but not the loop, and the task's call is as before. -/
theorem Stuck.executor (h : s.Stuck) {executor : Executor QUEUE BUFFER TOPIC}
    (hloop : executor.loop = s.executor.loop)
    (hreceives : executor.client.receives = s.executor.client.receives)
    (hleaves : ∀ i, s.task = .publishing i → Executor.LeavesCall i s.executor executor) :
    Stuck { s with executor } := by
  obtain ⟨i, call, htask, hcall, hphase⟩ := h.awaiting
  refine ⟨?_, ?_, ⟨i, call, htask, ?_, hphase⟩, h.subscribed⟩
  · rw [blocked_eq hloop hreceives]
    exact h.blocked
  · rw [waits_eq hleaves]
    exact h.waits
  · exact (hleaves i htask).call.trans hcall

/-- The task reads the events that are there, and goes on waiting. -/
theorem Stuck.poll (h : s.Stuck) {i : Nat} (htask : s.task = .publishing i) :
    Stuck { s with executor := s.executor.poll i, task := settle (s.executor.poll i) i } := by
  obtain ⟨hloop, hreceives⟩ := Executor.clientStep_frame (s := s.executor) (.poll i)
  obtain ⟨j, call, htask', hcall, hphase⟩ := h.awaiting
  obtain rfl : i = j := ReplyStage.publishing.inj (htask.symm.trans htask')
  have hwaits := h.waits
  simp only [Replier.waits, htask, hcall, Option.any_some, Bool.not_eq_true'] at hwaits
  have hpoll : s.executor.poll i = s.executor.awaitEvent i call.accepts := by
    simp only [Executor.poll, hcall, hphase]
  -- what there is to read after the poll is not for the call either
  obtain ⟨hcalls, hunread⟩ : (s.executor.poll i).calls = s.executor.calls ∧
      (((s.executor.poll i).events.unread i).getD []).any call.accepts = false := by
    rw [hpoll]
    cases hu : s.executor.events.unread i with
    | none =>
      rw [Executor.awaitEvent, hu]
      exact ⟨rfl, by rw [Option.getD_none, List.length_nil, Executor.readEvents, hu]; rfl⟩
    | some u =>
      rw [hu, Option.getD_some] at hwaits
      obtain ⟨events, -, ⟨-, hempty, hsame⟩ | ⟨event, hfind, -⟩⟩ := Executor.awaitEvent_cases hu
      · rw [hsame]
        exact ⟨rfl, by rw [hempty]; rfl⟩
      · have haccepts := List.any_eq_true.mpr ⟨event, List.mem_of_find?_eq_some hfind,
          List.find?_some hfind⟩
        exact absurd (hwaits.symm.trans haccepts) Bool.false_ne_true
  have hcall' : (s.executor.poll i).calls[i]? = some call := by rw [hcalls, hcall]
  have hsettle : settle (s.executor.poll i) i = .publishing i := by
    rw [settle, hcall', Option.map_some, hphase]
  refine ⟨(blocked_eq hloop hreceives).trans h.blocked, ?_, ⟨i, call, hsettle, hcall', hphase⟩,
    h.subscribed⟩
  simp only [Replier.waits, hsettle, hcall', Option.any_some, hunread, Bool.not_false]

theorem Stuck.executorStep (h : s.Stuck) {l : Executor.Label} (hpermits : s.permits l = true)
    (hstep : s.executorStep topicPathCapacity l = some s') : s'.Stuck := by
  have hnext (hl : ∀ m, l ≠ .loop m) : ∃ t, s.executor.next topicPathCapacity l = some t ∧
      s' = { s with executor := t } := by
    unfold Replier.executorStep at hstep
    split at hstep
    · exact absurd rfl (hl _)
    · obtain ⟨t, hnext, rfl⟩ := Option.map_eq_some_iff.mp hstep
      exact ⟨t, hnext, rfl⟩
  cases l with
  | run =>
    obtain ⟨t, ht, rfl⟩ := hnext nofun
    obtain ⟨message, hloop, -⟩ := blocked_process h.blocked
    rcases Executor.next_cases ht with ⟨-, -, hstopped, -⟩ | ⟨hl, -⟩ | ⟨m, hl, -⟩ | ⟨m, hl, -⟩
    · cases hstopped.symm.trans hloop
    · cases hl
    · cases hl
    · cases hl
  | wake =>
    obtain ⟨t, ht, rfl⟩ := hnext nofun
    rcases Executor.next_cases ht with ⟨hl, -⟩ | ⟨-, -, rfl⟩ | ⟨m, hl, -⟩ | ⟨m, hl, -⟩
    · cases hl
    · exact h.executor rfl rfl fun _ _ => ⟨rfl, rfl⟩
    · cases hl
    · cases hl
  | loop l =>
    rw [h.loop hstep]
    exact h.executor rfl rfl fun _ _ => ⟨rfl, rfl⟩
  | client l =>
    obtain ⟨t, ht, rfl⟩ := hnext nofun
    rcases Executor.next_cases ht with ⟨hl, -⟩ | ⟨hl, -⟩ | ⟨m, hl, -⟩ | ⟨m, hl, -, rfl⟩
    · cases hl
    · cases hl
    · cases hl
    · cases hl
      obtain ⟨hloop, hreceives⟩ := Executor.clientStep_frame (s := s.executor) l
      refine h.executor hloop hreceives fun i hi => ?_
      obtain ⟨j, call, hj, hcall, -⟩ := h.awaiting
      obtain rfl : i = j := ReplyStage.publishing.inj (hi.symm.trans hj)
      refine Executor.clientStep_leavesCall (List.getElem?_eq_some_iff.mp hcall).1 fun htarget => ?_
      rw [permits, htarget, Option.all_some, decide_eq_true_eq] at hpermits
      exact hpermits hi

/-- Every step that is still possible leaves the loop and the task waiting for each other. -/
theorem Stuck.next (h : s.Stuck) {l : Label} (hstep : s.next topicPathCapacity l = some s') :
    s'.Stuck := by
  cases l with
  | executor l =>
    simp only [Replier.next] at hstep
    split at hstep
    · exact h.executorStep (by assumption) hstep
    · cases hstep
  | reply topic payload qos retain id =>
    obtain ⟨i, call, htask, -⟩ := h.awaiting
    have hreceiving : s.task ≠ .receiving := by
      rw [htask]
      exact nofun
    simp only [Replier.next, hreceiving, ne_eq, not_false_eq_true, or_true, if_true] at hstep
    cases hstep
  | poll =>
    simp only [Replier.next] at hstep
    split at hstep
    · cases hstep
    · rename_i i htask
      split at hstep
      · cases hstep
      · cases hstep
        exact h.poll htask

theorem Stuck.run (h : s.Stuck) {ls : List Label}
    (hrun : run (fun s l => s.next topicPathCapacity l) s ls = some s') : s'.Stuck :=
  Run.invariant (I := Stuck) (fun _ _ _ h hstep => h.next hstep) h hrun

def isAwaiting (s : Replier QUEUE BUFFER TOPIC) : Bool :=
  match s.task with
  | .receiving => false
  | .publishing i => (s.executor.calls[i]?).any fun call => call.phase = .awaiting

theorem isAwaiting_iff : s.isAwaiting = true ↔
    ∃ i call, s.task = .publishing i ∧ s.executor.calls[i]? = some call ∧ call.phase = .awaiting := by
  unfold isAwaiting
  cases s.task with
  | receiving => exact ⟨nofun, fun ⟨_, _, htask, _⟩ => nomatch htask⟩
  | publishing i =>
    refine ⟨fun h => ?_, fun ⟨j, call, htask, hcall, hphase⟩ => ?_⟩
    · obtain ⟨call, hcall, hphase⟩ := (Option.any_eq_true _ _).mp h
      exact ⟨i, call, rfl, hcall, of_decide_eq_true hphase⟩
    · cases htask
      exact (Option.any_eq_true _ _).mpr ⟨call, hcall, decide_eq_true hphase⟩

instance : Decidable s.Stuck :=
  decidable_of_iff
    (s.blocked = true ∧ s.waits = true ∧ s.isAwaiting = true ∧ (s.received.unread ()).isSome = true)
    ⟨fun ⟨hblocked, hwaits, h, hs⟩ => ⟨hblocked, hwaits, isAwaiting_iff.mp h, hs⟩,
      fun ⟨hblocked, hwaits, h, hs⟩ => ⟨hblocked, hwaits, isAwaiting_iff.mpr h, hs⟩⟩

/-- A third message before the acknowledgement stops the loop and the task, whatever happens then. -/
theorem third_message_deadlocks :
    ∃ s : Replier 4 16 16,
      run (fun s l => s.next 16 l) new
          (replyRun ++ [receive (message 3), .executor (.loop .suspend)]) = some s ∧
        s.Deadlocked ∧
        ∀ ls s', run (fun s l => s.next 16 l) s ls = some s' → s'.Stuck := by
  have hany : (run (fun s l => s.next 16 l) (new : Replier 4 16 16)
      (replyRun ++ [receive (message 3), .executor (.loop .suspend)])).any
      (fun s => decide (s.Deadlocked ∧ s.Stuck)) = true := by
    decide +kernel
  obtain ⟨s, hrun, h⟩ := (Option.any_eq_true _ _).mp hany
  obtain ⟨hdeadlocked, hstuck⟩ := of_decide_eq_true h
  exact ⟨s, hrun, hdeadlocked, fun ls s' hrun' => hstuck.run hrun'⟩

end Replier

end EmbeddedMqttc
