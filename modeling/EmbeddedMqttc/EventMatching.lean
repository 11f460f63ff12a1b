import EmbeddedMqttc.Flight
import EmbeddedMqttc.MqttClients
import EmbeddedMqttc.PublishAccounting
import EmbeddedMqttc.SubResults

/-!
# Events and the calls that they complete

Ids are used again, so an event says which number it is for and not which request. That a call never
takes the event of another request rests on the order in which things happen: a call has its id
before it subscribes to the events, and frees it only when the one event of its request has been
emitted and read.

An accepted request is in at most one place: in a queue, or in its completion event. `places` counts
them, and no step of the loop makes them more.
-/

namespace EmbeddedMqttc

open Prog EmbeddedMqttc.Comp Run

variable {QUEUE BUFFER TOPIC : Nat}

/-! ## The places of a request -/

namespace Publishes

variable {c c' : Ctx (PublishesInner QUEUE BUFFER TOPIC)}

/-- Only `PublishDone` events have been added. -/
def Reports (c c' : Ctx (PublishesInner QUEUE BUFFER TOPIC)) : Prop :=
  ∃ ids : List UniqueID, c'.env.events = c.env.events ++ ids.map .publishDone

theorem Reports.none (h : c'.env.events = c.env.events) : Reports c c' := ⟨[], by simp [h]⟩

theorem Reports.one {u : UniqueID} (h : c'.env.events = c.env.events ++ [.publishDone u]) :
    Reports c c' := ⟨[u], h⟩

theorem reports_move (hmove : PublishesInner.Move c c') : Reports c c' := by
  cases hmove with
  | atMostOnce => exact .one rfl
  | _ => exact .none rfl

theorem reports_sendPackets : Reports c (sendPackets.exec c).2 := by
  let I (s : Ctx (PublishesInner QUEUE BUFFER TOPIC)) : Prop := Reports c s
  have hstep : ∀ s s', PublishesInner.Move s s' → I s → I s' := by
    rintro s s' hmove ⟨ids, hids⟩
    obtain ⟨more, hmore⟩ := reports_move hmove
    exact ⟨ids ++ more, by rw [hmore, hids, List.map_append, List.append_assoc]⟩
  exact PublishesInner.sendPackets_moves.invariant (I := I) hstep (.none rfl)

theorem reports_processIncomingPacket (packet : Packet) :
    Reports c ((processIncomingPacket packet).exec c).2 := by
  cases packet with
  | puback pid =>
    rcases PublishesInner.processPuback_cases c pid with ⟨i, p, -, -, h⟩ | ⟨-, h⟩
    · simp only [processIncomingPacket, h]
      exact .one rfl
    · simp only [processIncomingPacket, h]
      exact .none rfl
  | pubrec pid =>
    rcases PublishesInner.processPubrec_cases c pid with
      ⟨i, p, r, inner, -, -, -, h⟩ | ⟨-, r, inner, -, h⟩
    · simp only [processIncomingPacket, h]
      exact .none rfl
    · simp only [processIncomingPacket, h]
      exact .none rfl
  | pubcomp pid =>
    rcases PublishesInner.processPubcomp_cases c pid with ⟨i, p, -, -, h⟩ | ⟨-, h⟩
    · simp only [processIncomingPacket, h]
      exact .one rfl
    · simp only [processIncomingPacket, h]
      exact .none rfl
  | _ => exact .none rfl

/-- A call loses a publish or leaves every place as it is. -/
theorem held_processIncomingPacket (packet : Packet) (u : UniqueID) :
    held ((processIncomingPacket packet).exec c).2 u ≤ held c u := by
  let books : Books QUEUE BUFFER TOPIC := { ctx := c, accepted := [] }
  by_cases hroom : books.Room (.processIncomingPacket packet)
  · exact Nat.le_of_eq (Books.held_outcome hroom u)
  · obtain ⟨-, lost, hlost⟩ := Books.held_outcome_full hroom
    exact Nat.le_of_add_right_le (Nat.le_of_eq (hlost u))

end Publishes

namespace Client

/-- How many places there are for a request: entries of queues and events. -/
def places (s : Client QUEUE BUFFER TOPIC) (u : UniqueID) : Nat :=
  s.publishes.queued u + (s.subscribes.requests.map (·.uniqueId)).count u +
    (s.env.events.map (·.uniqueId)).count u

/-- Requests have gone on to their events or have been lost. -/
structure Settles (s s' : Client QUEUE BUFFER TOPIC) : Prop where
  events : ∃ new, s'.env.events = s.env.events ++ new
  places : ∀ u, s'.places u ≤ s.places u

variable {s s' t : Client QUEUE BUFFER TOPIC}

theorem Settles.of_eq (hpublishes : s'.publishes = s.publishes)
    (hsubscribes : s'.subscribes = s.subscribes) (hevents : s'.env.events = s.env.events) :
    Settles s s' where
  events := ⟨[], by rw [hevents, List.append_nil]⟩
  places u := by rw [Client.places, hpublishes, hsubscribes, hevents, Client.places]

theorem Settles.trans (h : Settles s s') (h' : Settles s' t) : Settles s t where
  events := by
    obtain ⟨new, hnew⟩ := h.events
    obtain ⟨more, hmore⟩ := h'.events
    exact ⟨new ++ more, by rw [hmore, hnew, List.append_assoc]⟩
  places u := Nat.le_trans (h'.places u) (h.places u)

theorem callPublishes_settles {α : Type} {m : PublishesCall QUEUE BUFFER TOPIC α}
    (hreports : Publishes.Reports ⟨s.publishes, s.env⟩ (m.exec ⟨s.publishes, s.env⟩).2)
    (hheld : ∀ u, Publishes.held (m.exec ⟨s.publishes, s.env⟩).2 u ≤
      Publishes.held ⟨s.publishes, s.env⟩ u) : Settles s (s.callPublishes m).2 := by
  obtain ⟨ids, hids⟩ := hreports
  refine ⟨⟨_, hids⟩, fun u => ?_⟩
  have hheld := hheld u
  have hdone : (ids.map MqttEvent.publishDone).count (.publishDone u) = ids.count u :=
    List.count_map_of_injective _ _ (fun _ _ h => MqttEvent.publishDone.inj h) _
  have hids' : ((ids.map MqttEvent.publishDone).map (·.uniqueId)).count u = ids.count u := by
    rw [List.map_map]
    exact congrArg (List.count u) (List.map_id ids)
  simp only [Publishes.held, hids, List.count_append, hdone] at hheld
  simp only [Client.places, callPublishes, hids, List.map_append, List.count_append, hids']
  omega

theorem callSubscribes_settles {α : Type} {m : SubsCall TOPIC QUEUE α}
    (hperm : (m.exec ⟨s.subscribes, s.env⟩).2.inner.requests.Perm s.subscribes.requests)
    (hevents : (m.exec ⟨s.subscribes, s.env⟩).2.env.events = s.env.events) :
    Settles s (s.callSubscribes m).2 where
  events := ⟨[], by rw [List.append_nil]; exact hevents⟩
  places u := by
    have hcount := (hperm.map (·.uniqueId)).count_eq u
    simp only [Client.places, callSubscribes, hcount, hevents]
    exact Nat.le_refl _

/-- An acknowledgement of `Subs` takes out one request and reports it. -/
theorem callSubscribes_settles_of_answer {α : Type} {m : SubsCall TOPIC QUEUE α} {i : Nat}
    {entry : AwaitAck TOPIC} {r : Except (Stop MqttError) α} {env : Env} {event : MqttEvent}
    (hi : s.subscribes.awaitAck.get? i = some entry)
    (hm : m.exec ⟨s.subscribes, s.env⟩ =
      (r, { inner := { s.subscribes with awaitAck := s.subscribes.awaitAck.removeAt i }, env }))
    (hevents : env.events = s.env.events ++ [event])
    (hevent : event.uniqueId = entry.request.uniqueId) :
    Settles s (s.callSubscribes m).2 := by
  simp only [callSubscribes, hm]
  refine ⟨⟨_, hevents⟩, fun u => ?_⟩
  have hcount := ((SubsInner.requests_removeAt hi).map (·.uniqueId)).count_eq u
  simp only [List.map_cons, List.count_cons, beq_iff_eq] at hcount
  simp only [Client.places, hevents, List.map_append, List.map_cons, List.map_nil,
    List.count_append, List.count_singleton, beq_iff_eq, hevent]
  omega

theorem scripted_settles (answers : List (Except MqttError Bool)) (ticks : List Duration) :
    Settles s (s.scripted answers ticks) := .of_eq rfl rfl rfl

/-- A packet that is processed settles what it acknowledges, and nothing else. -/
theorem processPacket_settles (packet : Packet) : Settles s (s.processPacket packet).2 := by
  have hpublishes (packet : Packet) :
      Settles s (s.callPublishes (Publishes.processIncomingPacket packet)).2 :=
    callPublishes_settles (Publishes.reports_processIncomingPacket packet)
      (Publishes.held_processIncomingPacket packet)
  cases packet with
  | puback pid | pubrec pid | pubcomp pid => exact hpublishes _
  | suback response =>
    rcases SubsInner.onSuback_cases response ⟨s.subscribes, s.env⟩ with
      h | ⟨i, entry, qos, result, hi, -, -, h⟩
    · simp only [processPacket, callSubscribes, h]
      exact .of_eq rfl rfl rfl
    · exact callSubscribes_settles_of_answer hi h rfl rfl
  | unsuback pid =>
    rcases SubsInner.onUnsuback_cases pid ⟨s.subscribes, s.env⟩ with h | ⟨i, entry, hi, -, -, h⟩
    · simp only [processPacket, callSubscribes, h]
      exact .of_eq rfl rfl rfl
    · exact callSubscribes_settles_of_answer hi h rfl rfl
  | publish message =>
    have henv := Receives.onPublish_env ⟨s.receives, s.env⟩ message
    have hevents := congrArg Env.events henv
    exact .of_eq rfl rfl hevents
  | pubrel pid =>
    have henv := Receives.onPubrel_env ⟨s.receives, s.env⟩ pid
    have hevents := congrArg Env.events henv
    exact .of_eq rfl rfl hevents
  | _ => exact .of_eq rfl rfl rfl

theorem sendPublishes_settles (answers : List (Except MqttError Bool)) (ticks : List Duration) :
    Settles s ((s.scripted answers ticks).callPublishes Publishes.sendPackets).2 := by
  refine (scripted_settles answers ticks).trans
    (callPublishes_settles Publishes.reports_sendPackets fun u => ?_)
  have hheld := Publishes.held_sendPackets (c := ⟨s.publishes, (s.scripted answers ticks).env⟩) u
  rw [exec_map] at hheld
  exact Nat.le_of_eq hheld

end Client

/-! ## Steps of the loop -/

namespace Executor

variable {s s' : Executor QUEUE BUFFER TOPIC} {topicPathCapacity : Nat}

/-- The events that the loop is about to put in the channel. -/
def pending (s : Executor QUEUE BUFFER TOPIC) : List MqttEvent :=
  match s.loop with
  | .going _ => []
  | .publishing event rest _ => event :: rest

theorem pending_of_going {stage : LoopStage} (h : s.loop = .going stage) : s.pending = [] := by
  rw [pending, h]

@[simp] theorem pending_hold (events : List MqttEvent) (call : LockedCall) :
    (s.hold events call).pending = events := by
  cases events <;> rfl

/-- A step that puts nothing in the channel and processes no packet of the publishes. -/
structure Silent (s s' : Executor QUEUE BUFFER TOPIC) : Prop where
  settles : s.client.Settles s'.client
  reported : s'.client.env.events = s.client.env.events
  calls : s'.calls = s.calls
  events : s'.events = s.events
  emitted : s'.emitted = s.emitted
  pending : s.pending = [] ∧ s'.pending = []

theorem Silent.of_going {stage stage' : LoopStage} (hloop : s.loop = .going stage)
    (hloop' : s'.loop = .going stage') (hclient : s'.client = s.client) (hcalls : s'.calls = s.calls)
    (hevents : s'.events = s.events) (hemitted : s'.emitted = s.emitted) : Silent s s' where
  settles := .of_eq (by rw [hclient]) (by rw [hclient]) (by rw [hclient])
  reported := by rw [hclient]
  calls := hcalls
  events := hevents
  emitted := hemitted
  pending := ⟨pending_of_going hloop, pending_of_going hloop'⟩

theorem Silent.sent {stage next : LoopStage} (hloop : s.loop = .going stage)
    {o : Except (Stop MqttError) SendResult × Client QUEUE BUFFER TOPIC}
    (hsettles : s.client.Settles o.2) (hreported : o.2.env.events = s.client.env.events) :
    Silent s (s.sent next o) :=
  ⟨hsettles, hreported, rfl, rfl, rfl, pending_of_going hloop, rfl⟩

theorem autoSubscribeChunk_settles (c : Client QUEUE BUFFER TOPIC) :
    c.Settles c.autoSubscribeChunk.2 ∧ c.autoSubscribeChunk.2.env.events = c.env.events := by
  unfold Client.autoSubscribeChunk Client.callPublishes
  split
  · exact ⟨.of_eq rfl rfl rfl, rfl⟩
  · rcases nextPid_cases ⟨c.publishes, c.env⟩ with h | ⟨pid, pool, -, h⟩ <;> rw [h] <;>
      exact ⟨.of_eq rfl rfl rfl, rfl⟩

theorem select_client (ready : Ready) : (s.select ready).client = s.client := by
  unfold select
  split
  · rfl
  · rfl
  · split <;> rfl

/-- What a step of the loop is for the events. -/
theorem loopStep_settles {l : LoopLabel} (h : s.loopStep topicPathCapacity l = some s') :
    Silent s s' ∨
      (∃ answers ticks, s.loop = .going .start ∧ s' = s.sendPublishes answers ticks) ∨
      s.emit = some s' ∨
      ∃ packet ticks, s.loop = .going (.process packet) ∧ s' = s.process packet ticks := by
  cases l with
  | connectFails e =>
    obtain ⟨hloop, rfl⟩ := whenAt_eq_some_iff.mp h
    exact .inl (.of_going hloop rfl rfl rfl rfl rfl)
  | autoSubscribe =>
    obtain ⟨hloop, rfl⟩ := whenAt_eq_some_iff.mp h
    refine .inl ?_
    have hchunk := autoSubscribeChunk_settles s.client
    split
    · rename_i client heq
      rw [heq] at hchunk
      exact ⟨hchunk.1, hchunk.2, rfl, rfl, rfl, pending_of_going hloop, pending_of_going hloop⟩
    · rename_i x client heq
      rw [heq] at hchunk
      exact ⟨hchunk.1, hchunk.2, rfl, rfl, rfl, pending_of_going hloop, rfl⟩
  | autoSubscribed =>
    obtain ⟨hloop, rfl⟩ := whenAt_eq_some_iff.mp h
    exact .inl ⟨.of_eq rfl rfl rfl, rfl, rfl, rfl, rfl, pending_of_going hloop, pending_of_going hloop⟩
  | suspend =>
    simp only [loopStep] at h
    split at h
    · rename_i stage hloop
      split at h
      · cases h
        exact .inl (.of_going hloop hloop rfl rfl rfl rfl)
      · cases h
    · cases h
  | sendPublishes answers ticks =>
    obtain ⟨hloop, rfl⟩ := whenAt_eq_some_iff.mp h
    exact .inr (.inl ⟨answers, ticks, hloop, rfl⟩)
  | emit => exact .inr (.inr (.inl h))
  | sendReceives answers =>
    obtain ⟨hloop, rfl⟩ := whenAt_eq_some_iff.mp h
    have hevents := (Receives.sendPackets_asksNone true
      ⟨s.client.receives, (s.client.scripted answers []).env⟩).2
    exact .inl (.sent hloop (.of_eq rfl rfl hevents) hevents)
  | sendSubscribes answers ticks =>
    obtain ⟨hloop, rfl⟩ := whenAt_eq_some_iff.mp h
    let c : Ctx (SubsInner TOPIC QUEUE) :=
      ⟨s.client.subscribes, (s.client.scripted answers ticks).env⟩
    have hsend : ((SubsInner.send topicPathCapacity).exec c).2.inner.requests.Perm
        c.inner.requests ∧ ((SubsInner.send topicPathCapacity).exec c).2.env.events =
          c.env.events := SubsInner.requests_send
    exact .inl (.sent hloop ((s.client.scripted_settles answers ticks).trans
      (Client.callSubscribes_settles hsend.1 hsend.2)) hsend.2)
  | sendPing answers ticks =>
    obtain ⟨hloop, rfl⟩ := whenAt_eq_some_iff.mp h
    have hevents := (PingStateInner.send_asksNone true
      ⟨s.client.ping, (s.client.scripted answers ticks).env⟩).2
    exact .inl (.sent hloop (.of_eq rfl rfl hevents) hevents)
  | runIoNonblocking outcome =>
    obtain ⟨hloop, rfl⟩ := whenAt_eq_some_iff.mp h
    refine .inl ?_
    split
    · exact .of_going hloop rfl rfl rfl rfl rfl
    · exact .of_going hloop rfl rfl rfl rfl rfl
    · exact .of_going hloop rfl rfl rfl rfl rfl
  | select ready =>
    obtain ⟨hloop, rfl⟩ := whenAt_eq_some_iff.mp h
    obtain ⟨hcalls, hevents, hemitted, stage, hstage⟩ := select_quiet hloop ready
    exact .inl (.of_going hloop hstage (select_client ready) hcalls hevents hemitted)
  | process ticks =>
    simp only [loopStep] at h
    split at h
    · rename_i packet hloop
      exact .inr (.inr (.inr ⟨packet, ticks, hloop, (Option.some.inj h).symm⟩))
    · cases h

/-! ## Events and calls -/

end Executor

/-- The call has received its event, so its id has been freed or is about to be. -/
def ClientCall.Returned (call : ClientCall) : Prop := ∃ event, call.phase = .ended (some event)

theorem ClientCall.InProgress.not_returned {call : ClientCall} (h : call.InProgress) :
    ¬call.Returned := fun ⟨_, hphase⟩ => h _ hphase

theorem Request.id_of_accepts {request : Request} {id : Nat} {event : MqttEvent}
    (h : request.accepts id event = true) : event.uniqueId.id = id := by
  cases request with
  | publish message =>
    cases event with
    | publishDone u => exact beq_iff_eq.mp h
    | _ => cases h
  | subscribe topic qos =>
    cases event with
    | subscribeDone u result => exact beq_iff_eq.mp h
    | _ => cases h
  | unsubscribe topic =>
    cases event with
    | unsubscribeDone u => exact beq_iff_eq.mp h
    | _ => cases h

namespace Executor

/-- Every place belongs to the call that has its number, and an event that a call could take is the one of
its own request. `pending` are the events that have been reported and not yet emitted. -/
structure Matched (s : Executor QUEUE BUFFER TOPIC) (pending : List MqttEvent) : Prop where
  numbered : ∀ (i : Nat) (call : ClientCall), s.calls[i]? = some call → call.uniqueId.request = i
  /-- A call has its id for itself until it returns. -/
  distinct : ∀ (i j : Nat) (call other : ClientCall), s.calls[i]? = some call → s.calls[j]? = some other →
    ¬call.Returned → ¬other.Returned → call.uniqueId.id = other.uniqueId.id → i = j
  once : ∀ u, s.client.places u ≤ 1
  owned : ∀ u, 0 < s.client.places u →
    ∃ call, s.calls[u.request]? = some call ∧ call.uniqueId = u ∧ call.phase ≠ .waiting
  reported : s.client.env.events = s.emitted ++ pending
  unread : ∀ (i : Nat) (call : ClientCall) us, s.calls[i]? = some call → s.events.unread i = some us →
    ∀ event ∈ us, event ∈ s.emitted ∧ (¬call.Returned →
      event.uniqueId.id = call.uniqueId.id → event.uniqueId = call.uniqueId)
  received : ∀ (i : Nat) (call : ClientCall) event, s.calls[i]? = some call →
    call.phase = .ended (some event) →
    event.uniqueId = call.uniqueId ∧ event ∈ s.emitted

variable {s s' : Executor QUEUE BUFFER TOPIC} {topicPathCapacity : Nat} {events : List MqttEvent}
  {event : MqttEvent}

/-- A request has one completion event. -/
theorem Matched.emitted_nodup (h : s.Matched events) :
    (s.emitted.map (·.uniqueId.request)).Nodup := by
  have hplace {u : UniqueID} (hu : u ∈ s.emitted.map (·.uniqueId)) : 0 < s.client.places u := by
    have hcount := List.count_pos_iff.mpr hu
    rw [Client.places, h.reported, List.map_append, List.count_append]
    omega
  have hids : (s.emitted.map (·.uniqueId)).Nodup := by
    rw [List.nodup_iff_count_le_one]
    intro u
    have honce := h.once u
    rw [Client.places, h.reported, List.map_append, List.count_append] at honce
    omega
  have hrequests : ((s.emitted.map (·.uniqueId)).map (·.request)).Nodup := by
    refine hids.map_on fun u hu v hv heq => ?_
    obtain ⟨call, hcall, hcallId, -⟩ := h.owned u (hplace hu)
    obtain ⟨other, hother, hotherId, -⟩ := h.owned v (hplace hv)
    rw [heq] at hcall
    cases hcall.symm.trans hother
    exact hcallId.symm.trans hotherId
  rwa [List.map_map] at hrequests

theorem new_matched : (new : Executor QUEUE BUFFER TOPIC).Matched [] where
  numbered _ _ h := nomatch h
  distinct _ _ _ _ h := nomatch h
  once _ := Nat.zero_le 1
  owned _ h := absurd h (Nat.lt_irrefl 0)
  reported := rfl
  unread _ _ _ h := nomatch h
  received _ _ _ h := nomatch h

/-- The loop reports what it settles. -/
theorem Matched.settles {new : List MqttEvent} (h : s.Matched events)
    (hsettles : s.client.Settles s'.client)
    (hnew : s'.client.env.events = s.client.env.events ++ new) (hcalls : s'.calls = s.calls)
    (hevents : s'.events = s.events) (hemitted : s'.emitted = s.emitted) :
    s'.Matched (events ++ new) where
  numbered := by rw [hcalls]; exact h.numbered
  distinct := by rw [hcalls]; exact h.distinct
  once u := Nat.le_trans (hsettles.places u) (h.once u)
  owned u hu := by rw [hcalls]; exact h.owned u (Nat.lt_of_lt_of_le hu (hsettles.places u))
  reported := by rw [hnew, h.reported, hemitted, List.append_assoc]
  unread := by rw [hcalls, hevents, hemitted]; exact h.unread
  received := by rw [hcalls, hemitted]; exact h.received

/-- The call of an event that has been reported, but not emitted, has not returned. -/
theorem Matched.owner (h : s.Matched (event :: events)) :
    ∃ call, s.calls[event.uniqueId.request]? = some call ∧ call.uniqueId = event.uniqueId ∧
      ¬call.Returned := by
  have hcount : (s.client.env.events.map (·.uniqueId)).count event.uniqueId =
      (s.emitted.map (·.uniqueId)).count event.uniqueId +
        ((events.map (·.uniqueId)).count event.uniqueId + 1) := by
    rw [h.reported, List.map_append, List.count_append, List.map_cons, List.count_cons_self]
  have hplace : 0 < s.client.places event.uniqueId := by
    unfold Client.places
    omega
  obtain ⟨call, hcall, hid, -⟩ := h.owned _ hplace
  refine ⟨call, hcall, hid, ?_⟩
  rintro ⟨received, hphase⟩
  obtain ⟨heq, hmem⟩ := h.received _ call received hcall hphase
  have hemitted : 0 < (s.emitted.map (·.uniqueId)).count event.uniqueId := by
    rw [List.count_pos_iff, ← hid, ← heq]
    exact List.mem_map_of_mem hmem
  have honce := h.once event.uniqueId
  unfold Client.places at honce
  omega

/-- The next event is put in the channel. It is for the calls with its id, and there is only one. -/
theorem Matched.emits (h : s.Matched (event :: events)) (hclient : s'.client = s.client)
    (hcalls : s'.calls = s.calls) (hemitted : s'.emitted = s.emitted ++ [event])
    (hunread : ∀ i us', s'.events.unread i = some us' →
      ∃ us, s.events.unread i = some us ∧ ∀ e ∈ us', e ∈ us ∨ e = event) :
    s'.Matched events where
  numbered := by rw [hcalls]; exact h.numbered
  distinct := by rw [hcalls]; exact h.distinct
  once := by rw [hclient]; exact h.once
  owned := by rw [hclient, hcalls]; exact h.owned
  reported := by
    rw [hclient, h.reported, hemitted, List.append_assoc, List.singleton_append]
  unread i call us' hcall hus' e he := by
    rw [hcalls] at hcall
    rw [hemitted]
    obtain ⟨us, hus, hmem⟩ := hunread i us' hus'
    rcases hmem e he with he | rfl
    · obtain ⟨hmem, hown⟩ := h.unread i call us hcall hus e he
      exact ⟨List.mem_append_left _ hmem, hown⟩
    · refine ⟨by simp, fun hprogress hid => ?_⟩
      obtain ⟨owner, howner, heq, hopen⟩ := h.owner
      rw [← heq] at hid
      have hsame := h.distinct _ _ owner call howner hcall hopen hprogress hid
      rw [hsame] at howner
      cases howner.symm.trans hcall
      exact heq.symm
  received i call e hcall hphase := by
    rw [hcalls] at hcall
    rw [hemitted]
    obtain ⟨heq, hmem⟩ := h.received i call e hcall hphase
    exact ⟨heq, List.mem_append_left _ hmem⟩

theorem Matched.emitted (h : s.Matched (event :: events)) {channel : EventChannel}
    (hpublish : s.events.publish event = some channel) :
    Matched { s with events := channel, emitted := s.emitted ++ [event] } events := by
  refine h.emits rfl rfl rfl fun i us' hus' => ?_
  rw [PubSubChannel.unread_publish hpublish] at hus'
  obtain ⟨us, hus, rfl⟩ := Option.map_eq_some_iff.mp hus'
  exact ⟨us, hus, fun e he => by simpa using he⟩

theorem Matched.publishImmediate (h : s.Matched (event :: events)) :
    (s.publishImmediate event).Matched events := by
  refine h.emits rfl rfl rfl fun i us' hus' => ?_
  change (s.events.publishImmediate event).unread i = some us' at hus'
  rw [PubSubChannel.unread_publishImmediate (by decide)] at hus'
  obtain ⟨us, hus, rfl⟩ := Option.map_eq_some_iff.mp hus'
  refine ⟨us, hus, fun e he => ?_⟩
  rcases List.mem_append.mp he with he | he
  · split at he
    · exact .inl (List.mem_of_mem_tail he)
    · exact .inl he
  · exact .inr (List.mem_singleton.mp he)

theorem Matched.immediate (h : s.Matched events) :
    (events.foldl Executor.publishImmediate s).Matched [] := by
  induction events generalizing s with
  | nil => exact h
  | cons event events ih => exact ih h.publishImmediate

/-- What the loop reports is what it puts in the channel. -/
theorem newEvents_eq {client : Client QUEUE BUFFER TOPIC} (h : s.client.Settles client) :
    client.env.events = s.client.env.events ++ s.newEvents client := by
  obtain ⟨new, hnew⟩ := h.events
  rw [newEvents, hnew, List.drop_left]

theorem Matched.congr (h : s.Matched events) (hclient : s'.client = s.client)
    (hcalls : s'.calls = s.calls) (hevents : s'.events = s.events)
    (hemitted : s'.emitted = s.emitted) : s'.Matched events := by
  have hsettles : s.client.Settles s'.client :=
    .of_eq (by rw [hclient]) (by rw [hclient]) (by rw [hclient])
  have h' : s'.Matched (events ++ []) :=
    h.settles hsettles (by rw [hclient, List.append_nil]) hcalls hevents hemitted
  rwa [List.append_nil] at h'

theorem Matched.loopStep {l : LoopLabel} (h : s.Matched s.pending)
    (hstep : s.loopStep topicPathCapacity l = some s') : s'.Matched s'.pending := by
  rcases loopStep_settles hstep with hsilent | ⟨answers, ticks, hloop, rfl⟩ | hemit |
    ⟨packet, ticks, hloop, rfl⟩
  · rw [hsilent.pending.1] at h
    rw [hsilent.pending.2]
    exact h.settles hsilent.settles (by rw [hsilent.reported, List.append_nil]) hsilent.calls
      hsilent.events hsilent.emitted
  · rw [pending_of_going hloop] at h
    have hsettles : s.client.Settles _ := s.client.sendPublishes_settles answers ticks
    rw [sendPublishes, pending_hold]
    exact h.settles (by rw [hold_client]; exact hsettles)
      (by rw [hold_client]; exact newEvents_eq hsettles) hold_calls hold_events hold_emitted
  · obtain ⟨event, rest, call, hloop, ⟨-, rfl⟩ | ⟨channel, hpublish, rfl⟩⟩ := emit_cases hemit
    · exact h.congr rfl rfl rfl rfl
    · rw [pending, hloop] at h
      rw [pending_hold]
      exact (h.emitted hpublish).congr hold_client hold_calls hold_events hold_emitted
  · rw [pending_of_going hloop] at h
    have hsettles : s.client.Settles ((s.client.scripted [] ticks).processPacket packet).2 :=
      (s.client.scripted_settles [] ticks).trans (Client.processPacket_settles packet)
    have hprocessed : Matched
        { s with client := ((s.client.scripted [] ticks).processPacket packet).2 }
        (s.newEvents ((s.client.scripted [] ticks).processPacket packet).2) :=
      h.settles hsettles (newEvents_eq hsettles) rfl rfl rfl
    unfold process
    dsimp only
    split
    · rw [pending_hold]
      exact hprocessed.congr hold_client hold_calls hold_events hold_emitted
    · rw [pending_hold]
      exact hprocessed.congr hold_client hold_calls hold_events hold_emitted
    · rw [pending_hold]
      exact hprocessed.congr hold_client hold_calls hold_events hold_emitted
    · exact hprocessed.immediate.congr rfl rfl rfl rfl

/-! ## Steps of the calls -/

/-- A request that is queued has one place more. -/
theorem attempt_places {call : ClientCall} {client : Client QUEUE BUFFER TOPIC}
    (h : s.attempt call = (.ok ⟨⟩, client)) :
    client.env.events = s.client.env.events ∧
      ∀ u, client.places u = s.client.places u + if call.uniqueId = u then 1 else 0 := by
  have hadd {requestType : RequestType} {topics : List (List UInt8)}
      (h : s.client.callSubscribes (SubsInner.addRequest requestType topics call.uniqueId) =
        (.ok ⟨⟩, client)) : client.env.events = s.client.env.events ∧
      ∀ u, client.places u = s.client.places u + if call.uniqueId = u then 1 else 0 := by
    unfold Client.callSubscribes at h
    rcases SubsInner.addRequest_cases ⟨s.client.subscribes, s.client.env⟩ requestType topics
      call.uniqueId with ⟨x, hx⟩ | ⟨request, rest, pool, -, hid, -, hpush, hx⟩
    · rw [hx] at h
      cases h
    · rw [hx] at h
      cases h
      refine ⟨rfl, fun u => ?_⟩
      have hcount := ((SubsInner.requests_push hpush).map (·.uniqueId)).count_eq u
      simp only [List.map_cons, List.count_cons, beq_iff_eq, hid] at hcount
      simp only [Client.places, hcount]
      omega
  unfold attempt at h
  split at h
  · rename_i message hrequest
    split at h
    · cases h
    · unfold Client.callPublishes at h
      rcases Publishes.publish_cases ⟨s.client.publishes, s.client.env⟩ message call.uniqueId with
        hx | ⟨e, -, hx⟩ | ⟨entry, queue, hentry, hpush, hx⟩
      · rw [hx] at h
        cases h
      · rw [hx] at h
        cases h
      · rw [hx] at h
        cases h
        refine ⟨rfl, fun u => ?_⟩
        have hcount := BoundedVec.countKey_push hpush (g := (·.uniqueId)) (k := u)
        simp only [(OwnedPublish.newFromPublish_ok hentry).1] at hcount
        simp only [Client.places, PublishesInner.queued, hcount]
        omega
  · exact hadd h
  · exact hadd h

/-- A call that begins has an id that no other call has. -/
theorem Matched.subscribed (h : s.Matched events) {call : ClientCall} {channel : EventChannel}
    (hsubscribe : s.events.subscribe s.calls.length = some channel) (hphase : call.phase = .waiting)
    (hrequest : call.uniqueId.request = s.calls.length)
    (hfresh : ∀ (i : Nat) (other : ClientCall), s.calls[i]? = some other → ¬other.Returned →
      other.uniqueId.id ≠ call.uniqueId.id) :
    Matched { s with events := channel, calls := s.calls ++ [call] } events where
  numbered i call' hcall' := by
    rcases getElem?_concat_calls hcall' with ⟨-, hcall'⟩ | ⟨rfl, rfl⟩
    · exact h.numbered i call' hcall'
    · exact hrequest
  distinct i j call₁ call₂ hcall₁ hcall₂ hopen₁ hopen₂ hid := by
    rcases getElem?_concat_calls hcall₁ with ⟨-, hold₁⟩ | ⟨rfl, rfl⟩
    · rcases getElem?_concat_calls hcall₂ with ⟨-, hold₂⟩ | ⟨rfl, rfl⟩
      · exact h.distinct i j call₁ call₂ hold₁ hold₂ hopen₁ hopen₂ hid
      · exact absurd hid (hfresh i call₁ hold₁ hopen₁)
    · rcases getElem?_concat_calls hcall₂ with ⟨-, hold₂⟩ | ⟨rfl, rfl⟩
      · exact absurd hid.symm (hfresh j call₂ hold₂ hopen₂)
      · rfl
  once := h.once
  owned u hu := by
    obtain ⟨owner, howner, hid, hqueued⟩ := h.owned u hu
    have hlt : u.request < s.calls.length := (List.getElem?_eq_some_iff.mp howner).1
    exact ⟨owner, by rw [List.getElem?_append_left hlt]; exact howner, hid, hqueued⟩
  reported := h.reported
  unread i call' us hcall' hus := by
    dsimp only at hus
    rw [PubSubChannel.unread_subscribe hsubscribe] at hus
    rcases getElem?_concat_calls hcall' with ⟨hne, hcall'⟩ | ⟨rfl, rfl⟩
    · rw [if_neg hne] at hus
      exact h.unread i call' us hcall' hus
    · rw [if_pos rfl] at hus
      cases hus
      exact nofun
  received i call' e hcall' he := by
    rcases getElem?_concat_calls hcall' with ⟨-, hcall'⟩ | ⟨rfl, rfl⟩
    · exact h.received i call' e hcall' he
    · rw [hphase] at he
      cases he

/-- The request of a call has been queued. -/
theorem Matched.queued (h : s.Matched events) {i : Nat} {call : ClientCall}
    (hcall : s.calls[i]? = some call) (hphase : call.phase = .waiting)
    {client : Client QUEUE BUFFER TOPIC} (hreported : client.env.events = s.client.env.events)
    (hplaces : ∀ u, client.places u = s.client.places u + if call.uniqueId = u then 1 else 0) :
    ({ s with client }.requestAdded i).Matched events := by
  have hcalls {j : Nat} {call' : ClientCall}
      (hcall' : ({ s with client }.requestAdded i).calls[j]? = some call') :
      ∃ old, s.calls[j]? = some old ∧ call'.uniqueId = old.uniqueId ∧
        (call'.Returned ↔ old.Returned) ∧ (call' = old ∨ call'.phase = .awaiting) := by
    rcases getElem?_modify_calls hcall' with ⟨-, hcall'⟩ | ⟨rfl, old, hold, rfl⟩
    · exact ⟨call', hcall', rfl, .rfl, .inl rfl⟩
    · cases hold.symm.trans hcall
      refine ⟨call, hcall, rfl, ?_, .inr rfl⟩
      simp [ClientCall.Returned, hphase]
  have hnone : s.client.places call.uniqueId = 0 := by
    by_contra hne
    obtain ⟨owner, howner, -, hqueued⟩ := h.owned _ (Nat.pos_of_ne_zero hne)
    rw [h.numbered i call hcall] at howner
    cases howner.symm.trans hcall
    exact hqueued hphase
  refine
    { numbered := ?_, distinct := ?_, once := ?_, owned := ?_, reported := ?_, unread := ?_,
      received := ?_ }
  · intro j call' hcall'
    obtain ⟨old, hold, hid, -, -⟩ := hcalls hcall'
    rw [hid]
    exact h.numbered j old hold
  · intro j k call₁ call₂ hcall₁ hcall₂ hopen₁ hopen₂ hid
    obtain ⟨old₁, hold₁, hid₁, hret₁, -⟩ := hcalls hcall₁
    obtain ⟨old₂, hold₂, hid₂, hret₂, -⟩ := hcalls hcall₂
    rw [hid₁, hid₂] at hid
    exact h.distinct j k old₁ old₂ hold₁ hold₂ (hret₁.not.mp hopen₁) (hret₂.not.mp hopen₂) hid
  · intro u
    change client.places u ≤ 1
    rw [hplaces]
    split
    · rename_i heq
      rw [← heq, hnone]
    · exact h.once u
  · intro u hu
    change 0 < client.places u at hu
    rw [hplaces] at hu
    by_cases heq : call.uniqueId = u
    · subst heq
      refine ⟨{ call with phase := .awaiting, since := s.emitted.length }, ?_, rfl, nofun⟩
      rw [h.numbered i call hcall]
      simp [requestAdded, hcall]
    · rw [if_neg heq, Nat.add_zero] at hu
      obtain ⟨owner, howner, hid, hqueued⟩ := h.owned u hu
      have hne : i ≠ u.request := by
        rintro rfl
        cases howner.symm.trans hcall
        exact hqueued hphase
      exact ⟨owner, (List.getElem?_modify_ne _ _ hne).trans howner, hid, hqueued⟩
  · exact hreported.trans h.reported
  · intro j call' us hcall' hus e he
    obtain ⟨old, hold, hid, hret, -⟩ := hcalls hcall'
    obtain ⟨hmem, hown⟩ := h.unread j old us hold hus e he
    refine ⟨hmem, fun hopen heq => ?_⟩
    rw [hid] at heq ⊢
    exact hown (hret.not.mp hopen) heq
  · intro j call' e hcall' he
    obtain ⟨old, hold, hid, -, rfl | hawaiting⟩ := hcalls hcall'
    · exact h.received j call' e hold he
    · rw [hawaiting] at he
      cases he

theorem Matched.read (h : s.Matched events) {channel : EventChannel}
    (hunread : ∀ i us', channel.unread i = some us' →
      ∃ us, s.events.unread i = some us ∧ ∀ e ∈ us', e ∈ us) :
    Matched { s with events := channel } events where
  numbered := h.numbered
  distinct := h.distinct
  once := h.once
  owned := h.owned
  reported := h.reported
  unread i call us' hcall hus' e he := by
    obtain ⟨us, hus, hmem⟩ := hunread i us' hus'
    exact h.unread i call us hcall hus e (hmem e he)
  received := h.received

/-- A call ends. What it has received is the event of its own request. -/
theorem Matched.finish (h : s.Matched events) {i : Nat} {call : ClientCall}
    (hcall : s.calls[i]? = some call) (hprogress : call.InProgress) {channel : EventChannel}
    (hother : ∀ j, j ≠ i → channel.unread j = s.events.unread j) {received : Option MqttEvent}
    (hreceived : ∀ e, received = some e →
      ∃ us, s.events.unread i = some us ∧ e ∈ us ∧ call.accepts e = true) :
    ({ s with events := channel }.finish i received).Matched events := by
  have hcalls {j : Nat} {call' : ClientCall}
      (hcall' : ({ s with events := channel }.finish i received).calls[j]? = some call') :
      (j ≠ i ∧ s.calls[j]? = some call') ∨
        (j = i ∧ call' = { call with phase := .ended received }) := by
    rcases getElem?_modify_calls hcall' with hcall' | ⟨hj, old, hold, rfl⟩
    · exact .inl hcall'
    · cases hold.symm.trans hcall
      exact .inr ⟨hj, rfl⟩
  have hopen := hprogress.not_returned
  refine
    { numbered := ?_, distinct := ?_, once := h.once, owned := ?_, reported := h.reported,
      unread := ?_, received := ?_ }
  · intro j call' hcall'
    rcases hcalls hcall' with ⟨-, hold⟩ | ⟨rfl, rfl⟩
    · exact h.numbered j call' hold
    · exact h.numbered j call hcall
  · intro j k call₁ call₂ hcall₁ hcall₂ hopen₁ hopen₂ hid
    rcases hcalls hcall₁ with ⟨-, hold₁⟩ | ⟨rfl, rfl⟩
    · rcases hcalls hcall₂ with ⟨-, hold₂⟩ | ⟨rfl, rfl⟩
      · exact h.distinct j k call₁ call₂ hold₁ hold₂ hopen₁ hopen₂ hid
      · exact h.distinct j k call₁ call hold₁ hcall hopen₁ hopen hid
    · rcases hcalls hcall₂ with ⟨-, hold₂⟩ | ⟨rfl, rfl⟩
      · exact h.distinct j k call call₂ hcall hold₂ hopen hopen₂ hid
      · rfl
  · intro u hu
    obtain ⟨owner, howner, hid, hqueued⟩ := h.owned u hu
    by_cases heq : i = u.request
    · subst heq
      cases howner.symm.trans hcall
      refine ⟨{ call with phase := .ended received }, ?_, hid, nofun⟩
      simp [Executor.finish, hcall]
    · exact ⟨owner, (List.getElem?_modify_ne _ _ heq).trans howner, hid, hqueued⟩
  · intro j call' us hcall' hus
    change (channel.unsubscribe i).unread j = some us at hus
    rw [PubSubChannel.unread_unsubscribe] at hus
    rcases hcalls hcall' with ⟨hne, hold⟩ | ⟨rfl, rfl⟩
    · rw [if_neg hne, hother j hne] at hus
      exact h.unread j call' us hold hus
    · rw [if_pos rfl] at hus
      cases hus
  · intro j call' e hcall' he
    rcases hcalls hcall' with ⟨-, hold⟩ | ⟨rfl, rfl⟩
    · exact h.received j call' e hold he
    · obtain ⟨us, hus, hmem, haccepts⟩ := hreceived e (CallPhase.ended.inj he)
      obtain ⟨hemitted, hown⟩ := h.unread j call us hcall hus e hmem
      exact ⟨hown hopen (Request.id_of_accepts haccepts), hemitted⟩

theorem Matched.awaitEvent (h : s.Matched events) {i : Nat} {call : ClientCall}
    (hcall : s.calls[i]? = some call) (hphase : call.phase = .awaiting) :
    (s.awaitEvent i call.accepts).Matched events := by
  cases hu : s.events.unread i with
  | none =>
    rw [Executor.awaitEvent, hu]
    exact h
  | some u =>
    obtain ⟨channel, hother, ⟨hnone, hread, heq⟩ | ⟨event, hfind, heq⟩⟩ := awaitEvent_cases hu
    · rw [heq]
      refine h.read fun j us' hus' => ?_
      by_cases hj : j = i
      · subst hj
        cases hread.symm.trans hus'
        exact ⟨u, hu, fun _ he => absurd he List.not_mem_nil⟩
      · exact ⟨us', (hother j hj).symm.trans hus', fun _ he => he⟩
    · rw [heq]
      refine h.finish hcall (call.inProgress_of_awaiting hphase) hother ?_
      rintro _ ⟨⟩
      exact ⟨u, hu, List.mem_of_find?_eq_some hfind, List.find?_some hfind⟩

/-- What a poll of a call in progress does. -/
theorem poll_cases {i : Nat} {call : ClientCall} (hcall : s.calls[i]? = some call)
    (hprogress : call.InProgress) :
    (call.phase = .awaiting ∧ s.poll i = s.awaitEvent i call.accepts) ∨
    (call.phase = .waiting ∧ ((s.attempt call = (.error .parked, s.client) ∧ s.poll i = s) ∨
      (∃ x, x ≠ .parked ∧ s.attempt call = (.error x, s.client) ∧ s.poll i = s.finish i none) ∨
      ∃ client, s.attempt call = (.ok ⟨⟩, client) ∧
        s.poll i = ({ s with client }.requestAdded i).awaitEvent i call.accepts)) := by
  unfold poll
  rw [hcall]
  cases hphase : call.phase with
  | ended received => exact absurd hphase (hprogress received)
  | awaiting => exact .inl ⟨rfl, by simp only [hphase]⟩
  | waiting =>
    refine .inr ⟨rfl, ?_⟩
    simp only [hphase]
    rcases attempt_cases s call with ⟨x, h⟩ | ⟨sendPublish, sendRequest, pool, -, h⟩
    · cases x with
      | parked => exact .inl ⟨h, by rw [h]⟩
      | fail e => exact .inr (.inl ⟨.fail e, nofun, h, by rw [h]⟩)
      | panic => exact .inr (.inl ⟨.panic, nofun, h, by rw [h]⟩)
    · exact .inr (.inr ⟨_, h, by rw [h]⟩)

theorem Matched.poll (h : s.Matched events) {i : Nat} {call : ClientCall}
    (hcall : s.calls[i]? = some call) (hprogress : call.InProgress) :
    (s.poll i).Matched events := by
  rcases poll_cases hcall hprogress with ⟨hphase, heq⟩ |
    ⟨hphase, ⟨-, heq⟩ | ⟨x, -, -, heq⟩ | ⟨client, hattempt, heq⟩⟩
  · rw [heq]
    exact h.awaitEvent hcall hphase
  · rw [heq]
    exact h
  · rw [heq]
    exact h.finish hcall hprogress (fun _ _ => rfl) nofun
  · rw [heq]
    obtain ⟨hreported, hplaces⟩ := attempt_places hattempt
    have hawaited := (h.queued hcall hphase hreported hplaces).awaitEvent
      (calls_requestAdded (s := { s with client }) hcall) rfl
    exact hawaited

theorem Matched.drop (h : s.Matched events) (i : Nat) : (s.drop i).Matched events := by
  unfold Executor.drop
  cases hcall : s.calls[i]? with
  | none => exact h
  | some call =>
    cases hphase : call.phase with
    | ended received =>
      simp only [Option.map_some, hphase]
      exact h
    | waiting =>
      simp only [Option.map_some, hphase]
      exact h.finish hcall (call.inProgress_of_waiting hphase) (fun _ _ => rfl) nofun
    | awaiting =>
      simp only [Option.map_some, hphase]
      exact h.finish hcall (call.inProgress_of_awaiting hphase) (fun _ _ => rfl) nofun

end Executor

end EmbeddedMqttc
