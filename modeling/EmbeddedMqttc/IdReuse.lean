import EmbeddedMqttc.EventMatching

/-!
# Ids that are used again

The invariant of the executor needs that a call begins with an id that nobody has. The pool gives such
an id because only the calls that have returned free theirs, and their requests have had their
events.
-/

namespace EmbeddedMqttc

open Run

variable {QUEUE BUFFER TOPIC : Nat}

namespace Executor

variable {s s' : Executor QUEUE BUFFER TOPIC} {i j : Nat} {call : ClientCall}

/-! ## The call that a step changes -/

/-- Only the call `i` has changed. It has its id, and it has not gone on if it had returned. -/
def ChangesCall (i : Nat) (s s' : Executor QUEUE BUFFER TOPIC) : Prop :=
  ∃ f : ClientCall → ClientCall, s'.calls = s.calls.modify i f ∧
    ∀ call, s.calls[i]? = some call → (f call).uniqueId = call.uniqueId ∧
      (call.Returned → (f call).Returned)

theorem ChangesCall.refl (h : s'.calls = s.calls) : ChangesCall i s s' :=
  ⟨id, by rw [List.modify_id, h], fun _ _ => ⟨rfl, id⟩⟩

/-- The calls of `s` have become those of `s'` by a change of a call that had not returned. -/
theorem ChangesCall.of_progress {f : ClientCall → ClientCall} (hcall : s.calls[i]? = some call)
    (hopen : ¬call.Returned) (hf : (f call).uniqueId = call.uniqueId)
    (hcalls : s'.calls = s.calls.modify i f) : ChangesCall i s s' := by
  refine ⟨f, hcalls, fun other hother => ?_⟩
  cases hcall.symm.trans hother
  exact ⟨hf, fun hreturned => absurd hreturned hopen⟩

theorem finish_changesCall (hcall : s.calls[i]? = some call) (hopen : ¬call.Returned)
    (received : Option MqttEvent) : ChangesCall i s (s.finish i received) := by
  have hcalls : (s.finish i received).calls =
    s.calls.modify i fun call => { call with phase := .ended received } := rfl
  exact .of_progress hcall hopen rfl hcalls

theorem poll_changesCall (hcall : s.calls[i]? = some call) (hprogress : call.InProgress) :
    ChangesCall i s (s.poll i) := by
  have hopen := hprogress.not_returned
  have hawait {t : Executor QUEUE BUFFER TOPIC} {f : ClientCall → ClientCall}
      (ht : t.calls = s.calls.modify i f) (hf : (f call).uniqueId = call.uniqueId) :
      ChangesCall i s (t.awaitEvent i call.accepts) := by
    unfold awaitEvent
    split
    · exact .of_progress hcall hopen hf ht
    · rename_i event events hread
      have hcalls : ({ t with events }.finish i (some event)).calls =
          s.calls.modify i fun call => { f call with phase := .ended (some event) } := by
        change t.calls.modify i _ = _
        rw [ht]
        exact List.modify_modify_eq ..
      refine .of_progress hcall hopen ?_ hcalls
      exact hf
  rcases poll_cases hcall hprogress with ⟨-, heq⟩ |
    ⟨-, ⟨-, heq⟩ | ⟨x, -, -, heq⟩ | ⟨client, -, heq⟩⟩
  · rw [heq]
    exact hawait (f := id) (List.modify_id ..).symm rfl
  · rw [heq]
    exact .refl rfl
  · rw [heq]
    exact finish_changesCall hcall hopen none
  · rw [heq]
    have hcalls : ({ s with client }.requestAdded i).calls = s.calls.modify i fun call =>
      { call with phase := .awaiting, since := s.emitted.length } := rfl
    exact hawait hcalls rfl

theorem drop_changesCall : ChangesCall i s (s.drop i) := by
  unfold drop
  cases hcall : s.calls[i]? with
  | none => exact .refl rfl
  | some call =>
    cases hphase : call.phase with
    | ended received =>
      simp only [Option.map_some, hphase]
      exact .refl rfl
    | waiting =>
      simp only [Option.map_some, hphase]
      exact finish_changesCall hcall (call.inProgress_of_waiting hphase).not_returned none
    | awaiting =>
      simp only [Option.map_some, hphase]
      exact finish_changesCall hcall (call.inProgress_of_awaiting hphase).not_returned none

/-- A call that has not returned was there before, and it had not returned. -/
theorem ChangesCall.origin (h : ChangesCall i s s') {call' : ClientCall}
    (hcall' : s'.calls[j]? = some call') (hopen : ¬call'.Returned) :
    ∃ call, s.calls[j]? = some call ∧ call.uniqueId = call'.uniqueId ∧ ¬call.Returned := by
  obtain ⟨f, hcalls, hf⟩ := h
  rw [hcalls] at hcall'
  rcases getElem?_modify_calls hcall' with ⟨-, hold⟩ | ⟨rfl, old, hold, rfl⟩
  · exact ⟨call', hold, rfl, hopen⟩
  · obtain ⟨hid, hreturned⟩ := hf old hold
    exact ⟨old, hold, hid.symm, fun h => hopen (hreturned h)⟩

/-- The calls of clients leave the loop where it is. -/
theorem clientStep_pending (l : ClientLabel) : (s.clientStep l).pending = s.pending := by
  have hloop : (s.clientStep l).loop = s.loop := by
    refine clientStep_invariant (I := fun t => t.loop = s.loop) (fun t t' hmove ht => ?_) rfl l
    exact hmove.loop.trans ht
  rw [pending, pending, hloop]

theorem Matched.begun {events : List MqttEvent} (h : s.Matched events) {channel : EventChannel}
    (hsubscribe : s.events.subscribe s.calls.length = some channel) {id : Nat}
    (hfresh : ∀ (i : Nat) (other : ClientCall), s.calls[i]? = some other → ¬other.Returned →
      other.uniqueId.id ≠ id) (pool : PidPool PID_POOL_SIZE) (request : Request) :
    (s.begun pool channel request id).Matched events := by
  let t : Executor QUEUE BUFFER TOPIC :=
    { s with client := { s.client with env := { s.client.env with pool } } }
  have ht : t.Matched (events ++ []) :=
    h.settles (.of_eq rfl rfl rfl) (List.append_nil _).symm rfl rfl rfl
  rw [List.append_nil] at ht
  exact ht.subscribed hsubscribe rfl rfl hfresh

/-- What a step of the executor that is not a call keeps. -/
theorem Matched.step {topicPathCapacity : Nat} {l : Label} (h : s.Matched s.pending)
    (hl : ∀ m, l = .client m → (∃ i, m = .drop i) ∨ m = .disconnect)
    (hstep : s.next topicPathCapacity l = some s') :
    s'.Matched s'.pending ∧ ∃ i, ChangesCall i s s' := by
  rcases next_cases hstep with ⟨-, -, hloop, rfl⟩ | ⟨-, -, rfl⟩ | ⟨m, -, -, hstep⟩ | ⟨m, hm, -, rfl⟩
  · rw [pending_of_going hloop] at h
    exact ⟨h.congr rfl rfl rfl rfl, 0, .refl rfl⟩
  · exact ⟨h.congr rfl rfl rfl rfl, 0, .refl rfl⟩
  · exact ⟨h.loopStep hstep, 0, .refl (loopStep_calls hstep).1⟩
  · rw [clientStep_pending]
    obtain ⟨i, rfl⟩ | rfl := hl m hm
    · exact ⟨h.drop i, i, drop_changesCall⟩
    · exact ⟨h.congr rfl rfl rfl rfl, 0, .refl rfl⟩

end Executor

namespace MqttClients

variable {s s' : MqttClients QUEUE BUFFER TOPIC} {topicPathCapacity i id : Nat} {ids : UniqueIds}

/-- The ids of the calls that have not returned are in use, and not elsewhere. -/
structure Guarded (s : MqttClients QUEUE BUFFER TOPIC) : Prop where
  matched : s.executor.Matched s.executor.pending
  whole : s.ids.Whole
  held : ∀ (i : Nat) (call : ClientCall), s.executor.calls[i]? = some call → ¬call.Returned →
    call.uniqueId.id ∈ s.ids.inUse ∧ call.uniqueId.id ∉ s.elsewhere
  elsewhere : ∀ id ∈ s.elsewhere, id ∈ s.ids.inUse
  nodup : s.elsewhere.Nodup

theorem new_guarded : (new : MqttClients QUEUE BUFFER TOPIC).Guarded where
  matched := Executor.new_matched
  whole := UniqueIds.new_whole
  held _ _ h := nomatch h
  elsewhere := nofun
  nodup := List.nodup_nil

/-- A call has an id of its own until it returns. -/
theorem Guarded.fresh (h : s.Guarded) (htake : s.ids.take = some (id, ids)) :
    ids.Whole ∧ id ∉ s.elsewhere ∧ ids.inUse = id :: s.ids.inUse ∧
      ∀ (i : Nat) (other : ClientCall), s.executor.calls[i]? = some other → ¬other.Returned →
        other.uniqueId.id ≠ id := by
  obtain ⟨hwhole, hfresh, hinUse⟩ := h.whole.take htake
  refine ⟨hwhole, fun hmem => hfresh (h.elsewhere id hmem), hinUse, ?_⟩
  rintro i other hother hopen rfl
  exact hfresh (h.held i other hother hopen).1

/-- An id is taken and never used. -/
theorem Guarded.taken (h : s.Guarded) (htake : s.ids.take = some (id, ids)) :
    Guarded { s with ids } := by
  obtain ⟨hwhole, -, hinUse, -⟩ := h.fresh htake
  refine { h with whole := hwhole, held := ?_, elsewhere := ?_ }
  · intro i call hcall hopen
    obtain ⟨hheld, helsewhere⟩ := h.held i call hcall hopen
    exact ⟨by rw [hinUse]; exact List.mem_cons_of_mem _ hheld, helsewhere⟩
  · intro id' hid'
    rw [hinUse]
    exact List.mem_cons_of_mem _ (h.elsewhere id' hid')

theorem Guarded.begun (h : s.Guarded) (htake : s.ids.take = some (id, ids))
    {channel : EventChannel}
    (hsubscribe : s.executor.events.subscribe s.executor.calls.length = some channel)
    (pool : PidPool PID_POOL_SIZE) (request : Request) :
    Guarded { s with executor := s.executor.begun pool channel request id, ids } := by
  obtain ⟨hwhole, helsewhere, hinUse, hfresh⟩ := h.fresh htake
  have htaken := h.taken htake
  refine { htaken with matched := h.matched.begun hsubscribe hfresh pool request, held := ?_ }
  intro i call hcall hopen
  rcases Executor.getElem?_concat_calls hcall with ⟨-, hold⟩ | ⟨rfl, rfl⟩
  · exact htaken.held i call hold hopen
  · exact ⟨by rw [hinUse]; exact List.mem_cons_self, helsewhere⟩

/-- A step of the executor that gives no id to a call. -/
theorem Guarded.executor (h : s.Guarded) {executor : Executor QUEUE BUFFER TOPIC}
    (hmatched : executor.Matched executor.pending)
    (hchanges : Executor.ChangesCall i s.executor executor) : Guarded { s with executor } := by
  refine { h with matched := hmatched, held := ?_ }
  intro j call' hcall' hopen
  obtain ⟨call, hcall, hid, hopen⟩ := hchanges.origin hcall' hopen
  rw [← hid]
  exact h.held j call hcall hopen

/-- The id of a call that has just returned is no other call's. -/
theorem Guarded.freed (h : s.Guarded) {call : ClientCall}
    (hcall : s.executor.calls[i]? = some call) (hopen : ¬call.Returned)
    {executor : Executor QUEUE BUFFER TOPIC} (hmatched : executor.Matched executor.pending)
    (hchanges : Executor.ChangesCall i s.executor executor) {call' : ClientCall}
    (hcall' : executor.calls[i]? = some call') (hreturned : call'.Returned)
    (hid : call'.uniqueId = call.uniqueId)
    (hfree : s.ids.giveBack call'.uniqueId.id = some ids) : Guarded { s with executor, ids } := by
  have hstep := h.executor hmatched hchanges
  obtain ⟨hinUse, helsewhere⟩ := h.held i call hcall hopen
  rw [hid] at hfree
  obtain ⟨hwhole, herase⟩ := h.whole.giveBack hinUse hfree
  have hkept {id : Nat} (hne : id ≠ call.uniqueId.id) (hmem : id ∈ s.ids.inUse) :
      id ∈ ids.inUse := by
    rw [herase]
    exact (List.mem_erase_of_ne hne).mpr hmem
  refine { hstep with whole := hwhole, held := ?_, elsewhere := ?_ }
  · intro j other hother hopen'
    obtain ⟨hheld, hnot⟩ := hstep.held j other hother hopen'
    refine ⟨hkept (fun heq => ?_) hheld, hnot⟩
    obtain ⟨origin, horigin, hid', hopen''⟩ := hchanges.origin hother hopen'
    rw [← hid'] at heq
    have hsame := h.matched.distinct j i origin call horigin hcall hopen'' hopen heq
    subst hsame
    cases hother.symm.trans hcall'
    exact hopen' hreturned
  · intro id hid'
    exact hkept (fun heq => helsewhere (heq ▸ hid')) (h.elsewhere id hid')

theorem Guarded.poll (h : s.Guarded) {call : ClientCall}
    (hcall : s.executor.calls[i]? = some call) (hprogress : call.InProgress) :
    (settle { s with executor := s.executor.poll i } i).2.Guarded := by
  have hmatched : (s.executor.poll i).Matched (s.executor.poll i).pending := by
    have hpending : (s.executor.poll i).pending = s.executor.pending :=
      Executor.clientStep_pending (.poll i)
    rw [hpending]
    exact h.matched.poll hcall hprogress
  have hchanges := Executor.poll_changesCall hcall hprogress
  obtain ⟨f, hcalls, hf⟩ := id hchanges
  obtain ⟨hid, -⟩ := hf call hcall
  have hcall' : (s.executor.poll i).calls[i]? = some (f call) := by
    rw [hcalls, List.getElem?_modify_eq, hcall]
    rfl
  have hpolled := h.executor hmatched hchanges
  unfold settle
  simp only [hcall']
  cases hphase : (f call).phase with
  | waiting => exact hpolled
  | awaiting => exact hpolled
  | ended received =>
    cases received with
    | none => exact hpolled
    | some event =>
      dsimp only
      split
      · exact hpolled
      · rename_i ids hfree
        exact h.freed hcall hprogress.not_returned hmatched hchanges hcall' ⟨event, hphase⟩ hid hfree

theorem Guarded.start (h : s.Guarded) {l : Nat → Executor.ClientLabel}
    (hl : ∀ id channel, s.executor.events.subscribe s.executor.calls.length = some channel →
      s.executor.clientStep (l id) = s.executor ∨
        ∃ pool request, s.executor.clientStep (l id) =
          (s.executor.begun pool channel request id).poll s.executor.calls.length) :
    (s.start l).2.Guarded := by
  rcases s.start_cases l with ⟨-, heq⟩ | ⟨id, ids, htake, ⟨-, heq⟩ | ⟨channel, hsubscribe, heq⟩⟩
  · rw [heq]
    exact h
  · rw [heq]
    exact h.taken htake
  · rw [heq]
    rcases hl id channel hsubscribe with hstay | ⟨pool, request, hbegun⟩
    · -- the call has panicked before it was made
      have hnone : s.executor.calls[s.executor.calls.length]? = none :=
        List.getElem?_eq_none (Nat.le_refl _)
      rw [hstay, settle, hnone]
      exact h.taken htake
    · rw [hbegun]
      exact (h.begun htake hsubscribe pool request).poll (List.getElem?_concat_length ..)
        (ClientCall.inProgress_of_waiting rfl)

theorem Guarded.call (h : s.Guarded) (l : CallLabel) : (s.call l).2.Guarded := by
  cases l with
  | publish topic payload qos retain =>
    refine h.start fun id channel hsubscribe => ?_
    rcases Executor.publish_begun hsubscribe topic payload qos retain id with
      ⟨-, -, heq⟩ | ⟨message, pool, -, -, -, heq⟩
    · exact .inl heq
    · exact .inr ⟨pool, _, heq⟩
  | subscribe topic qos =>
    exact h.start fun id channel hsubscribe =>
      .inr ⟨_, _, Executor.newCall_begun hsubscribe (.subscribe topic qos) id⟩
  | unsubscribe topic =>
    exact h.start fun id channel hsubscribe =>
      .inr ⟨_, _, Executor.newCall_begun hsubscribe (.unsubscribe topic) id⟩
  | poll i =>
    simp only [MqttClients.call]
    cases hcall : s.executor.calls[i]? with
    | none => exact h
    | some call =>
      cases hphase : call.phase with
      | ended received =>
        simp only [Option.map_some, hphase]
        exact h
      | waiting =>
        simp only [Option.map_some, hphase]
        exact h.poll hcall (call.inProgress_of_waiting hphase)
      | awaiting =>
        simp only [Option.map_some, hphase]
        exact h.poll hcall (call.inProgress_of_awaiting hphase)

theorem Guarded.onExecutor (h : s.Guarded) {l : Executor.Label}
    (hl : ∀ m, l = .client m → (∃ i, m = .drop i) ∨ m = .disconnect)
    (hstep : s.onExecutor topicPathCapacity l = some s') : s'.Guarded := by
  obtain ⟨executor, hnext, rfl⟩ := Option.map_eq_some_iff.mp hstep
  obtain ⟨hmatched, i, hchanges⟩ := h.matched.step hl hnext
  exact h.executor hmatched hchanges

theorem Guarded.next {l : Label} (h : s.Guarded) (hstep : s.next topicPathCapacity l = some s') :
    s'.Guarded := by
  cases l with
  | call l =>
    simp only [MqttClients.next] at hstep
    split at hstep
    · cases hstep
    · cases hstep
      exact h.call l
  | drop i => exact h.onExecutor (fun m hm => .inl ⟨i, (Executor.Label.client.inj hm).symm⟩) hstep
  | disconnect => exact h.onExecutor (fun m hm => .inr (Executor.Label.client.inj hm).symm) hstep
  | run | wake | loop =>
    refine h.onExecutor ?_ hstep
    intro m hm
    cases hm
  | takeElsewhere =>
    obtain ⟨⟨id, ids⟩, htake, rfl⟩ := Option.map_eq_some_iff.mp hstep
    obtain ⟨-, helsewhere, hinUse, hfresh⟩ := h.fresh htake
    have htaken := h.taken htake
    refine { htaken with held := ?_, elsewhere := ?_, nodup := ?_ }
    · intro i call hcall hopen
      obtain ⟨hheld, hnot⟩ := htaken.held i call hcall hopen
      exact ⟨hheld, fun hmem => (List.mem_cons.mp hmem).elim (hfresh i call hcall hopen) hnot⟩
    · intro id' hid'
      rcases List.mem_cons.mp hid' with rfl | hid'
      · dsimp only
        rw [hinUse]
        exact List.mem_cons_self
      · exact htaken.elsewhere id' hid'
    · exact List.nodup_cons.mpr ⟨helsewhere, h.nodup⟩
  | freeElsewhere id =>
    simp only [MqttClients.next] at hstep
    split at hstep
    · rename_i hid
      obtain ⟨ids, hfree, rfl⟩ := Option.map_eq_some_iff.mp hstep
      obtain ⟨hwhole, herase⟩ := h.whole.giveBack (h.elsewhere id hid) hfree
      refine { h with whole := hwhole, held := ?_, elsewhere := ?_, nodup := h.nodup.erase id }
      · intro i call hcall hopen
        obtain ⟨hheld, hnot⟩ := h.held i call hcall hopen
        have hne : call.uniqueId.id ≠ id := fun heq => hnot (heq ▸ hid)
        refine ⟨?_, fun hmem => hnot (List.mem_of_mem_erase hmem)⟩
        rw [herase]
        exact (List.mem_erase_of_ne hne).mpr hheld
      · intro id' hid'
        obtain ⟨hne, hmem⟩ := h.nodup.mem_erase_iff.mp hid'
        dsimp only
        rw [herase]
        exact (List.mem_erase_of_ne hne).mpr (h.elsewhere id' hmem)
    · cases hstep

theorem guarded_of_run {ls : List Label}
    (hrun : run (fun s l => s.next topicPathCapacity l) new ls = some s) : s.Guarded := by
  have hstep : ∀ (s : MqttClients QUEUE BUFFER TOPIC) l s', s.Guarded →
      s.next topicPathCapacity l = some s' → s'.Guarded := fun _ _ _ h hstep => h.next hstep
  exact invariant (I := Guarded) hstep new_guarded hrun

/-- In every run each request emits at most one completion event, and a call that has received an
event has received the one of its own request, whoever else had its id before or has it now. -/
theorem own_event_received {ls : List Label}
    (hrun : run (fun s l => s.next topicPathCapacity l) new ls = some s) :
    (s.executor.emitted.map (·.uniqueId.request)).Nodup ∧
      ∀ (i : Nat) (call : ClientCall) (event : MqttEvent), s.executor.calls[i]? = some call →
        call.phase = .ended (some event) →
        event ∈ s.executor.emitted ∧ event.uniqueId = call.uniqueId ∧ event.uniqueId.request = i := by
  have h := (guarded_of_run hrun).matched
  refine ⟨h.emitted_nodup, fun i call event hcall hphase => ?_⟩
  obtain ⟨heq, hmem⟩ := h.received i call event hcall hphase
  exact ⟨hmem, heq, by rw [heq]; exact h.numbered i call hcall⟩

/-! ### Two calls with the same id -/

/-- A publish of QoS 0 is called, and the loop sends it and waits again. -/
def sentPublish : List Label :=
  [.call (.publish [97] [] .atMostOnce false), .wake, .loop (.sendPublishes [.ok true] []),
    .loop .emit, .loop (.sendReceives []), .loop (.sendSubscribes [] []), .loop (.sendPing [] []),
    .loop (.select .pending), .loop .suspend]

/-- The second call begins after the first one has returned. -/
def reusedRun : List Label := sentPublish ++ [.call (.poll 0)] ++ sentPublish ++ [.call (.poll 1)]

theorem own_event_received_on_reusedRun :
    ∃ s : MqttClients 4 16 16, run (fun s l => s.next 16 l) new reusedRun = some s ∧
      ∃ call event, s.executor.calls[1]? = some call ∧ call.uniqueId.id = 0 ∧
        s.executor.emitted.map (·.uniqueId.id) = [0, 0] ∧ call.phase = .ended (some event) ∧
        event.uniqueId.request = 1 := by
  have hany : (run (fun s l => s.next 16 l) (new : MqttClients 4 16 16) reusedRun).any
      (fun s => (s.executor.calls[1]?).any fun call => call.uniqueId.id = 0 ∧
        s.executor.emitted.map (·.uniqueId.id) = [0, 0] ∧
        call.phase = .ended (some (.publishDone ⟨0, 1⟩))) = true := by
    decide +kernel
  obtain ⟨s, hrun, hcall⟩ := (Option.any_eq_true _ _).mp hany
  obtain ⟨call, hi, hcall⟩ := (Option.any_eq_true _ _).mp hcall
  obtain ⟨hid, hemitted, hphase⟩ := of_decide_eq_true hcall
  have hcredits := ((own_event_received hrun).2 1 call _ hi hphase).2.2
  exact ⟨s, hrun, call, _, hi, hid, hemitted, hphase, hcredits⟩

end MqttClients

end EmbeddedMqttc
