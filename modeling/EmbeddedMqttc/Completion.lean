import EmbeddedMqttc.EventLoopSpec

/-!
# Completion events and the calls that wait for them

`Publishes` waits for room in the event channel and loses nothing. `Subs` does not wait: on a full
channel its event takes the place of the oldest one, which may be the completion of a call that has
not been polled since.
-/

namespace EmbeddedMqttc

open Run

variable {QUEUE BUFFER TOPIC : Nat}

namespace Executor

variable (s : Executor QUEUE BUFFER TOPIC)

/-- The oldest event in the channel completes a call that has not read it. -/
def oldestIsAwaited : Bool :=
  s.events.keepers.any fun i => (s.calls[i]?).any fun call =>
    call.phase = .awaiting && s.events.queue.head?.any call.accepts

/-- When a SUBACK or UNSUBACK that is waited for is processed while the channel is full, the oldest
event in it is not a completion that is still to be read. -/
def KeepsCompletions (l : Label) : Prop :=
  match l, s.loop with
  | .loop (.process _), .going (.process packet) =>
    s.client.subscribes.isAnsweredBy packet = true → s.events.isFull = true →
      s.oldestIsAwaited = false
  | _, _ => True

instance (l : Label) : Decidable (s.KeepsCompletions l) := by
  unfold KeepsCompletions
  split <;> infer_instance

variable {s} {s' : Executor QUEUE BUFFER TOPIC}

/-- A call in progress is a subscriber, and when it waits for its completion it has still to read
all completions that were put in the channel since its request was queued. -/
def CompletionsKept (s : Executor QUEUE BUFFER TOPIC) : Prop :=
  ∀ i call, s.calls[i]? = some call → call.InProgress →
    ∃ u, s.events.unread i = some u ∧ (call.phase = .awaiting →
      ∀ event ∈ s.emitted.drop call.since, call.accepts event = true → event ∈ u)

theorem CompletionsKept.clientMove (h : s.CompletionsKept) (hmove : ClientMove s s') :
    s'.CompletionsKept := by
  intro j call hj hprogress
  cases hmove with
  | pid pool => exact h j call hj hprogress
  | disconnect => exact h j call hj hprogress
  | subscribe hevents hphase =>
    dsimp only
    rw [PubSubChannel.unread_subscribe hevents]
    rcases getElem?_concat_calls hj with ⟨hne, hj⟩ | ⟨rfl, rfl⟩
    · rw [if_neg hne]
      exact h j call hj hprogress
    · rw [if_pos rfl]
      exact ⟨[], rfl, fun hawaiting => nomatch hphase.symm.trans hawaiting⟩
  | queue i hi hphase sendPublish sendRequest pool hlocked =>
    rcases getElem?_modify_calls hj with ⟨-, hj⟩ | ⟨rfl, old, hold, rfl⟩
    · exact h j call hj hprogress
    · cases hi.symm.trans hold
      obtain ⟨u, hu, -⟩ := h j _ hi (ClientCall.inProgress_of_waiting hphase)
      refine ⟨u, hu, fun _ event hevent => ?_⟩
      have hnil : event ∈ s.emitted.drop s.emitted.length := hevent
      rw [List.drop_length] at hnil
      cases hnil
  | read i hi hphase hother hu hnone hi' =>
    by_cases hij : j = i
    · subst hij
      cases hi.symm.trans hj
      obtain ⟨u, hu', hkept⟩ := h j call hi hprogress
      cases hu.symm.trans hu'
      refine ⟨[], hi', fun hawaiting event hevent haccepts => ?_⟩
      have hmem := hkept hawaiting event hevent haccepts
      cases haccepts.symm.trans (hnone event hmem)
    · dsimp only
      rw [hother j hij]
      exact h j call hj hprogress
  | finish i hi hphase hother received =>
    rcases getElem?_modify_calls hj with ⟨hne, hj⟩ | ⟨-, old, -, rfl⟩
    · dsimp only [finish]
      rw [PubSubChannel.unread_unsubscribe, if_neg hne, hother j hne]
      exact h j call hj hprogress
    · exact absurd rfl (hprogress received)

theorem CompletionsKept.emits {l : LoopLabel} (h : s.CompletionsKept)
    (hl : s.KeepsCompletions (.loop l)) (hcalls : s'.calls = s.calls) (hemits : Emits s s' l) :
    s'.CompletionsKept := by
  intro i call hi hprogress
  rw [hcalls] at hi
  obtain ⟨u, hu, hkept⟩ := h i call hi hprogress
  cases hemits with
  | nothing hevents hemitted =>
    rw [hevents, hemitted]
    exact ⟨u, hu, hkept⟩
  | publish event hevents hemitted =>
    refine ⟨u ++ [event], by rw [PubSubChannel.unread_publish hevents, hu]; rfl, ?_⟩
    intro hawaiting event' hevent haccepts
    rw [hemitted, List.drop_append] at hevent
    rcases List.mem_append.mp hevent with hevent | hevent
    · exact List.mem_append_left _ (hkept hawaiting event' hevent haccepts)
    · exact List.mem_append_right _ (List.mem_of_mem_drop hevent)
  | immediate hloop hanswered event hevents hemitted =>
    refine ⟨(if u.length = 8 then u.tail else u) ++ [event], ?_, ?_⟩
    · rw [hevents, PubSubChannel.unread_publishImmediate (by decide), hu]
      rfl
    intro hawaiting event' hevent haccepts
    rw [hemitted, List.drop_append] at hevent
    rcases List.mem_append.mp hevent with hevent | hevent
    · have hmem := hkept hawaiting event' hevent haccepts
      refine List.mem_append_left _ ?_
      split
      · rename_i hlen
        -- The oldest event is dropped, and it is not a completion that this call waits for.
        obtain ⟨hfull, rfl⟩ := PubSubChannel.unread_eq_queue hu hlen
        simp only [KeepsCompletions, hloop] at hl
        have holdest := hl hanswered hfull
        simp only [oldestIsAwaited, List.any_eq_false] at holdest
        have hnot := holdest i (PubSubChannel.mem_keepers_iff.mpr hu)
        cases hqueue : s.events.queue with
        | nil =>
          rw [hqueue] at hmem
          exact hmem
        | cons oldest rest =>
          rw [hqueue] at hmem
          simp only [hi, hawaiting, hqueue, List.head?_cons, Option.any_some, decide_true,
            Bool.true_and] at hnot
          rcases List.mem_cons.mp hmem with rfl | hmem
          · exact absurd haccepts hnot
          · exact hmem
      · exact hmem
    · exact List.mem_append_right _ (List.mem_of_mem_drop hevent)

theorem CompletionsKept.next {topicPathCapacity : Nat} {l : Label} (h : s.CompletionsKept)
    (hl : s.KeepsCompletions l) (hstep : s.next topicPathCapacity l = some s') :
    s'.CompletionsKept := by
  rcases next_cases hstep with ⟨-, -, -, rfl⟩ | ⟨-, -, rfl⟩ | ⟨m, rfl, -, hstep⟩ | ⟨m, rfl, -, rfl⟩
  · exact h
  · exact h
  · obtain ⟨hcalls, hemits⟩ := loopStep_calls hstep
    exact h.emits hl hcalls hemits
  · exact clientStep_invariant (fun _ _ hmove hs => hs.clientMove hmove) h m

/-- A call that has its completion to read ends with it when it is polled. -/
theorem poll_of_unread {i : Nat} {call : ClientCall} {u : List MqttEvent} {event : MqttEvent}
    (hi : s.calls[i]? = some call) (hphase : call.phase = .awaiting)
    (hu : s.events.unread i = some u) (hevent : event ∈ u) (haccepts : call.accepts event = true) :
    ∃ received ∈ u, call.accepts received = true ∧
      ((s.poll i).calls[i]?).map ClientCall.phase = some (.ended (some received)) := by
  have hpoll : s.poll i = s.awaitEvent i call.accepts := by simp only [poll, hi, hphase]
  obtain ⟨events, -, ⟨hnone, -, -⟩ | ⟨received, hfind, h⟩⟩ := awaitEvent_cases (s := s) hu
  · exact absurd haccepts (List.find?_eq_none.mp hnone event hevent)
  · refine ⟨received, List.mem_of_find?_eq_some hfind, List.find?_some hfind, ?_⟩
    rw [hpoll, h]
    simp [finish, hi]

/-- A completion that is put in the channel for a call that waits for it stays there until the call
is polled, and then the call receives it, in every run in which no SUBACK or UNSUBACK is processed
while the channel is full and its oldest event is a completion that is still to be read. -/
theorem completion_received {topicPathCapacity : Nat} {ls : List Label}
    (hkeeps : AllSteps (fun s l => s.next topicPathCapacity l) KeepsCompletions
      (new : Executor QUEUE BUFFER TOPIC) ls)
    (hrun : run (fun s l => s.next topicPathCapacity l) new ls = some s) {i : Nat}
    {call : ClientCall} (hi : s.calls[i]? = some call) (hphase : call.phase = .awaiting)
    {event : MqttEvent} (hevent : event ∈ s.emitted.drop call.since)
    (haccepts : call.accepts event = true) :
    ∃ u, s.events.unread i = some u ∧ event ∈ u ∧ ∃ received ∈ u, call.accepts received = true ∧
      ((s.poll i).calls[i]?).map ClientCall.phase = some (.ended (some received)) := by
  have hnew : CompletionsKept (new : Executor QUEUE BUFFER TOPIC) := fun _ _ hi => nomatch hi
  have hinv := hkeeps.invariant (fun s l s' hs hl hstep => hs.next hl hstep) hnew hrun
  obtain ⟨u, hu, hkept⟩ := hinv i call hi (ClientCall.inProgress_of_awaiting hphase)
  have hmem := hkept hphase event hevent haccepts
  exact ⟨u, hu, hmem, poll_of_unread hi hphase hu hmem haccepts⟩

/-! ## A completion that is lost -/

/-- The send phases after that of `Publishes`. -/
def laterPhases (answers : List (Except MqttError Bool)) : List LoopLabel :=
  [.sendReceives [], .sendSubscribes answers [], .sendPing [] []]

/-- The broker acknowledges a request, and the loop goes on to its next `select3`. -/
def acknowledged (pid : Pid) : List LoopLabel :=
  [.select (.io (.ok (.suback ⟨pid, []⟩))), .process [], .sendPublishes [] []] ++ laterPhases []

/-- The loop sends a publish of QoS 0 and eight requests, and then the SUBACKs with the pids
arrive. -/
def sentAndAcknowledged (pids : List Pid) : List LoopLabel :=
  [.sendPublishes [.ok true] [], .emit] ++ laterPhases (List.replicate 8 (.ok true)) ++
    [.select .pending, .sendPublishes [] []] ++ laterPhases [] ++ pids.flatMap acknowledged

/-- Eight calls subscribe and a ninth publishes. All the rest is one poll of the loop. -/
def acknowledgedAtOnce (n : Nat) : List Label :=
  (List.range 8).map (fun id => .client (.subscribe [97] .atMostOnce id)) ++
    [.client (.publish [97] [] .atMostOnce false 8), .wake] ++
    (sentAndAcknowledged ((List.range n).filterMap fun k => Pid.ofNat? (k + 1))).map .loop

theorem completion_received_acknowledgedAtOnce :
    ∃ s : Executor 8 16 16,
      run (fun s l => s.next 16 l) new (acknowledgedAtOnce 7) = some s ∧
      ∃ u, s.events.unread 8 = some u ∧ .publishDone ⟨8, 8⟩ ∈ u := by
  have hany : (run (fun s l => s.next 16 l) (new : Executor 8 16 16) (acknowledgedAtOnce 7)).any
      (fun s => (s.calls[8]?).any fun call => call.phase = .awaiting ∧
        call.accepts (.publishDone ⟨8, 8⟩) = true ∧
        .publishDone ⟨8, 8⟩ ∈ s.emitted.drop call.since) = true := by
    decide +kernel
  obtain ⟨s, hrun, hcall⟩ := (Option.any_eq_true _ _).mp hany
  obtain ⟨call, hi, hcall⟩ := (Option.any_eq_true _ _).mp hcall
  obtain ⟨hphase, haccepts, hevent⟩ := of_decide_eq_true hcall
  obtain ⟨u, hu, hmem, -⟩ :=
    completion_received (by decide +kernel) hrun hi hphase hevent haccepts
  exact ⟨s, hrun, u, hu, hmem⟩

/-- With the eighth SUBACK the channel is full, and the completion of the publish is dropped before
its call is polled: the call goes on waiting. -/
theorem acknowledgedAtOnce_loses_completion :
    ∃ s : Executor 8 16 16,
      run (fun s l => s.next 16 l) new (acknowledgedAtOnce 8) = some s ∧
      ∃ call u, s.calls[8]? = some call ∧ call.phase = .awaiting ∧
        .publishDone ⟨8, 8⟩ ∈ s.emitted.drop call.since ∧
        call.accepts (.publishDone ⟨8, 8⟩) = true ∧
        s.events.unread 8 = some u ∧ .publishDone ⟨8, 8⟩ ∉ u ∧
        ((s.poll 8).calls[8]?).map ClientCall.phase = some .awaiting := by
  have hany : (run (fun s l => s.next 16 l) (new : Executor 8 16 16) (acknowledgedAtOnce 8)).any
      (fun s => (s.calls[8]?).any fun call => (s.events.unread 8).any fun u =>
        call.phase = .awaiting ∧ .publishDone ⟨8, 8⟩ ∈ s.emitted.drop call.since ∧
        call.accepts (.publishDone ⟨8, 8⟩) = true ∧ .publishDone ⟨8, 8⟩ ∉ u ∧
        ((s.poll 8).calls[8]?).map ClientCall.phase = some .awaiting) = true := by
    decide +kernel
  obtain ⟨s, hrun, hcall⟩ := (Option.any_eq_true _ _).mp hany
  obtain ⟨call, hi, hu⟩ := (Option.any_eq_true _ _).mp hcall
  obtain ⟨u, hu, hlost⟩ := (Option.any_eq_true _ _).mp hu
  obtain ⟨hphase, hevent, haccepts, hnot, hpoll⟩ := of_decide_eq_true hlost
  exact ⟨s, hrun, call, u, hi, hphase, hevent, haccepts, hu, hnot, hpoll⟩

end Executor

end EmbeddedMqttc
