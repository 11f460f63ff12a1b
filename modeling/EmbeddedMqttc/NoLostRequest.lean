import EmbeddedMqttc.EventLoopSpec
import EmbeddedMqttc.SentAll

/-!
# No request is overlooked

When the loop parks in `select3` it has sent what it could, and the mutex of `Publishes` keeps
clients from queueing a publish between its send phase and there. A request that is queued while the
loop is parked leaves a notification and wakes it.
-/

namespace EmbeddedMqttc

open Prog EmbeddedMqttc.Comp Run

variable {QUEUE BUFFER TOPIC : Nat}

namespace Client

/-- No request that is queued could be sent. -/
def NothingToSend (s : Client QUEUE BUFFER TOPIC) : Prop :=
  s.publishes.TargetsFull ∧ s.subscribes.sendRequest.toList = []

end Client

namespace Executor

/-- What has been established at a stage of `run_once`. -/
def Established (s : Executor QUEUE BUFFER TOPIC) : LoopStage → Prop
  | .sendReceives | .sendSubscribes => s.polling = true ∧ s.client.publishes.TargetsFull
  | .sendPing => s.polling = true ∧ s.client.NothingToSend
  | .select =>
    (s.client.NothingToSend ∨ s.onRequestAdded.notification.isSome = true) ∧
      (s.polling = false →
        if s.onRequestAdded.notification.isSome then s.woken = true
        else s.onRequestAdded.waker = true)
  | _ => True

/-- What a call that holds the mutex is about to return is still true. -/
def RequestsNoticed (s : Executor QUEUE BUFFER TOPIC) : Prop :=
  match s.loop with
  | .going stage => s.Established stage
  | .publishing _ _ locked =>
    locked = .sendPackets (.ok .sentAll) → s.client.publishes.TargetsFull

variable {s s' : Executor QUEUE BUFFER TOPIC}

theorem established_afterStop (x : Stop MqttError) : s.Established (.afterStop x) := by
  cases x with
  | fail e =>
    simp only [LoopStage.afterStop]
    split
    · trivial
    · trivial
  | panic => trivial
  | parked => trivial

theorem established_afterSend {stage : LoopStage} {result : Except (Stop MqttError) SendResult}
    (h : result = .ok .sentAll → s.Established stage) :
    s.Established (.afterSend stage result) := by
  rcases result with x | _ | _
  · exact established_afterStop x
  · trivial
  · exact h rfl

theorem established_afterProcess (result : Except (Stop MqttError) Unit) :
    s.Established (.afterProcess result) := by
  cases result with
  | ok _ => trivial
  | error x => exact established_afterStop x

theorem RequestsNoticed.hold {events : List MqttEvent} {locked : LockedCall}
    (h : locked = .sendPackets (.ok .sentAll) → s.client.publishes.TargetsFull) :
    (s.hold events locked).RequestsNoticed := by
  cases events with
  | cons event rest => exact h
  | nil =>
    cases locked with
    | sendPackets result =>
      refine established_afterSend fun hresult => ?_
      subst hresult
      exact ⟨rfl, h rfl⟩
    | processIncomingPacket result => exact established_afterProcess result

/-! ## Clients -/

/-- A notification is stored, and a loop that was parked has been woken. -/
theorem Established.notify (h : s.Established .select) (hsuspended : s.polling = false)
    (notification : RequestNotification) :
    (s.notify notification).onRequestAdded.notification.isSome = true ∧
      (s.notify notification).woken = true := by
  refine ⟨?_, ?_⟩
  · simp only [Executor.notify, RequestStateInner.notify]
    split <;> rfl
  · have hwoken := h.2 hsuspended
    split at hwoken
    · simp [Executor.notify, hwoken]
    · simp [Executor.notify, hwoken]

theorem RequestsNoticed.clientMove (h : s.RequestsNoticed) (hsuspended : s.polling = false)
    (hmove : ClientMove s s') : s'.RequestsNoticed := by
  unfold RequestsNoticed at h ⊢
  rw [hmove.loop]
  cases hloop : s.loop with
  | publishing event rest locked =>
    rw [hloop] at h
    cases hmove with
    | queue i hi hphase sendPublish sendRequest pool hlocked =>
      have hsame := hlocked (by rw [publishesLocked, hloop])
      subst hsame
      exact h
    | _ => exact h
  | going stage =>
    rw [hloop] at h
    have hpolling : s'.polling = false := hmove.polling.trans hsuspended
    cases stage with
    | sendReceives => exact absurd h.1 (by simp [hsuspended])
    | sendSubscribes => exact absurd h.1 (by simp [hsuspended])
    | sendPing => exact absurd h.1 (by simp [hsuspended])
    | select =>
      have hnotified (t : Executor QUEUE BUFFER TOPIC)
          (hrequest : t.onRequestAdded = (s.notify .newRequest).onRequestAdded ∨
            t.onRequestAdded = (s.notify .disconnect).onRequestAdded)
          (hwoken : t.woken = (s.woken || s.onRequestAdded.waker)) : t.Established .select := by
        obtain ⟨hsome, hw⟩ : t.onRequestAdded.notification.isSome = true ∧ t.woken = true := by
          rcases hrequest with hrequest | hrequest <;> rw [hrequest, hwoken]
          · exact Established.notify h hsuspended .newRequest
          · exact Established.notify h hsuspended .disconnect
        exact ⟨.inr hsome, fun _ => by rw [if_pos hsome]; exact hw⟩
      cases hmove with
      | queue i hi hphase sendPublish sendRequest pool hlocked => exact hnotified _ (.inl rfl) rfl
      | disconnect => exact hnotified _ (.inr rfl) rfl
      | pid pool => exact h
      | subscribe hevents hphase => exact h
      | read i hi hphase hother hu hnone hi' => exact h
      | finish i hi hphase hother received => exact h
    | _ => trivial

/-! ## The loop -/

/-- A send phase after that of `Publishes` leaves the publishes as they were. -/
theorem RequestsNoticed.sent {stage : LoopStage}
    {o : Except (Stop MqttError) SendResult × Client QUEUE BUFFER TOPIC}
    (h : o.1 = .ok .sentAll → ({ s with client := o.2 }.goTo stage).Established stage) :
    (s.sent stage o).RequestsNoticed := by
  obtain ⟨result, client⟩ := o
  rcases result with x | _ | _
  · exact established_afterStop x
  · trivial
  · exact h rfl

theorem RequestsNoticed.sendPublishes (answers : List (Except MqttError Bool))
    (ticks : List Duration) : (s.sendPublishes answers ticks).RequestsNoticed := by
  refine RequestsNoticed.hold fun hlocked => ?_
  rw [LockedCall.sendPackets.injEq] at hlocked
  exact PublishesInner.sendPackets_sentAll (exec_eq_of_fst hlocked)

theorem RequestsNoticed.emit (h : s.RequestsNoticed) (hstep : s.emit = some s') :
    s'.RequestsNoticed := by
  obtain ⟨event, rest, locked, hloop, ⟨-, rfl⟩ | ⟨events, -, rfl⟩⟩ := emit_cases hstep
  · unfold RequestsNoticed at h ⊢
    rw [hloop] at h
    rw [show ({ s with polling := false } : Executor QUEUE BUFFER TOPIC).loop = s.loop from rfl, hloop]
    exact h
  · refine RequestsNoticed.hold fun hlocked => ?_
    unfold RequestsNoticed at h
    rw [hloop] at h
    exact h hlocked

theorem RequestsNoticed.select (h : s.RequestsNoticed) (hloop : s.loop = .going .select)
    (ready : Ready) : (s.select ready).RequestsNoticed := by
  unfold RequestsNoticed at h
  rw [hloop] at h
  unfold Executor.select
  cases hnotification : s.onRequestAdded.notification with
  | some notification =>
    cases notification with
    | disconnect => simp only [RequestStateInner.pollNotification, hnotification]; trivial
    | newRequest => simp only [RequestStateInner.pollNotification, hnotification]; trivial
  | none =>
    simp only [RequestStateInner.pollNotification, hnotification]
    cases ready with
    | pending =>
      unfold RequestsNoticed
      simp only [hloop]
      refine ⟨.inl (h.1.resolve_right ?_), fun _ => ?_⟩
      · simp [hnotification]
      · simp
    | ping => trivial
    | io outcome =>
      cases outcome with
      | ok packet => trivial
      | error e => exact established_afterStop (.fail e)

theorem RequestsNoticed.process (packet : Packet) (ticks : List Duration) :
    (s.process packet ticks).RequestsNoticed := by
  rcases process_cases s packet ticks with ⟨client, events, result, h⟩ | ⟨client, result, h⟩ |
    ⟨-, client, event, result, h⟩ <;> rw [h]
  · exact RequestsNoticed.hold nofun
  · exact established_afterProcess result
  · exact established_afterProcess result

theorem RequestsNoticed.loopStep {topicPathCapacity : Nat} {l : LoopLabel} (h : s.RequestsNoticed)
    (hstep : s.loopStep topicPathCapacity l = some s') : s'.RequestsNoticed := by
  cases l with
  | connectFails e =>
    obtain ⟨-, rfl⟩ := whenAt_eq_some_iff.mp hstep
    exact established_afterStop (.fail e)
  | autoSubscribe =>
    obtain ⟨hloop, rfl⟩ := whenAt_eq_some_iff.mp hstep
    split
    · unfold RequestsNoticed
      simp only [hloop]
      trivial
    · exact established_afterStop _
  | autoSubscribed =>
    obtain ⟨hloop, rfl⟩ := whenAt_eq_some_iff.mp hstep
    unfold RequestsNoticed
    simp only [hloop]
    trivial
  | suspend =>
    simp only [Executor.loopStep] at hstep
    split at hstep
    · rename_i stage hloop
      split at hstep
      · rename_i hsuspends
        cases hstep
        unfold RequestsNoticed
        simp only [hloop]
        cases stage with
        | start => trivial
        | runIoNonblocking => trivial
        | process packet => trivial
        | _ => cases hsuspends
      · cases hstep
    · cases hstep
  | sendPublishes answers ticks =>
    obtain ⟨-, rfl⟩ := whenAt_eq_some_iff.mp hstep
    exact .sendPublishes answers ticks
  | emit => exact h.emit hstep
  | sendReceives answers =>
    obtain ⟨hloop, rfl⟩ := whenAt_eq_some_iff.mp hstep
    unfold RequestsNoticed at h
    rw [hloop] at h
    exact .sent fun _ => ⟨rfl, h.2⟩
  | sendSubscribes answers ticks =>
    obtain ⟨hloop, rfl⟩ := whenAt_eq_some_iff.mp hstep
    unfold RequestsNoticed at h
    rw [hloop] at h
    exact .sent fun hsent => ⟨rfl, h.2, SubsInner.send_sentAll (exec_eq_of_fst hsent)⟩
  | sendPing answers ticks =>
    obtain ⟨hloop, rfl⟩ := whenAt_eq_some_iff.mp hstep
    unfold RequestsNoticed at h
    rw [hloop] at h
    exact .sent fun _ => ⟨.inl h.2, fun hsuspended => by cases hsuspended⟩
  | runIoNonblocking outcome =>
    obtain ⟨-, rfl⟩ := whenAt_eq_some_iff.mp hstep
    split
    · trivial
    · trivial
    · exact established_afterStop _
  | select ready =>
    obtain ⟨hloop, rfl⟩ := whenAt_eq_some_iff.mp hstep
    exact h.select hloop ready
  | process ticks =>
    simp only [Executor.loopStep] at hstep
    split at hstep
    · cases hstep
      exact .process _ ticks
    · cases hstep

theorem RequestsNoticed.next {topicPathCapacity : Nat} {l : Label} (h : s.RequestsNoticed)
    (hstep : s.next topicPathCapacity l = some s') : s'.RequestsNoticed := by
  rcases next_cases hstep with ⟨-, -, -, rfl⟩ | ⟨-, hsuspended, rfl⟩ | ⟨m, rfl, -, hstep⟩ |
    ⟨m, rfl, hsuspended, rfl⟩
  · trivial
  · unfold RequestsNoticed at h ⊢
    dsimp only
    cases hloop : s.loop with
    | publishing event rest locked =>
      rw [hloop] at h
      exact h
    | going stage =>
      rw [hloop] at h
      cases stage with
      | sendReceives => exact ⟨rfl, h.2⟩
      | sendSubscribes => exact ⟨rfl, h.2⟩
      | sendPing => exact ⟨rfl, h.2⟩
      | select => exact ⟨h.1, nofun⟩
      | _ => trivial
  · exact h.loopStep hstep
  · let I : Executor QUEUE BUFFER TOPIC → Prop := fun s => s.RequestsNoticed ∧ s.polling = false
    have hmove (s s' : Executor QUEUE BUFFER TOPIC) (hmove : ClientMove s s') (hs : I s) : I s' :=
      ⟨hs.1.clientMove hs.2 hmove, hmove.polling.trans hs.2⟩
    exact (clientStep_invariant hmove ⟨h, hsuspended⟩ m).1

/-- Whenever the loop is parked in `select3`, no queued request could be sent, or a notification is
stored and the loop has been woken. -/
theorem no_lost_request {topicPathCapacity : Nat} {ls : List Label}
    (hrun : run (fun s l => s.next topicPathCapacity l) (new : Executor QUEUE BUFFER TOPIC) ls =
      some s)
    (hloop : s.loop = .going .select) (hsuspended : s.polling = false) :
    s.client.NothingToSend ∨
      (s.onRequestAdded.notification.isSome = true ∧ s.woken = true) := by
  have hnew : RequestsNoticed (new : Executor QUEUE BUFFER TOPIC) := trivial
  have hinv := Run.invariant (fun s l s' (hs : s.RequestsNoticed) hstep => hs.next hstep) hnew hrun
  unfold RequestsNoticed at hinv
  rw [hloop] at hinv
  rcases hinv.1 with hnothing | hsome
  · exact .inl hnothing
  · have hwoken := hinv.2 hsuspended
    rw [if_pos hsome] at hwoken
    exact .inr ⟨hsome, hwoken⟩

/-- The loop parks, and then a client subscribes. -/
def parkedThenSubscribed : List Label :=
  [.wake, .loop (.sendPublishes [] []), .loop (.sendReceives []), .loop (.sendSubscribes [] []),
    .loop (.sendPing [] []), .loop (.select .pending), .client (.subscribe [97] .atMostOnce 0)]

theorem no_lost_request_parkedThenSubscribed :
    ∃ s : Executor 4 16 16,
      run (fun s l => s.next 16 l) new parkedThenSubscribed = some s ∧
      (s.client.NothingToSend ∨
        (s.onRequestAdded.notification.isSome = true ∧ s.woken = true)) := by
  have hany : (run (fun s l => s.next 16 l) (new : Executor 4 16 16) parkedThenSubscribed).any
      (fun s => s.loop = .going .select ∧ s.polling = false) = true := by
    decide +kernel
  obtain ⟨s, hrun, hparked⟩ := (Option.any_eq_true _ _).mp hany
  obtain ⟨hloop, hsuspended⟩ := of_decide_eq_true hparked
  exact ⟨s, hrun, no_lost_request hrun hloop hsuspended⟩

end Executor

end EmbeddedMqttc
