import EmbeddedMqttc.ConformingBroker
import EmbeddedMqttc.EventMatching

/-!
# The keep alive promise

`CONNECT` promises a packet every `KEEP_ALIVE` seconds. The loop keeps the promise with the timer of
`ping_pause`, which is put next to the executor here: it is set when `run_once` comes to `select3`,
and the loop goes on when it has ended, when a packet arrives or when there is a notification.

Time is not under the control of the loop. `Regular` is what is asked for: the loop is never late by
more than `L` when the timer has ended, nor busy for longer than `L` before it sleeps again, and a
PINGRESP is processed within `D` of the PINGREQ that was written last.
-/

namespace EmbeddedMqttc

open Prog Run

variable {QUEUE BUFFER TOPIC : Nat}

/-! ## What the loop does with the ping state -/

namespace Client

variable {s : Client QUEUE BUFFER TOPIC} {topicPathCapacity : Nat}

/-- Whether a step reads or writes the ping state. -/
def Label.isPing : Label → Bool
  | .sendPing .. | .receive .pingresp => true
  | _ => false

theorem callPing_of_exec {α : Type} {m : Comp PingStateInner α} {r : Except (Stop MqttError) α}
    {c : Ctx PingStateInner} (h : m.exec ⟨s.ping, s.env⟩ = (r, c)) :
    s.callPing m = (r, { s with ping := c.inner, env := c.env }) := by
  rw [callPing, h]

theorem outcome_ping {l : Label} (hl : l.isPing = false) :
    (s.outcome topicPathCapacity l).2.ping = s.ping := by
  by_cases hrequest : l.isRequest = true
  · obtain ⟨sendPublish, sendRequest, pool, waiting, autoSubscribe, issued, h⟩ :=
      s.outcome_request topicPathCapacity hrequest
    rw [h]
  · cases l with
    | sendPing answers ticks => cases hl
    | receive packet =>
      cases packet with
      | pingresp => cases hl
      | _ => rfl
    | sendPublishes | sendReceives | sendSubscribes | wait => rfl
    | _ => exact absurd rfl hrequest

end Client

namespace LoopStage

theorem afterStop_ne_select (x : Stop MqttError) : afterStop x ≠ select := by
  cases x with
  | fail e => simp only [afterStop]; split <;> simp
  | panic | parked => simp [afterStop]

theorem afterSend_ne_select {stage : LoopStage} (hstage : stage ≠ select)
    (result : Except (Stop MqttError) SendResult) : afterSend stage result ≠ select := by
  rcases result with x | _ | _
  · exact afterStop_ne_select x
  · simp [afterSend]
  · exact hstage

theorem afterProcess_ne_select (result : Except (Stop MqttError) Unit) :
    afterProcess result ≠ select := by
  cases result with
  | error x => exact afterStop_ne_select x
  | ok => simp [afterProcess]

end LoopStage

theorem LockedCall.next_ne_select (call : LockedCall) : call.next ≠ .select := by
  cases call with
  | sendPackets result => exact LoopStage.afterSend_ne_select (by simp) result
  | processIncomingPacket result => exact LoopStage.afterProcess_ne_select result

namespace Executor

variable {s s' : Executor QUEUE BUFFER TOPIC} {topicPathCapacity : Nat} {l : Label}

/-- The label of the ping phase. -/
def Label.isSendPing : Label → Bool
  | .loop (.sendPing ..) => true
  | _ => false

/-- A step that leaves the ping state: it does not turn the clock back, and the loop does not come to
`select3`. -/
structure Passes (s : Executor QUEUE BUFFER TOPIC) (l : Label) (s' : Executor QUEUE BUFFER TOPIC) :
    Prop where
  ping : s'.client.ping = s.client.ping
  now : s.client.env.now ≤ s'.client.env.now
  select : s'.loop = .going .select → s.loop = .going .select
  written : l.isSendPing = true → s'.client.env.written = s.client.env.written

/-- What a step is for the pings. -/
inductive PingStep (s : Executor QUEUE BUFFER TOPIC) (l : Label) (s' : Executor QUEUE BUFFER TOPIC) :
    Prop
  | passes (h : Passes s l s')
  | notDue (hloop : s.loop = .going .sendPing) (hping : s'.client.ping = s.client.ping)
      (hnow : s.client.env.now ≤ s'.client.env.now)
      (hdue : ¬s.client.ping.Overdue s'.client.env.now)
      (hwritten : s'.client.env.written = s.client.env.written)
  | request (hl : l.isSendPing = true) (hloop : s.loop = .going .sendPing)
      (hping : s'.client.ping = .awaitingResponse s.client.ping.lastSuccess s'.client.env.now)
      (hnow : s.client.env.now ≤ s'.client.env.now) (hdue : s.client.ping.Overdue s'.client.env.now)
      (hwritten : s'.client.env.written = s.client.env.written ++ [⟨.pingreq, none⟩])
  | response (hl : l.isSendPing = false) (hloop : s.loop = .going (.process .pingresp))
      (hping : s'.client.ping = .pingSuccess s'.client.env.now)
      (hnow : s.client.env.now ≤ s'.client.env.now) (hselect : s'.loop ≠ .going .select)

theorem Passes.of_client (hclient : s'.client = s.client)
    (hselect : s'.loop = .going .select → s.loop = .going .select) : Passes s l s' where
  ping := congrArg Client.ping hclient
  now := Nat.le_of_eq (congrArg (·.env.now) hclient.symm)
  select := hselect
  written _ := congrArg (·.env.written) hclient

variable (topicPathCapacity) in
theorem Passes.of_outcome (answers : List (Except MqttError Bool)) (ticks : List Duration)
    {m : Client.Label} (hm : m.isPing = false) (hl : l.isSendPing = false)
    (hclient : s'.client = ((s.client.scripted answers ticks).outcome topicPathCapacity m).2)
    (hselect : s'.loop = .going .select → s.loop = .going .select) : Passes s l s' := by
  refine ⟨by rw [hclient, Client.outcome_ping hm]; rfl, ?_, hselect, fun h => ?_⟩
  · have hnow := @Client.now_le_outcome _ _ _ (s.client.scripted answers ticks)
      topicPathCapacity m
    rwa [hclient]
  · rw [hl] at h
    cases h

theorem hold_select {events : List MqttEvent} {call : LockedCall}
    (h : (s.hold events call).loop = .going .select) : False := by
  cases events with
  | nil => exact call.next_ne_select (Loop.going.inj h)
  | cons event events => cases h

theorem clientStep_passes (m : ClientLabel) : Passes s (.client m) (s.clientStep m) := by
  refine clientStep_invariant (I := Passes s (.client m)) (fun t t' hmove ht => ?_)
    (.of_client rfl id) m
  have hselect (h : t'.loop = .going .select) : s.loop = .going .select :=
    ht.select (hmove.loop.symm.trans h)
  cases hmove with
  | _ => exact ⟨ht.ping, ht.now, hselect, nofun⟩

theorem foldl_publishImmediate_client (events : List MqttEvent) (s : Executor QUEUE BUFFER TOPIC) :
    (events.foldl publishImmediate s).client = s.client := by
  induction events generalizing s with
  | nil => rfl
  | cons event events ih => exact ih _

theorem process_client (packet : Packet) (ticks : List Duration) :
    (s.process packet ticks).client =
      ((s.client.scripted [] ticks).outcome topicPathCapacity (.receive packet)).2 := by
  cases packet with
  | puback pid | pubrec pid | pubcomp pid => exact hold_client
  | _ => exact foldl_publishImmediate_client ..

theorem process_select {packet : Packet} {ticks : List Duration}
    (h : (s.process packet ticks).loop = .going .select) : False := by
  rcases process_cases s packet ticks with ⟨client, events, result, hprocess⟩ |
    ⟨client, result, hprocess⟩ | ⟨-, client, event, result, hprocess⟩ <;> rw [hprocess] at h
  · exact hold_select h
  · exact LoopStage.afterProcess_ne_select result (Loop.going.inj h)
  · exact LoopStage.afterProcess_ne_select result (Loop.going.inj h)

/-- The ping phase: a PINGREQ is not due, or it is accepted, refused or fails. -/
theorem sendPing_pingStep (answers : List (Except MqttError Bool)) (ticks : List Duration)
    (hloop : s.loop = .going .sendPing) :
    PingStep s (.loop (.sendPing answers ticks))
      (s.sent .select ((s.client.scripted answers ticks).callPing PingStateInner.send)) := by
  let c : Ctx PingStateInner := ⟨s.client.ping, (s.client.scripted answers ticks).env⟩
  have hnow : s.client.env.now ≤ c.env.read.now := c.env.now_le_read
  rcases PingStateInner.send_cases c with ⟨hdue, h⟩ | ⟨hdue, h | h | ⟨e, h⟩⟩ <;>
    rw [Client.callPing_of_exec (s := s.client.scripted answers ticks) h]
  · exact .notDue hloop rfl hnow hdue rfl
  · exact .request rfl hloop rfl hnow hdue rfl
  · exact .passes ⟨rfl, hnow, nofun, fun _ => rfl⟩
  · refine .passes ⟨rfl, hnow, fun h => ?_, fun _ => rfl⟩
    exact absurd (Loop.going.inj h) (LoopStage.afterStop_ne_select (.fail e))

theorem loopStep_pingStep {m : LoopLabel} (h : s.loopStep topicPathCapacity m = some s') :
    PingStep s (.loop m) s' := by
  have hgoTo {t : Executor QUEUE BUFFER TOPIC} {stage : LoopStage} (hstage : stage ≠ .select)
      (ht : (t.goTo stage).loop = .going .select) : s.loop = .going .select :=
    absurd (Loop.going.inj ht) hstage
  cases m with
  | connectFails e =>
    obtain ⟨-, rfl⟩ := whenAt_eq_some_iff.mp h
    exact .passes (.of_client rfl (hgoTo (LoopStage.afterStop_ne_select _)))
  | autoSubscribe =>
    obtain ⟨-, rfl⟩ := whenAt_eq_some_iff.mp h
    refine .passes (.of_outcome topicPathCapacity s.client.env.answers s.client.env.ticks
      (m := .autoSubscribe) rfl rfl ?_ ?_)
    · change _ = s.client.autoSubscribeChunk.2
      split
      · exact (congrArg Prod.snd ‹_›).symm
      · exact (congrArg Prod.snd ‹_›).symm
    · split
      · exact id
      · exact hgoTo (LoopStage.afterStop_ne_select _)
  | autoSubscribed =>
    obtain ⟨-, rfl⟩ := whenAt_eq_some_iff.mp h
    exact .passes ⟨rfl, Nat.le_refl _, id, nofun⟩
  | suspend =>
    simp only [loopStep] at h
    split at h
    · split at h
      · cases h
        exact .passes (.of_client rfl id)
      · cases h
    · cases h
  | sendPublishes answers ticks =>
    obtain ⟨-, rfl⟩ := whenAt_eq_some_iff.mp h
    exact .passes (.of_outcome topicPathCapacity answers ticks
      (m := .sendPublishes answers ticks) rfl rfl hold_client fun h => (hold_select h).elim)
  | emit =>
    obtain ⟨event, rest, locked, -, ⟨-, rfl⟩ | ⟨events, -, rfl⟩⟩ := emit_cases h
    · exact .passes (.of_client rfl id)
    · exact .passes (.of_client hold_client fun h => (hold_select h).elim)
  | sendReceives answers =>
    obtain ⟨-, rfl⟩ := whenAt_eq_some_iff.mp h
    exact .passes (.of_outcome topicPathCapacity answers [] (m := .sendReceives answers) rfl rfl rfl
      (hgoTo (LoopStage.afterSend_ne_select (by simp) _)))
  | sendSubscribes answers ticks =>
    obtain ⟨-, rfl⟩ := whenAt_eq_some_iff.mp h
    exact .passes (.of_outcome topicPathCapacity answers ticks
      (m := .sendSubscribes answers ticks) rfl rfl rfl
      (hgoTo (LoopStage.afterSend_ne_select (by simp) _)))
  | sendPing answers ticks =>
    obtain ⟨hloop, rfl⟩ := whenAt_eq_some_iff.mp h
    exact sendPing_pingStep answers ticks hloop
  | runIoNonblocking outcome =>
    obtain ⟨-, rfl⟩ := whenAt_eq_some_iff.mp h
    refine .passes (.of_client ?_ ?_)
    · split <;> rfl
    · split
      · exact hgoTo (by simp)
      · exact hgoTo (by simp)
      · exact hgoTo (LoopStage.afterStop_ne_select _)
  | select ready =>
    obtain ⟨hloop, rfl⟩ := whenAt_eq_some_iff.mp h
    exact .passes (.of_client (select_client ready) fun _ => hloop)
  | process ticks =>
    simp only [loopStep] at h
    split at h
    · rename_i packet hloop
      obtain rfl := Option.some.inj h
      have hclient := @process_client _ _ _ s topicPathCapacity packet ticks
      by_cases hpacket : packet = .pingresp
      · subst hpacket
        have hnow := @Client.now_le_outcome _ _ _ (s.client.scripted [] ticks) topicPathCapacity
          (.receive .pingresp)
        rw [← hclient] at hnow
        exact .response rfl hloop (by rw [hclient]; rfl) hnow fun h => process_select h
      · refine .passes (.of_outcome topicPathCapacity [] ticks (m := .receive packet) ?_ rfl hclient
          fun h => (process_select h).elim)
        cases packet <;> first | rfl | exact absurd rfl hpacket
    · cases h

theorem next_pingStep (h : s.next topicPathCapacity l = some s') : PingStep s l s' := by
  rcases next_cases h with ⟨rfl, -, hloop, rfl⟩ | ⟨rfl, -, rfl⟩ | ⟨m, rfl, -, hm⟩ | ⟨m, rfl, -, rfl⟩
  · exact .passes (.of_client rfl nofun)
  · exact .passes (.of_client rfl id)
  · exact loopStep_pingStep hm
  · exact .passes (clientStep_passes m)

end Executor

/-! ## The timer -/

/-- `deadline` is when the loop is to go on: the end of the pause while it sleeps in `select3`, and
the moment it was woken while it is awake. `pings` is history: when a PINGREQ was written. -/
structure TimedExecutor (QUEUE BUFFER TOPIC : Nat) where
  executor : Executor QUEUE BUFFER TOPIC
  deadline : Instant
  asleep : Bool
  pings : List Instant

namespace TimedExecutor

inductive Label where
  | executor (l : Executor.Label)
  /-- `ping_pause` is called, and `select3` begins. Waiting comes before it. -/
  | pause
  | wait (d : Duration)

def new : TimedExecutor QUEUE BUFFER TOPIC := ⟨.new, 0, false, []⟩

variable (s : TimedExecutor QUEUE BUFFER TOPIC)

def now : Instant := s.executor.client.env.now

def ping : PingStateInner := s.executor.client.ping

/-- When the last PINGREQ was written, or the state was made. -/
def lastPing : Instant := s.pings.getLast?.getD 0

/-- `select3` polls a timer, and the timer is not ready before its end. -/
def allows : Executor.Label → Bool
  | .loop (.select .ping) => s.asleep && decide (s.deadline ≤ s.now)
  | .loop (.select _) => s.asleep
  | _ => true

/-- The times of the PINGREQs after a step of the executor. -/
def pingsAfter (l : Executor.Label) (e : Executor QUEUE BUFFER TOPIC) : List Instant :=
  if l.isSendPing && decide (s.executor.client.env.written.length < e.client.env.written.length) then
    s.pings ++ [e.client.env.now]
  else s.pings

/-- The loop wakes when it leaves `select3`. -/
def after (l : Executor.Label) (e : Executor QUEUE BUFFER TOPIC) : TimedExecutor QUEUE BUFFER TOPIC :=
  let pings := s.pingsAfter l e
  if s.asleep = true ∧ e.loop ≠ .going .select then
    { executor := e, deadline := min s.deadline e.client.env.now, asleep := false, pings }
  else { s with executor := e, pings }

def withClient (client : Client QUEUE BUFFER TOPIC) : Executor QUEUE BUFFER TOPIC :=
  { s.executor with client }

def next (topicPathCapacity : Nat) : Label → Option (TimedExecutor QUEUE BUFFER TOPIC)
  | .executor l =>
    if s.allows l then (s.executor.next topicPathCapacity l).map (s.after l) else none
  | .pause =>
    if s.executor.loop = .going .select ∧ s.asleep = false then
      match (s.executor.client.scripted [] []).callPing PingStateInner.pingPause with
      | (.ok pause, client) =>
        some
          { s with
            executor := s.withClient client
            deadline := client.env.now + pause
            asleep := true }
      | (.error _, _) => none
    else none
  | .wait d =>
    some
      { s with
        executor :=
          s.withClient
            { s.executor.client with env := { s.executor.client.env with now := s.now + d } } }

/-- After a step the loop is not late by more than `L`, and a PINGRESP that is processed is not later
than `D` after the last PINGREQ. -/
def Regular (topicPathCapacity : Nat) (D L : Duration) (s : TimedExecutor QUEUE BUFFER TOPIC)
    (l : Label) : Prop :=
  ∀ t ∈ s.next topicPathCapacity l, t.now ≤ t.deadline + L ∧
    (s.executor.loop = .going (.process .pingresp) → t.now ≤ s.lastPing + D)

instance {topicPathCapacity : Nat} {D L : Duration} (l : Label) :
    Decidable (s.Regular topicPathCapacity D L l) :=
  inferInstanceAs (Decidable (∀ t ∈ _, _))

/-- How long there can be no PINGREQ. -/
def maxSilence (D L : Duration) : Duration :=
  D + KEEP_ALIVE_DURATION / 2 + ERROR_CORRECTING_DURATION + 2 * L

/-- One PINGREQ follows another neither too early nor too late. -/
def Spaced (D L : Duration) (p q : Instant) : Prop :=
  p + PING_RETRY_DURATION < q ∧ q ≤ p + maxSilence D L

/-- The timer and the ping state of a run whose steps are regular. -/
structure Punctual (D L : Duration) : Prop where
  reference_le : s.ping.reference ≤ s.now
  onTime : s.now ≤ s.deadline + L
  awake : s.asleep = false → s.deadline ≤ s.now
  asleep : s.asleep = true → s.executor.loop = .going .select ∧ s.ping.expiry < s.deadline
  settled : s.executor.loop = .going .select → s.asleep = false → s.deadline ≤ s.ping.expiry
  deadline_le : s.deadline ≤ s.ping.expiry + (ERROR_CORRECTING_DURATION + L)
  lastPing_le : s.lastPing ≤ s.now
  le_expiry : s.lastPing + PING_RETRY_DURATION ≤ s.ping.expiry
  expiry_le : s.ping.expiry ≤ s.lastPing + (D + KEEP_ALIVE_DURATION / 2)
  spaced : (0 :: s.pings).IsChain (Spaced D L)

variable {s} {t : TimedExecutor QUEUE BUFFER TOPIC} {D L : Duration} {topicPathCapacity : Nat}
  {l : Executor.Label} {e : Executor QUEUE BUFFER TOPIC}

theorem pingsAfter_of_written
    (h : l.isSendPing = true → e.client.env.written = s.executor.client.env.written) :
    s.pingsAfter l e = s.pings := by
  unfold pingsAfter
  cases hl : l.isSendPing with
  | false => rfl
  | true => simp [h hl]

theorem after_of_awake (h : s.asleep = false) :
    s.after l e = { s with executor := e, pings := s.pingsAfter l e } := by
  simp [after, h]

theorem new_punctual : (new : TimedExecutor QUEUE BUFFER TOPIC).Punctual D L where
  reference_le := Nat.le_refl _
  onTime := Nat.zero_le _
  awake _ := Nat.le_refl _
  asleep := nofun
  settled := nofun
  deadline_le := Nat.zero_le _
  lastPing_le := Nat.le_refl _
  le_expiry := by
    have := PingStateInner.PING_RETRY_DURATION_le_patience (.pingSuccess 0)
    simpa [new, lastPing, ping, Client.new, Executor.new, PingStateInner.expiry] using this
  expiry_le := by
    simp [new, lastPing, ping, Client.new, Executor.new, PingStateInner.expiry]
  spaced := .singleton 0

/-- A loop that is not at `select3` is awake. -/
theorem Punctual.not_asleep (h : s.Punctual D L) (hloop : s.executor.loop ≠ .going .select) :
    s.asleep = false := by
  cases hasleep : s.asleep with
  | false => rfl
  | true => exact absurd (h.asleep hasleep).1 hloop

theorem Punctual.passes (h : s.Punctual D L) (hstep : Executor.Passes s.executor l e)
    (honTime : (s.after l e).now ≤ (s.after l e).deadline + L) : (s.after l e).Punctual D L := by
  have hpings : s.pingsAfter l e = s.pings := pingsAfter_of_written hstep.written
  have hexpiry : e.client.ping.expiry = s.ping.expiry := congrArg PingStateInner.expiry hstep.ping
  have hnow : s.now ≤ e.client.env.now := hstep.now
  have hlast := Nat.le_trans h.lastPing_le hnow
  have hreference : e.client.ping.reference ≤ e.client.env.now :=
    hstep.ping ▸ Nat.le_trans h.reference_le hnow
  by_cases hwakes : s.asleep = true ∧ e.loop ≠ .going .select
  · have hafter : s.after l e =
        { executor := e, deadline := min s.deadline e.client.env.now, asleep := false
          pings := s.pings } := by
      rw [after, if_pos hwakes, hpings]
    rw [hafter] at honTime ⊢
    exact
      { reference_le := hreference
        onTime := honTime
        awake := fun _ => Nat.min_le_right ..
        asleep := nofun
        settled := fun hloop => absurd hloop hwakes.2
        deadline_le := Nat.le_trans (Nat.min_le_left ..) (hexpiry ▸ h.deadline_le)
        lastPing_le := hlast
        le_expiry := hexpiry ▸ h.le_expiry
        expiry_le := hexpiry ▸ h.expiry_le
        spaced := h.spaced }
  · have hafter : s.after l e = { s with executor := e } := by
      rw [after, if_neg hwakes, hpings]
    rw [hafter] at honTime ⊢
    exact
      { reference_le := hreference
        onTime := honTime
        awake := fun hawake => Nat.le_trans (h.awake hawake) hnow
        asleep := fun hasleep => by
          have hloop : e.loop = .going .select := by
            by_contra hloop
            exact hwakes ⟨hasleep, hloop⟩
          exact ⟨hloop, hexpiry ▸ (h.asleep hasleep).2⟩
        settled := fun hloop hawake => hexpiry ▸ h.settled (hstep.select hloop) hawake
        deadline_le := hexpiry ▸ h.deadline_le
        lastPing_le := hlast
        le_expiry := hexpiry ▸ h.le_expiry
        expiry_le := hexpiry ▸ h.expiry_le
        spaced := h.spaced }

/-- The loop looks at the ping state before a PINGREQ is due, and goes on to `select3`. -/
theorem Punctual.notDue (h : s.Punctual D L) (hloop : s.executor.loop = .going .sendPing)
    (hping : e.client.ping = s.ping) (hnow : s.now ≤ e.client.env.now)
    (hdue : ¬s.ping.Overdue e.client.env.now)
    (hwritten : e.client.env.written = s.executor.client.env.written)
    (honTime : (s.after l e).now ≤ (s.after l e).deadline + L) : (s.after l e).Punctual D L := by
  have hawake := h.not_asleep (by rw [hloop]; simp)
  have hexpiry : e.client.ping.expiry = s.ping.expiry := congrArg PingStateInner.expiry hping
  have hreference : e.client.ping.reference ≤ e.client.env.now :=
    hping ▸ Nat.le_trans h.reference_le hnow
  have hlate : e.client.env.now ≤ s.ping.expiry :=
    Nat.le_of_not_lt fun hlt => hdue (PingStateInner.overdue_iff.mpr hlt)
  rw [after_of_awake hawake, pingsAfter_of_written fun _ => hwritten] at honTime ⊢
  exact
    { reference_le := hreference
      onTime := honTime
      awake := fun _ => Nat.le_trans (h.awake hawake) hnow
      asleep := fun hasleep => absurd hasleep (by simp [hawake])
      settled := fun _ _ => hexpiry ▸ Nat.le_trans (Nat.le_trans (h.awake hawake) hnow) hlate
      deadline_le := hexpiry ▸ h.deadline_le
      lastPing_le := Nat.le_trans h.lastPing_le hnow
      le_expiry := hexpiry ▸ h.le_expiry
      expiry_le := hexpiry ▸ h.expiry_le
      spaced := h.spaced }

/-- A PINGREQ that is written is neither too early nor too late. -/
theorem Punctual.request (h : s.Punctual D L) (hl : l.isSendPing = true)
    (hloop : s.executor.loop = .going .sendPing) {lastSuccess : Instant}
    (hping : e.client.ping = .awaitingResponse lastSuccess e.client.env.now)
    (hnow : s.now ≤ e.client.env.now) (hdue : s.ping.Overdue e.client.env.now)
    (hwritten : e.client.env.written = s.executor.client.env.written ++ [⟨.pingreq, none⟩])
    (honTime : (s.after l e).now ≤ (s.after l e).deadline + L) : (s.after l e).Punctual D L := by
  have hawake := h.not_asleep (by rw [hloop]; simp)
  have hpings : s.pingsAfter l e = s.pings ++ [e.client.env.now] := by
    simp [pingsAfter, hl, hwritten]
  have hlate := PingStateInner.overdue_iff.mp hdue
  have hlast : ({ s with executor := e, pings := s.pings ++ [e.client.env.now] } :
      TimedExecutor QUEUE BUFFER TOPIC).lastPing = e.client.env.now := by
    simp [lastPing]
  have hreference : e.client.ping.reference ≤ e.client.env.now := hping ▸ Nat.le_refl _
  have hexpiry : e.client.ping.expiry = e.client.env.now + PING_RETRY_DURATION := by
    rw [hping]
    rfl
  rw [after_of_awake hawake, hpings] at honTime ⊢
  have honTime : e.client.env.now ≤ s.deadline + L := honTime
  have hspaced : Spaced D L s.lastPing e.client.env.now := by
    have hearly := h.le_expiry
    have hdeadline := h.deadline_le
    have hbound := h.expiry_le
    unfold Spaced maxSilence Instant Duration at *
    omega
  have hretry := PingStateInner.PING_RETRY_DURATION_le_patience (.pingSuccess 0)
  exact
    { reference_le := hreference
      onTime := honTime
      awake := fun _ => Nat.le_trans (h.awake hawake) hnow
      asleep := fun hasleep => absurd hasleep (by simp [hawake])
      settled := fun _ _ => by
        change s.deadline ≤ e.client.ping.expiry
        rw [hexpiry]
        exact Nat.le_trans (Nat.le_trans (h.awake hawake) hnow) (Nat.le_add_right ..)
      deadline_le := by
        change s.deadline ≤ e.client.ping.expiry + _
        rw [hexpiry, Nat.add_assoc]
        exact Nat.le_trans (Nat.le_trans (h.awake hawake) hnow) (Nat.le_add_right ..)
      lastPing_le := Nat.le_of_eq hlast
      le_expiry := Nat.le_of_eq (by rw [hlast]; exact hexpiry.symm)
      expiry_le := by
        rw [hlast]
        refine Nat.le_trans (Nat.le_of_eq hexpiry) (Nat.add_le_add_left ?_ _)
        exact Nat.le_trans hretry (Nat.le_add_left ..)
      spaced := by
        rw [← List.cons_append, List.isChain_append]
        refine ⟨h.spaced, .singleton _, fun p hp q hq => ?_⟩
        obtain rfl : s.lastPing = p := by simpa [lastPing, List.getLast?_cons] using hp
        obtain rfl : e.client.env.now = q := by simpa using hq
        exact hspaced }

/-- A PINGRESP is soon enough after the last PINGREQ. -/
theorem Punctual.response (h : s.Punctual D L) (hl : l.isSendPing = false)
    (hloop : s.executor.loop = .going (.process .pingresp))
    (hping : e.client.ping = .pingSuccess e.client.env.now) (hnow : s.now ≤ e.client.env.now)
    (hselect : e.loop ≠ .going .select) (hsoon : e.client.env.now ≤ s.lastPing + D)
    (honTime : (s.after l e).now ≤ (s.after l e).deadline + L) : (s.after l e).Punctual D L := by
  have hawake := h.not_asleep (by rw [hloop]; simp)
  have hpings : s.pingsAfter l e = s.pings := pingsAfter_of_written (by simp [hl])
  have hreference : e.client.ping.reference ≤ e.client.env.now := hping ▸ Nat.le_refl _
  have hexpiry : e.client.ping.expiry = e.client.env.now + KEEP_ALIVE_DURATION / 2 := by
    rw [hping]
    rfl
  have hlast := Nat.le_trans h.lastPing_le hnow
  have hdeadline := Nat.le_trans (h.awake hawake) hnow
  have hretry : PING_RETRY_DURATION ≤ KEEP_ALIVE_DURATION / 2 :=
    PingStateInner.PING_RETRY_DURATION_le_patience (.pingSuccess 0)
  rw [after_of_awake hawake, hpings] at honTime ⊢
  exact
    { reference_le := hreference
      onTime := honTime
      awake := fun _ => hdeadline
      asleep := fun hasleep => absurd hasleep (by simp [hawake])
      settled := fun hloop => absurd hloop hselect
      deadline_le := by
        change s.deadline ≤ e.client.ping.expiry + _
        rw [hexpiry, Nat.add_assoc]
        exact Nat.le_trans hdeadline (Nat.le_add_right ..)
      lastPing_le := hlast
      le_expiry := by
        change s.lastPing + _ ≤ e.client.ping.expiry
        rw [hexpiry]
        exact Nat.add_le_add hlast hretry
      expiry_le := by
        change e.client.ping.expiry ≤ s.lastPing + _
        rw [hexpiry, ← Nat.add_assoc]
        exact Nat.add_le_add_right hsoon _
      spaced := h.spaced }

/-- The pause ends soon after a PINGREQ is due, and not before. -/
theorem Punctual.pause (h : s.Punctual D L) (hstep : s.next topicPathCapacity .pause = some t) :
    t.Punctual D L := by
  simp only [next, Option.ite_none_right_eq_some] at hstep
  obtain ⟨⟨hloop, hawake⟩, hstep⟩ := hstep
  have hexec := PingStateInner.pingPause_exec ⟨s.ping, (s.executor.client.scripted [] []).env⟩
  rw [Client.callPing_of_exec (s := s.executor.client.scripted [] []) hexec] at hstep
  obtain rfl := Option.some.inj hstep
  obtain ⟨hexpired, hsoon⟩ := PingStateInner.pauseAt_spec h.reference_le
  have hsettled := h.settled hloop hawake
  have honTime := h.onTime
  have hbound : s.now + s.ping.pauseAt s.now ≤ s.ping.expiry + (ERROR_CORRECTING_DURATION + L) := by
    unfold Instant Duration at *
    omega
  exact
    { reference_le := h.reference_le
      onTime := Nat.le_trans (Nat.le_add_right ..) (Nat.le_add_right ..)
      awake := nofun
      asleep := fun _ => ⟨hloop, hexpired⟩
      settled := nofun
      deadline_le := hbound
      lastPing_le := h.lastPing_le
      le_expiry := h.le_expiry
      expiry_le := h.expiry_le
      spaced := h.spaced }

theorem Punctual.wait (h : s.Punctual D L) {d : Duration}
    (hstep : s.next topicPathCapacity (.wait d) = some t) (honTime : t.now ≤ t.deadline + L) :
    t.Punctual D L := by
  obtain rfl := Option.some.inj hstep
  have hnow : s.now ≤ s.now + d := Nat.le_add_right ..
  exact
    { h with
      reference_le := Nat.le_trans h.reference_le hnow
      onTime := honTime
      awake := fun hawake => Nat.le_trans (h.awake hawake) hnow
      lastPing_le := Nat.le_trans h.lastPing_le hnow }

theorem Punctual.next {l : Label} (h : s.Punctual D L) (hl : s.Regular topicPathCapacity D L l)
    (hstep : s.next topicPathCapacity l = some t) : t.Punctual D L := by
  obtain ⟨honTime, hresponse⟩ := hl t hstep
  cases l with
  | pause => exact h.pause hstep
  | wait d => exact h.wait hstep honTime
  | executor l =>
    obtain ⟨-, hstep⟩ := Option.ite_none_right_eq_some.mp hstep
    obtain ⟨e, he, rfl⟩ := Option.map_eq_some_iff.mp hstep
    cases Executor.next_pingStep he with
    | passes hpasses => exact h.passes hpasses honTime
    | notDue hloop hping hnow hdue hwritten =>
      exact h.notDue hloop hping hnow hdue hwritten honTime
    | request hl hloop hping hnow hdue hwritten =>
      exact h.request hl hloop hping hnow hdue hwritten honTime
    | response hl hloop hping hnow hselect =>
      have hsoon : (s.after l e).now ≤ s.lastPing + D := hresponse hloop
      rw [after_of_awake (h.not_asleep (by rw [hloop]; simp))] at hsoon
      exact h.response hl hloop hping hnow hselect hsoon honTime

/-- **The keep alive promise is kept**: in every run of the loop with any traffic, any number of
lost connections and any calls of clients, as long as the loop is never late by more than `L` and a
PINGRESP comes within `D` of the last PINGREQ, one PINGREQ follows another within `maxSilence D L`
(the 60 s of `CONNECT`, if `D + 2 * L` is less than 30 s by 10 ms), and never sooner than
`PING_RETRY_DURATION`; the first follows the making of the state. And the timer of `ping_pause` wakes
the loop only when a PINGREQ is due. -/
theorem keep_alive {ls : List Label}
    (h : AllSteps (fun s l => s.next topicPathCapacity l)
      (fun s l => s.Regular topicPathCapacity D L l) (new : TimedExecutor QUEUE BUFFER TOPIC) ls)
    (hr : run (fun s l => s.next topicPathCapacity l) new ls = some s) :
    (0 :: s.pings).IsChain (Spaced D L) ∧ s.now ≤ s.lastPing + maxSilence D L ∧
      (s.allows (.loop (.select .ping)) = true → s.ping.Overdue s.now) := by
  have hpunctual : s.Punctual D L :=
    h.invariant (I := (·.Punctual D L)) (fun s l t hs hl hstep => hs.next hl hstep) new_punctual hr
  refine ⟨hpunctual.spaced, ?_, fun hallows => ?_⟩
  · have honTime := hpunctual.onTime
    have hdeadline := hpunctual.deadline_le
    have hbound := hpunctual.expiry_le
    unfold maxSilence Instant Duration at *
    omega
  · obtain ⟨hasleep, hdeadline⟩ := Bool.and_eq_true_iff.mp hallows
    have hexpired := (hpunctual.asleep hasleep).2
    exact PingStateInner.overdue_iff.mpr
      (Nat.lt_of_lt_of_le hexpired (of_decide_eq_true hdeadline))

/-! ### A PINGREQ that is answered and one that is not -/

/-- A pass with nothing to send but a PINGREQ. -/
def passOf (answers : List (Except MqttError Bool)) : List Label :=
  [.executor (.loop (.sendPublishes [] [])), .executor (.loop (.sendReceives [])),
    .executor (.loop (.sendSubscribes [] [])), .executor (.loop (.sendPing answers [])), .pause]

/-- The time until a PINGREQ is due, with what the loop is late. -/
def untilPing (d : Duration) : List Label :=
  [.wait (d + ERROR_CORRECTING_DURATION + .fromSecs 1), .executor (.loop (.select .ping))]

def answeredThenSilent : List Label :=
  .executor .wake :: passOf [] ++ untilPing (KEEP_ALIVE_DURATION / 2) ++ passOf [.ok true] ++
    [.wait (.fromSecs 2), .executor (.loop (.select (.io (.ok .pingresp)))),
      .executor (.loop (.process []))] ++
    passOf [] ++ untilPing (KEEP_ALIVE_DURATION / 2) ++ passOf [.ok true] ++
    untilPing PING_RETRY_DURATION ++ passOf [.ok true]

theorem keep_alive_on_answeredThenSilent : ∃ s : TimedExecutor 2 16 16,
    run (fun s l => s.next 16 l) new answeredThenSilent = some s ∧ s.pings.length = 3 ∧
      (0 :: s.pings).IsChain (Spaced (.fromSecs 5) (.fromSecs 1)) := by
  have hregular : AllSteps (fun s l => s.next 16 l)
      (fun s l => s.Regular 16 (.fromSecs 5) (.fromSecs 1) l)
      (new : TimedExecutor 2 16 16) answeredThenSilent := by decide +kernel
  have hrun : (run (fun s l => s.next 16 l) (new : TimedExecutor 2 16 16) answeredThenSilent).map
      (·.pings.length) = some 3 := by decide +kernel
  obtain ⟨s, hs, hlength⟩ := Option.map_eq_some_iff.mp hrun
  exact ⟨s, hs, hlength, (keep_alive hregular hs).1⟩

end TimedExecutor

end EmbeddedMqttc
