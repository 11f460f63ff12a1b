import EmbeddedMqttc.Component
import EmbeddedMqttc.Connection

/-!
# Keep alive

`PingState` of `src/state/ping.rs`: a PINGREQ is written when the last success is old, and again
when there is no response.
-/

namespace EmbeddedMqttc

open Prog EmbeddedMqttc.Comp

def PING_RETRY_DURATION : Duration := .fromSecs 5

def KEEP_ALIVE_DURATION : Duration := .fromSecs KEEP_ALIVE

/-- 10 ms. -/
def ERROR_CORRECTING_DURATION : Duration := 10 * 1000000

inductive PingStateInner where
  | pingSuccess (instant : Instant)
  | awaitingResponse (lastSuccess pingRequestSent : Instant)
  deriving DecidableEq, Repr

namespace PingStateInner

def onPingResponse : Comp PingStateInner PUnit := do
  let now ← timeNow
  modifyInner fun _ => pingSuccess now

/-- How long `run_once` sleeps at most before the next pass. -/
def pingPause : Comp PingStateInner Duration := do
  let now ← timeNow
  let c ← get
  match c.inner with
  | pingSuccess instant =>
    if now - instant > KEEP_ALIVE_DURATION / 2 then return 0
    else return KEEP_ALIVE_DURATION / 2 - (now - instant) + ERROR_CORRECTING_DURATION
  | awaitingResponse _ pingRequestSent =>
    let diff := now - pingRequestSent
    if diff > PING_RETRY_DURATION then return 0
    else return PING_RETRY_DURATION - diff + ERROR_CORRECTING_DURATION

/-- The PINGREQ of `send`, with the time of the last success. -/
def request (lastSuccess now : Instant) : Comp PingStateInner SendResult := do
  if ← tryWritePacket ⟨.pingreq, none⟩ then do
    modifyInner fun _ => awaitingResponse lastSuccess now
    return .sentAll
  else return .partiallySent

def send : Comp PingStateInner SendResult := do
  let now ← timeNow
  let c ← get
  match c.inner with
  | pingSuccess instant =>
    if now - instant > KEEP_ALIVE_DURATION / 2 then request instant now else return .sentAll
  | awaitingResponse lastSuccess pingRequestSent =>
    if now - pingRequestSent > PING_RETRY_DURATION then request lastSuccess now
    else return .sentAll

/-- A move of a send pass. -/
inductive Move : Ctx PingStateInner → Ctx PingStateInner → Prop
  | asked : Move c { c with env := c.env.asked }
  | read : Move c { c with env := c.env.read }
  | request (lastSuccess now : Instant) :
      Move c
        { inner := awaitingResponse lastSuccess now
          env := c.env.wrote ⟨.pingreq, none⟩ }

variable {c : Ctx PingStateInner}

theorem request_exits (lastSuccess now : Instant) :
    ExitsAt Move Fails (request lastSuccess now) c := by
  refine tryWritePacket_bind_exits .asked Fails.fail (.pure _) fun hw => ?_
  refine .of_ok (a := .sentAll) ?_ (.single (.request lastSuccess now))
  simp [exec_bind_ok hw]

/-- A whole send pass is made of moves, and it does not panic. -/
theorem send_exits : ExitsAt Move Fails send c := by
  refine .bind (.of_ok (timeNow_exec c) (.single .read)) fun now c₁ h => ?_
  cases h
  apply ExitsAt.get_bind
  split
  · split
    · exact request_exits ..
    · exact .pure _
  · split
    · exact request_exits ..
    · exact .pure _

theorem send_moves : MovesAt Move send c := Fails.movesAt send_exits

/-! ## When a PINGREQ is due -/

/-- Since when the state is waiting. -/
def reference : PingStateInner → Instant
  | pingSuccess instant => instant
  | awaitingResponse _ pingRequestSent => pingRequestSent

/-- For how long it waits before it writes a PINGREQ. -/
def patience : PingStateInner → Duration
  | pingSuccess _ => KEEP_ALIVE_DURATION / 2
  | awaitingResponse .. => PING_RETRY_DURATION

def lastSuccess : PingStateInner → Instant
  | pingSuccess instant => instant
  | awaitingResponse lastSuccess _ => lastSuccess

/-- It has waited long enough. -/
def Overdue (s : PingStateInner) (now : Instant) : Prop := s.patience < now - s.reference

instance (s : PingStateInner) (now : Instant) : Decidable (s.Overdue now) :=
  inferInstanceAs (Decidable (_ < _))

@[simp] theorem reference_pingSuccess (t : Instant) : (pingSuccess t).reference = t := rfl

@[simp] theorem reference_awaitingResponse (t u : Instant) :
    (awaitingResponse t u).reference = u := rfl

@[simp] theorem patience_pingSuccess (t : Instant) :
    (pingSuccess t).patience = KEEP_ALIVE_DURATION / 2 := rfl

@[simp] theorem patience_awaitingResponse (t u : Instant) :
    (awaitingResponse t u).patience = PING_RETRY_DURATION := rfl

/-- A PINGREQ is due after this instant. -/
def expiry (s : PingStateInner) : Instant := s.reference + s.patience

theorem overdue_iff {s : PingStateInner} {now : Instant} : s.Overdue now ↔ s.expiry < now := by
  unfold Overdue expiry Instant Duration at *
  omega

theorem PING_RETRY_DURATION_le_patience (s : PingStateInner) :
    PING_RETRY_DURATION ≤ s.patience := by
  cases s with
  | pingSuccess t => show 5 * 1000000000 ≤ 60 * 1000000000 / 2; decide
  | awaitingResponse t u => exact Nat.le_refl _

theorem send_eq : send = do
    let now ← timeNow
    let c ← get
    if c.inner.Overdue now then request c.inner.lastSuccess now else return .sentAll := by
  unfold send
  congr 1
  funext now
  congr 1
  funext c
  cases c.inner with
  | pingSuccess t => rfl
  | awaitingResponse t u => rfl

/-- What `send` does: nothing, unless a PINGREQ is due. -/
theorem send_cases (c : Ctx PingStateInner) :
    (¬c.inner.Overdue c.env.read.now ∧
        send.exec c = (.ok .sentAll, { c with env := c.env.read })) ∨
      c.inner.Overdue c.env.read.now ∧
        (send.exec c =
            (.ok .sentAll,
              { inner := awaitingResponse c.inner.lastSuccess c.env.read.now
                env := c.env.read.wrote ⟨.pingreq, none⟩ }) ∨
          send.exec c = (.ok .partiallySent, { c with env := c.env.read.asked }) ∨
          ∃ e, send.exec c = (.error (.fail e), { c with env := c.env.read.asked })) := by
  rw [send_eq, timeNow_bind_exec, exec_get_bind]
  by_cases hdue : c.inner.Overdue c.env.read.now
  · refine .inr ⟨hdue, ?_⟩
    simp only [if_pos hdue, request]
    rcases tryWritePacket_cases { c with env := c.env.read } ⟨.pingreq, none⟩ with h | h | ⟨e, h⟩
    · exact .inl (by rw [exec_bind_ok h]; rfl)
    · exact .inr (.inl (by rw [exec_bind_ok h]; rfl))
    · exact .inr (.inr ⟨e, by rw [exec_bind_error h]⟩)
  · refine .inl ⟨hdue, ?_⟩
    simp only [if_neg hdue]
    rfl

/-- What `pingPause` returns at `now`. -/
def pauseAt (s : PingStateInner) (now : Instant) : Duration :=
  if s.Overdue now then 0 else s.patience - (now - s.reference) + ERROR_CORRECTING_DURATION

theorem pingPause_exec (c : Ctx PingStateInner) :
    pingPause.exec c = (.ok (c.inner.pauseAt c.env.read.now), { c with env := c.env.read }) := by
  rw [pingPause, timeNow_bind_exec, exec_get_bind, pauseAt]
  obtain ⟨inner, env⟩ := c
  by_cases hdue : inner.Overdue env.read.now
  · rw [if_pos hdue]
    cases inner <;> exact congrArg (exec · _) (if_pos hdue)
  · rw [if_neg hdue]
    cases inner <;> exact congrArg (exec · _) (if_neg hdue)

/-- The pause ends after a PINGREQ is due, and soon. -/
theorem pauseAt_spec {s : PingStateInner} {now : Instant} (h : s.reference ≤ now) :
    s.expiry < now + s.pauseAt now ∧
      now + s.pauseAt now ≤ max now (s.expiry + ERROR_CORRECTING_DURATION) := by
  have hcorrecting : 0 < ERROR_CORRECTING_DURATION := by decide
  unfold pauseAt
  by_cases hdue : s.Overdue now
  · rw [if_pos hdue]
    exact ⟨overdue_iff.mp hdue, Nat.le_max_left ..⟩
  · have hlate := mt overdue_iff.mpr hdue
    rw [if_neg hdue]
    unfold expiry Instant Duration at *
    omega

end PingStateInner

end EmbeddedMqttc
