import EmbeddedMqttc.Library.Prog
import EmbeddedMqttc.Pid

/-!
# The surroundings of a component

`Publishes`, `Receives` and `Subs` keep their queues behind a mutex and reach the rest of the client
through a connection, the clock, the pid pool and the event channel. A call of one of them is a
program over the queues and an `Env`: every implementation of `ConnectionState` is a script of the
answers it gives to `try_write_packet`, and the clock moves on by any amount before each reading.

An event is recorded when it has been put in the channel. A call that waits for the mutex has not
begun, and one that waits for room in the channel goes on when there is room.
-/

namespace EmbeddedMqttc

open Prog

inductive SendResult where
  | partiallySent
  /-- Sent all pending packets to the network or nothing to send. -/
  | sentAll
  deriving DecidableEq, Repr

def RESEND_DURATION : Duration := .fromSecs 5

/-- A packet that a connection has accepted. `request` is history: the request it was written
for. -/
structure Written where
  packet : Packet
  request : Option UniqueID
  deriving DecidableEq, Repr

/-- `answers` are the results of the coming `try_write_packet` calls, `ticks` what passes before the
coming readings of the clock, and `outgoing` the packets accepted on the present connection that the
peer has not received yet. `written`, all packets that were ever accepted, and `lost`, the pids that
were freed while the pool was full, are history. -/
structure Env where
  answers : List (Except MqttError Bool)
  ticks : List Duration
  now : Instant
  outgoing : List Written
  written : List Written
  pool : PidPool PID_POOL_SIZE
  lost : List Pid
  events : List MqttEvent
  deriving DecidableEq, Repr

/-- The value `inner` behind the mutex of a component, in its surroundings. -/
structure Ctx (σ : Type) where
  inner : σ
  env : Env
  deriving DecidableEq, Repr

abbrev Comp (σ : Type) := Prog (Ctx σ) MqttError

namespace Env

/-- Before anything has happened. -/
def new : Env where
  answers := []
  ticks := []
  now := 0
  outgoing := []
  written := []
  pool := .new
  lost := []
  events := []

def asked (e : Env) : Env := { e with answers := e.answers.tail }

def wrote (e : Env) (w : Written) : Env :=
  { e.asked with
    outgoing := e.outgoing ++ [w]
    written := e.written ++ [w] }

def read (e : Env) : Env := { e with now := e.now + e.ticks.headD 0, ticks := e.ticks.tail }

def emitted (e : Env) (event : MqttEvent) : Env := { e with events := e.events ++ [event] }

def freed (e : Env) (pid : Pid) : Env :=
  { e with
    pool := e.pool.freePid pid
    lost := if e.pool.pool.isFull then e.lost ++ [pid] else e.lost }

/-- How many of the packets that are offered next are accepted before one is refused. -/
def acceptances (e : Env) : Nat := (e.answers.takeWhile (· = .ok true)).length

/-- The latest instant that a reading of the clock can give. -/
def horizon (e : Env) : Instant := e.now + e.ticks.sum

variable (e : Env) (w : Written)

@[simp] theorem asked_now : e.asked.now = e.now := rfl

@[simp] theorem asked_outgoing : e.asked.outgoing = e.outgoing := rfl

@[simp] theorem asked_written : e.asked.written = e.written := rfl

@[simp] theorem asked_pool : e.asked.pool = e.pool := rfl

@[simp] theorem asked_events : e.asked.events = e.events := rfl

@[simp] theorem asked_horizon : e.asked.horizon = e.horizon := rfl

@[simp] theorem wrote_now : (e.wrote w).now = e.now := rfl

@[simp] theorem wrote_outgoing : (e.wrote w).outgoing = e.outgoing ++ [w] := rfl

@[simp] theorem wrote_written : (e.wrote w).written = e.written ++ [w] := rfl

@[simp] theorem wrote_pool : (e.wrote w).pool = e.pool := rfl

@[simp] theorem wrote_events : (e.wrote w).events = e.events := rfl

@[simp] theorem wrote_horizon : (e.wrote w).horizon = e.horizon := rfl

@[simp] theorem read_outgoing : e.read.outgoing = e.outgoing := rfl

@[simp] theorem read_written : e.read.written = e.written := rfl

@[simp] theorem read_pool : e.read.pool = e.pool := rfl

@[simp] theorem read_events : e.read.events = e.events := rfl

theorem now_le_read : e.now ≤ e.read.now := Nat.le_add_right ..

@[simp] theorem read_horizon : e.read.horizon = e.horizon := by
  rcases e with ⟨_, _ | ⟨d, ds⟩, _, _, _, _, _, _⟩ <;> simp [read, horizon, Nat.add_assoc]

@[simp] theorem emitted_now (event : MqttEvent) : (e.emitted event).now = e.now := rfl

@[simp] theorem emitted_outgoing (event : MqttEvent) :
    (e.emitted event).outgoing = e.outgoing := rfl

@[simp] theorem emitted_written (event : MqttEvent) :
    (e.emitted event).written = e.written := rfl

@[simp] theorem emitted_pool (event : MqttEvent) : (e.emitted event).pool = e.pool := rfl

@[simp] theorem emitted_events (event : MqttEvent) :
    (e.emitted event).events = e.events ++ [event] := rfl

@[simp] theorem emitted_horizon (event : MqttEvent) : (e.emitted event).horizon = e.horizon := rfl

@[simp] theorem freed_now (pid : Pid) : (e.freed pid).now = e.now := rfl

@[simp] theorem freed_outgoing (pid : Pid) : (e.freed pid).outgoing = e.outgoing := rfl

@[simp] theorem freed_written (pid : Pid) : (e.freed pid).written = e.written := rfl

@[simp] theorem freed_events (pid : Pid) : (e.freed pid).events = e.events := rfl

@[simp] theorem freed_pool (pid : Pid) : (e.freed pid).pool = e.pool.freePid pid := rfl

theorem acceptances_pos_iff : 0 < e.acceptances ↔ e.answers.head? = some (.ok true) := by
  unfold acceptances
  rcases e.answers with _ | ⟨a, answers⟩
  · simp
  · by_cases ha : a = .ok true <;> simp [ha]

theorem acceptances_wrote (h : 0 < e.acceptances) :
    (e.wrote w).acceptances + 1 = e.acceptances := by
  obtain ⟨answers, h⟩ := List.head?_eq_some_iff.mp (e.acceptances_pos_iff.mp h)
  simp [acceptances, wrote, asked, h]

theorem accepted_of_le_acceptances {k : Nat} (hk : k ≤ e.acceptances) :
    ∀ answer ∈ e.answers.take k, answer = .ok true := by
  intro answer hanswer
  have hleading := List.prefix_iff_eq_take.mp
    (List.takeWhile_prefix (l := e.answers) (fun a => decide (a = .ok true)))
  have htake : e.answers.take k = (e.answers.takeWhile (· = .ok true)).take k := by
    rw [hleading, List.take_take, ← acceptances, Nat.min_eq_left hk]
  rw [htake] at hanswer
  have hall := List.all_eq_true.mp List.all_takeWhile answer (List.mem_of_mem_take hanswer)
  exact of_decide_eq_true hall

end Env

variable {σ α : Type} {n : Nat}

namespace Comp

def modifyInner (f : σ → σ) : Comp σ PUnit := modify fun c => { c with inner := f c.inner }

def modifyEnv (f : Env → Env) : Comp σ PUnit := modify fun c => { c with env := f c.env }

/-- `ConnectionState::try_write_packet`. A script that has ended refuses. -/
def tryWritePacket (w : Written) : Comp σ Bool := do
  let c ← get
  match c.env.answers.head?.getD (.ok false) with
  | .ok true => do
    modifyEnv (·.wrote w)
    return true
  | .ok false => do
    modifyEnv Env.asked
    return false
  | .error e => do
    modifyEnv Env.asked
    fail e

/-- `time::now`. -/
def timeNow : Comp σ Instant := do
  modifyEnv Env.read
  return (← get).env.now

/-- `DynPublisher::publish` and `publish_immediate` of the event channel. -/
def publishEvent (event : MqttEvent) : Comp σ PUnit := modifyEnv (·.emitted event)

def freePid (pid : Pid) : Comp σ PUnit := modifyEnv (·.freed pid)

/-- It panics when all pids are used. -/
def nextPid : Comp σ Pid := do
  let c ← get
  let (pid, pool) ← unwrap c.env.pool.nextPid
  modifyEnv fun e => { e with pool }
  return pid

end Comp

namespace SendResult

def add : SendResult → SendResult → SendResult
  | sentAll, sentAll => sentAll
  | _, _ => partiallySent

instance : Add SendResult := ⟨add⟩

def next (r : SendResult) (f : Comp σ SendResult) : Comp σ SendResult :=
  if r ≠ partiallySent then do return r + (← f) else pure r

/-- Like `next`, for a function that is not `async`. -/
def nextSync (r : SendResult) (f : Comp σ SendResult) : Comp σ SendResult := r.next f

end SendResult

/-! ## Retransmission -/

/-- A queue whose entries are written again, and what the scan over it reads of an entry. -/
structure Resend (σ α : Type) (n : Nat) where
  queue : σ → BoundedVec α n
  modify : (BoundedVec α n → BoundedVec α n) → σ → σ
  sentAt : α → Instant
  packet : α → Except MqttError Packet
  request : α → UniqueID
  mark : Instant → α → α

namespace Resend

open EmbeddedMqttc.Comp

/-- The entries that a scan at `now` writes again. -/
def due (r : Resend σ α n) (now : Instant) (a : α) : Prop := now - r.sentAt a > RESEND_DURATION

instance (r : Resend σ α n) (now : Instant) (a : α) : Decidable (r.due now a) :=
  inferInstanceAs (Decidable (_ > _))

/-- One turn of the scan that was begun at `now`; `stamp` gives the new time of an entry. -/
def turn (r : Resend σ α n) (now : Instant) (stamp : Comp σ Instant) (i : Nat) :
    Comp σ (SendResult ⊕ Nat) := do
  let c ← get
  let pending ← unwrap ((r.queue c.inner).get? i)
  if r.due now pending then
    match r.packet pending with
    | .error e => fail e
    | .ok packet =>
      if ← tryWritePacket ⟨packet, some (r.request pending)⟩ then do
        let t ← stamp
        modifyInner (r.modify (·.modifyAt i (r.mark t)))
        return .inr (i + 1)
      else return .inl .partiallySent
  else return .inr (i + 1)

/-- `for pending in queue.iter_mut()`. -/
def scan (r : Resend σ α n) (now : Instant) (stamp : Comp σ Instant) : Comp σ SendResult := do
  let c ← get
  whileIndex (fun c => (r.queue c.inner).len) (r.turn now stamp) .sentAll (r.queue c.inner).len 0

end Resend

/-! ## What the primitives do -/

namespace Comp

variable (c : Ctx σ)

@[simp] theorem modifyInner_exec (f : σ → σ) :
    (modifyInner f).exec c = (.ok ⟨⟩, { c with inner := f c.inner }) := rfl

@[simp] theorem modifyEnv_exec (f : Env → Env) :
    (modifyEnv f : Comp σ PUnit).exec c = (.ok ⟨⟩, { c with env := f c.env }) := rfl

@[simp] theorem publishEvent_exec (event : MqttEvent) :
    (publishEvent event : Comp σ PUnit).exec c = (.ok ⟨⟩, { c with env := c.env.emitted event }) :=
  rfl

@[simp] theorem freePid_exec (pid : Pid) :
    (freePid pid : Comp σ PUnit).exec c = (.ok ⟨⟩, { c with env := c.env.freed pid }) := rfl

@[simp] theorem timeNow_exec :
    (timeNow : Comp σ Instant).exec c = (.ok c.env.read.now, { c with env := c.env.read }) := rfl

section

variable {β : Type} (k : PUnit → Comp σ β)

@[simp] theorem modifyInner_bind_exec (f : σ → σ) :
    (modifyInner f >>= k).exec c = (k ⟨⟩).exec { c with inner := f c.inner } := exec_bind_ok rfl

@[simp] theorem modifyEnv_bind_exec (f : Env → Env) :
    (modifyEnv f >>= k).exec c = (k ⟨⟩).exec { c with env := f c.env } := exec_bind_ok rfl

@[simp] theorem freePid_bind_exec (pid : Pid) :
    (freePid pid >>= k).exec c = (k ⟨⟩).exec { c with env := c.env.freed pid } := exec_bind_ok rfl

@[simp] theorem timeNow_bind_exec (k : Instant → Comp σ β) :
    (timeNow >>= k).exec c = (k c.env.read.now).exec { c with env := c.env.read } :=
  exec_bind_ok rfl

end

theorem tryWritePacket_cases (w : Written) :
    (tryWritePacket w).exec c = (.ok true, { c with env := c.env.wrote w }) ∨
      (tryWritePacket w).exec c = (.ok false, { c with env := c.env.asked }) ∨
      ∃ e, (tryWritePacket w).exec c = (.error (.fail e), { c with env := c.env.asked }) := by
  rcases h : c.env.answers.head?.getD (.ok false) with e | _ | _
  · exact .inr (.inr ⟨e, by simp [tryWritePacket, h, exec_bind]⟩)
  · exact .inr (.inl (by simp [tryWritePacket, h, Except.map]))
  · exact .inl (by simp [tryWritePacket, h, Except.map])

theorem tryWritePacket_accepted (w : Written) (h : 0 < c.env.acceptances) :
    (tryWritePacket w).exec c = (.ok true, { c with env := c.env.wrote w }) := by
  rw [Env.acceptances_pos_iff] at h
  simp [tryWritePacket, h, Except.map]

theorem tryWritePacket_refused (w : Written) (h : c.env.acceptances = 0) :
    (tryWritePacket w).exec c = (.ok false, { c with env := c.env.asked }) ∨
      ∃ e, (tryWritePacket w).exec c = (.error (.fail e), { c with env := c.env.asked }) := by
  have hhead : c.env.answers.head? ≠ some (.ok true) := by
    intro hhead
    have := c.env.acceptances_pos_iff.mpr hhead
    omega
  rcases hanswer : c.env.answers.head? with _ | e | _ | _
  · exact .inl (by simp [tryWritePacket, hanswer, Except.map])
  · exact .inr ⟨e, by simp [tryWritePacket, hanswer, exec_bind]⟩
  · exact .inl (by simp [tryWritePacket, hanswer, Except.map])
  · exact absurd hanswer hhead

theorem nextPid_cases :
    nextPid.exec c = (.error .panic, c) ∨
      ∃ pid pool, c.env.pool.nextPid = some (pid, pool) ∧
        nextPid.exec c = (.ok pid, { c with env := { c.env with pool } }) := by
  unfold nextPid
  cases hp : c.env.pool.nextPid with
  | none =>
    refine .inl ?_
    rw [exec_get_bind, hp]
    rfl
  | some r =>
    refine .inr ⟨r.1, r.2, rfl, ?_⟩
    rw [exec_get_bind, hp]
    rfl

/-- A call stops with an error and leaves the state as it was. -/
def Fails (c : Ctx σ) (x : Stop MqttError) (c' : Ctx σ) : Prop := c' = c ∧ ∃ e, x = .fail e

theorem Fails.fail (c : Ctx σ) (e : MqttError) : Fails c (.fail e) c := ⟨rfl, e, rfl⟩

variable {R : Ctx σ → Ctx σ → Prop} {S : Ctx σ → Stop MqttError → Ctx σ → Prop} {c : Ctx σ}

theorem Fails.movesAt {m : Comp σ α} (h : ExitsAt R Fails m c) : MovesAt R m c := by
  refine h.movesAt (fun _ _ hstep => hstep) fun t x s' hx => ?_
  rw [hx.1]

/-- Of the three outcomes of a write two write nothing. -/
theorem tryWritePacket_bind_exits {w : Written} {f : Bool → Comp σ α}
    (hasked : R c { c with env := c.env.asked }) (hfail : ∀ c e, S c (.fail e) c)
    (hfalse : ExitsAt R S (f false) { c with env := c.env.asked })
    (htrue : (tryWritePacket w).exec c = (.ok true, { c with env := c.env.wrote w }) →
      ExitsAt R S (tryWritePacket w >>= f) c) :
    ExitsAt R S (tryWritePacket w >>= f) c := by
  rcases tryWritePacket_cases c w with h | h | ⟨e, h⟩
  · exact htrue h
  · apply ExitsAt.bind (.of_ok h (.single hasked))
    intro a s' h'
    cases h.symm.trans h'
    exact hfalse
  · exact .of_stop (exec_bind_error h) (.single hasked) (hfail _ e)

end Comp

variable {R : Ctx σ → Ctx σ → Prop} {S : Ctx σ → Stop MqttError → Ctx σ → Prop} {c : Ctx σ}

namespace Resend

variable (r : Resend σ α n) (now : Instant) (stamp : Comp σ Instant) {i : Nat} {a : α}

/-- What a turn of a scan does after its packet has been accepted. -/
def marked (i : Nat) : Comp σ (SendResult ⊕ Nat) := do
  let t ← stamp
  Comp.modifyInner (r.modify (·.modifyAt i (r.mark t)))
  return .inr (i + 1)

theorem turn_cases (ha : (r.queue c.inner).get? i = some a) :
    (¬r.due now a ∧ (r.turn now stamp i).exec c = (.ok (.inr (i + 1)), c)) ∨
      (∃ e, (r.turn now stamp i).exec c = (.error (.fail e), c)) ∨
      (∃ e, (r.turn now stamp i).exec c =
        (.error (.fail e), { c with env := c.env.asked })) ∨
      (r.turn now stamp i).exec c =
        (.ok (.inl .partiallySent), { c with env := c.env.asked }) ∨
      ∃ packet, r.due now a ∧ r.packet a = .ok packet ∧ (r.turn now stamp i).exec c =
        (r.marked stamp i).exec
          { c with env := c.env.wrote ⟨packet, some (r.request a)⟩ } := by
  unfold turn
  rw [exec_get_bind, ha, exec_unwrap_some_bind]
  split
  · rename_i hdue
    cases hp : r.packet a with
    | error e => exact .inr (.inl ⟨e, rfl⟩)
    | ok packet =>
      rcases Comp.tryWritePacket_cases c ⟨packet, some (r.request a)⟩ with h | h | ⟨e, h⟩
      · exact .inr (.inr (.inr (.inr ⟨packet, hdue, rfl, exec_bind_ok h⟩)))
      · exact .inr (.inr (.inr (.inl (exec_bind_ok h))))
      · exact .inr (.inr (.inl ⟨e, exec_bind_error h⟩))
  · rename_i hdue
    exact .inl ⟨hdue, rfl⟩

variable {r now stamp}

/-- A scan makes the steps of its writes. `J` is what holds between two of them. -/
theorem scan_exits {J : Ctx σ → Prop} (hfail : ∀ c e, S c (.fail e) c)
    (hasked : ∀ c, J c → R c { c with env := c.env.asked } ∧ J { c with env := c.env.asked })
    (hmarked : ∀ c i a packet, J c → (r.queue c.inner).get? i = some a → r.due now a →
      r.packet a = .ok packet → ∃ c', (r.marked stamp i).exec
          { c with env := c.env.wrote ⟨packet, some (r.request a)⟩ } = (.ok (.inr (i + 1)), c') ∧
        R c c' ∧ J c')
    (hc : J c) : ExitsAt R S (r.scan now stamp) c := by
  apply ExitsAt.get_bind
  refine .whileIndex (fun i c hc hi => ?_) (fun i c x c' hc h => ?_) _ _ hc
  · obtain ⟨a, ha⟩ : ∃ a, (r.queue c.inner).get? i = some a := ⟨_, List.getElem?_eq_getElem hi⟩
    rcases r.turn_cases now stamp ha with ⟨-, h⟩ | ⟨e, h⟩ | ⟨e, h⟩ | h | ⟨packet, hdue, hp, h⟩
    · exact .of_ok h .refl
    · exact .of_stop h .refl (hfail c e)
    · exact .of_stop h (.single (hasked c hc).1) (hfail _ e)
    · exact .of_ok h (.single (hasked c hc).1)
    · obtain ⟨c', h', hR, -⟩ := hmarked c i a packet hc ha hdue hp
      exact .of_ok (h.trans h') (.single hR)
  · cases ha : (r.queue c.inner).get? i with
    | none => simp [turn, ha, exec_bind] at h
    | some a =>
      rcases r.turn_cases now stamp ha with ⟨-, h₁⟩ | ⟨e, h₁⟩ | ⟨e, h₁⟩ | h₁ | ⟨packet, hdue, hp, h₁⟩
      · cases h₁.symm.trans h
        exact hc
      · cases h₁.symm.trans h
      · cases h₁.symm.trans h
      · cases h₁.symm.trans h
        exact (hasked c hc).2
      · obtain ⟨c', h', -, hJ⟩ := hmarked c i a packet hc ha hdue hp
        cases (h₁.trans h').symm.trans h
        exact hJ

end Resend

theorem SendResult.next_exits {f : Comp σ SendResult} {r : SendResult} (hf : ∀ c, ExitsAt R S f c) :
    ExitsAt R S (r.next f) c := by
  unfold SendResult.next
  split
  · exact .bind (hf c) fun _ _ _ => .pure _
  · exact .pure _

end EmbeddedMqttc
