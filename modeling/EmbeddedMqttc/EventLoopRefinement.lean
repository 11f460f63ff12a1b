import EmbeddedMqttc.IdsCarried
import EmbeddedMqttc.KeepAlive
import EmbeddedMqttc.Library.Simulation
import EmbeddedMqttc.PidsInUse

/-!
# The event loop is a client

A run of the event loop and of the calls of its clients is a run of `Client`, in which the calls and the
phases come in any order: each step of the executor is followed by the labels in `moves`, and the
components, the pids, the packets and the clock are the same on both sides. Only the numbers of the
requests differ, which are history and which no component reads.
-/

namespace EmbeddedMqttc

open Prog Run EmbeddedMqttc.Comp

variable {QUEUE BUFFER TOPIC : Nat}

/-! ## Clients that are alike -/

/-- Without the number of the request. -/
def UniqueID.plain (u : UniqueID) : UniqueID := { u with request := 0 }

/-- The surroundings are the same up to the numbers of the requests and what is left of scripts. -/
def Env.Alike (a b : Env) : Prop :=
  (a.rename UniqueID.plain).unscripted = (b.rename UniqueID.plain).unscripted

theorem Env.Alike.of_rename {a b : Env} (h : a.rename UniqueID.plain = b.rename UniqueID.plain) :
    a.Alike b := congrArg Env.unscripted h

/-- With the same scripts they are the same up to the numbers. -/
theorem Env.Alike.scripted {a b : Env} (h : a.Alike b) (answers : List (Except MqttError Bool))
    (ticks : List Duration) : ({ a with answers, ticks } : Env).rename UniqueID.plain =
      ({ b with answers, ticks } : Env).rename UniqueID.plain :=
  congrArg (fun e : Env => { e with answers, ticks }) h

theorem Env.Alike.now_eq {a b : Env} (h : a.Alike b) : a.now = b.now := by
  have hnow := congrArg Env.now h
  exact hnow

theorem Env.Alike.pool_eq {a b : Env} (h : a.Alike b) : a.pool = b.pool := by
  have hpool := congrArg Env.pool h
  exact hpool

namespace Client

/-- Two clients are the same up to the numbers of the requests, as far as the components go. -/
structure Alike (s t : Client QUEUE BUFFER TOPIC) : Prop where
  publishes : s.publishes.rename UniqueID.plain = t.publishes.rename UniqueID.plain
  receives : s.receives = t.receives
  subscribes : s.subscribes.rename UniqueID.plain = t.subscribes.rename UniqueID.plain
  ping : s.ping = t.ping
  env : s.env.Alike t.env
  autoSubscribe : s.autoSubscribe = t.autoSubscribe

variable {s t : Client QUEUE BUFFER TOPIC} {topicPathCapacity : Nat} {α : Type} {E : Env → Env}

theorem Alike.refl (s : Client QUEUE BUFFER TOPIC) : Alike s s := ⟨rfl, rfl, rfl, rfl, rfl, rfl⟩

theorem Alike.scripted (h : Alike s t) (answers : List (Except MqttError Bool))
    (ticks : List Duration) : Alike (s.scripted answers ticks) (t.scripted answers ticks) :=
  ⟨h.publishes, h.receives, h.subscribes, h.ping, .of_rename (h.env.scripted answers ticks),
    h.autoSubscribe⟩

/-- The calls that wait and the history of the requests are no part of it. -/
theorem Alike.rest (h : Alike s t) (waiting : List (Publish × UniqueID))
    (issued : List (Option QosPid)) : Alike s { t with waiting, issued } :=
  ⟨h.publishes, h.receives, h.subscribes, h.ping, h.env, h.autoSubscribe⟩

/-- What is the same under `E` is alike. -/
def Tells (E : Env → Env) : Prop := ∀ a b, E a = E b → a.Alike b

theorem tells_rename : Tells (Env.rename UniqueID.plain) := fun _ _ => .of_rename

theorem tells_unscripted : Tells fun e => (e.rename UniqueID.plain).unscripted := fun _ _ => id

/-- Two calls that are mirrored by one leave the same, up to the numbers. -/
theorem calls_agree {σ : Type} {g : σ → σ} {m m' p : Comp σ α} {x y : σ} {a b : Env}
    (hm : Mirrors (Ctx.map g E) id m p) (hm' : Mirrors (Ctx.map g E) id m' p) (hinner : g x = g y)
    (henv : E a = E b) :
    (m.exec ⟨x, a⟩).1 = (m'.exec ⟨y, b⟩).1 ∧
      g (m.exec ⟨x, a⟩).2.inner = g (m'.exec ⟨y, b⟩).2.inner ∧
      E (m.exec ⟨x, a⟩).2.env = E (m'.exec ⟨y, b⟩).2.env := by
  have hstate : Ctx.map g E ⟨x, a⟩ = Ctx.map g E ⟨y, b⟩ := by
    rw [Ctx.map, hinner, henv]
    rfl
  obtain ⟨hresult, hctx⟩ := hm.agree hm' hstate
  exact ⟨hresult, congrArg Ctx.inner hctx, congrArg Ctx.env hctx⟩

theorem Alike.callPublishes {m m' p : PublishesCall QUEUE BUFFER TOPIC α} (h : Alike s t)
    (hE : Tells E) (henv : E s.env = E t.env) (hm : PublishesInner.Carried UniqueID.plain E m p)
    (hm' : PublishesInner.Carried UniqueID.plain E m' p) :
    (s.callPublishes m).1 = (t.callPublishes m').1 ∧
      Alike (s.callPublishes m).2 (t.callPublishes m').2 := by
  obtain ⟨hresult, hinner, henv⟩ := calls_agree hm hm' h.publishes henv
  exact ⟨hresult, hinner, h.receives, h.subscribes, h.ping, hE _ _ henv, h.autoSubscribe⟩

theorem Alike.callSubscribes {m m' p : SubsCall TOPIC QUEUE α} (h : Alike s t)
    (hE : Tells E) (henv : E s.env = E t.env) (hm : SubsInner.Carried UniqueID.plain E m p)
    (hm' : SubsInner.Carried UniqueID.plain E m' p) :
    (s.callSubscribes m).1 = (t.callSubscribes m').1 ∧
      Alike (s.callSubscribes m).2 (t.callSubscribes m').2 := by
  obtain ⟨hresult, hinner, henv⟩ := calls_agree hm hm' h.subscribes henv
  exact ⟨hresult, h.publishes, h.receives, hinner, h.ping, hE _ _ henv, h.autoSubscribe⟩

theorem Alike.callReceives {m : ReceivesCall BUFFER TOPIC QUEUE α} (h : Alike s t)
    (hE : Tells E) (henv : E s.env = E t.env) (hm : Unconcerned E m) :
    Alike (s.callReceives m).2 (t.callReceives m).2 := by
  obtain ⟨-, hinner, henv⟩ := calls_agree hm hm h.receives henv
  exact ⟨h.publishes, hinner, h.subscribes, h.ping, hE _ _ henv, h.autoSubscribe⟩

theorem Alike.callPing {m : Comp PingStateInner α} (h : Alike s t) (hE : Tells E)
    (henv : E s.env = E t.env) (hm : Unconcerned E m) :
    Alike (s.callPing m).2 (t.callPing m).2 := by
  obtain ⟨-, hinner, henv⟩ := calls_agree hm hm h.ping henv
  exact ⟨h.publishes, h.receives, h.subscribes, hinner, hE _ _ henv, h.autoSubscribe⟩

/-! ### The steps of the loop -/

section

variable (h : Alike s t)
include h

theorem Alike.sendPublishes (answers : List (Except MqttError Bool)) (ticks : List Duration) :
    Alike (s.outcome topicPathCapacity (.sendPublishes answers ticks)).2
      (t.outcome topicPathCapacity (.sendPublishes answers ticks)).2 :=
  ((h.scripted answers ticks).callPublishes tells_rename (h.env.scripted answers ticks)
    PublishesInner.sendPackets_carried PublishesInner.sendPackets_carried).2

theorem Alike.sendReceives (answers : List (Except MqttError Bool)) :
    Alike (s.outcome topicPathCapacity (.sendReceives answers)).2
      (t.outcome topicPathCapacity (.sendReceives answers)).2 :=
  (h.scripted answers []).callReceives tells_rename (h.env.scripted answers [])
    Receives.sendPackets_unconcerned

theorem Alike.sendSubscribes (answers : List (Except MqttError Bool)) (ticks : List Duration) :
    Alike (s.outcome topicPathCapacity (.sendSubscribes answers ticks)).2
      (t.outcome topicPathCapacity (.sendSubscribes answers ticks)).2 :=
  ((h.scripted answers ticks).callSubscribes tells_rename (h.env.scripted answers ticks)
    (SubsInner.send_carried topicPathCapacity) (SubsInner.send_carried topicPathCapacity)).2

theorem Alike.sendPing (answers : List (Except MqttError Bool)) (ticks : List Duration) :
    Alike (s.outcome topicPathCapacity (.sendPing answers ticks)).2
      (t.outcome topicPathCapacity (.sendPing answers ticks)).2 :=
  (h.scripted answers ticks).callPing tells_rename (h.env.scripted answers ticks)
    PingStateInner.send_unconcerned

theorem Alike.autoSubscribeChunk : Alike s.autoSubscribeChunk.2 t.autoSubscribeChunk.2 ∧
    t.autoSubscribeChunk.2.waiting = t.waiting := by
  have hpid : PublishesInner.Carried UniqueID.plain (fun e => (e.rename UniqueID.plain).unscripted)
      (nextPid : PublishesCall QUEUE BUFFER TOPIC Pid) nextPid :=
    nextPid_mirrors (Env.renames_unscripted UniqueID.plain)
  obtain ⟨hresult, hcall⟩ := h.callPublishes tells_unscripted h.env hpid hpid
  unfold Client.autoSubscribeChunk
  rw [h.autoSubscribe]
  cases t.autoSubscribe with
  | some pid => exact ⟨h, rfl⟩
  | none =>
    have hwaiting : (t.callPublishes nextPid).2.waiting = t.waiting := rfl
    generalize s.callPublishes nextPid = o at hresult hcall
    generalize t.callPublishes nextPid = o' at hresult hcall hwaiting
    obtain ⟨r, s'⟩ := o
    obtain ⟨r', t'⟩ := o'
    obtain rfl : r = r' := hresult
    cases r with
    | error x => exact ⟨hcall, hwaiting⟩
    | ok pid =>
      exact ⟨⟨hcall.publishes, hcall.receives, hcall.subscribes, hcall.ping, hcall.env, rfl⟩,
        hwaiting⟩

/-- A PINGRESP apart, a packet is processed without asking the connection or the clock. -/
theorem Alike.receive {packet : Packet} (hpacket : packet ≠ .pingresp) :
    Alike (s.outcome topicPathCapacity (.receive packet)).2
      (t.outcome topicPathCapacity (.receive packet)).2 := by
  have hE := Env.renames_unscripted UniqueID.plain
  have hpublishes (packet : Packet) :=
    (h.callPublishes tells_unscripted h.env
      (Publishes.processIncomingPacket_carried hE packet)
      (Publishes.processIncomingPacket_carried hE packet)).2
  cases packet with
  | pingresp => exact absurd rfl hpacket
  | puback pid | pubrec pid | pubcomp pid => exact hpublishes _
  | publish message =>
    exact h.callReceives tells_unscripted h.env (Receives.onPublish_unconcerned message)
  | pubrel pid => exact h.callReceives tells_unscripted h.env (Receives.onPubrel_unconcerned pid)
  | suback response =>
    exact (h.callSubscribes tells_unscripted h.env (SubsInner.onSuback_carried hE response)
      (SubsInner.onSuback_carried hE response)).2
  | unsuback pid =>
    exact (h.callSubscribes tells_unscripted h.env (SubsInner.onUnsuback_carried hE pid)
      (SubsInner.onUnsuback_carried hE pid)).2
  | _ => exact h

end

/-- A ping phase that is refused lets time pass, and nothing is left of the scripts. -/
theorem outcome_sendPing_refused (s : Client QUEUE BUFFER TOPIC) (d : Duration) :
    (s.outcome topicPathCapacity (.sendPing [] [d])).2 =
      { s with env := { s.env with answers := [], ticks := [], now := s.env.now + d } } := by
  let c : Ctx PingStateInner := ⟨s.ping, (s.scripted [] [d]).env⟩
  have hsend : (PingStateInner.send.exec c).2 = { c with env := c.env.read } := by
    rw [PingStateInner.send_eq, timeNow_bind_exec, exec_get_bind]
    split
    · rfl
    · rfl
  change { s.scripted [] [d] with
    ping := (PingStateInner.send.exec c).2.inner
    env := (PingStateInner.send.exec c).2.env } = _
  rw [hsend]
  rfl

/-! ### The calls of users -/

/-- A new publish gets the same pid, or there is none on both sides. -/
theorem Alike.publish (h : Alike s t) (topic payload : List UInt8) (qos : QoS) (retain : Bool)
    (id : Nat) :
    Alike (s.callPublishes (State.newPublish topic payload qos retain)).2
        (t.publish topic payload qos retain id).2 ∧
      (∀ message, (s.callPublishes (State.newPublish topic payload qos retain)).1 = .ok message →
        (t.publish topic payload qos retain id).2.waiting =
          t.waiting ++ [(message, ⟨id, t.issued.length⟩)]) ∧
      (∀ x, (s.callPublishes (State.newPublish topic payload qos retain)).1 = .error x →
        (t.publish topic payload qos retain id).2.waiting = t.waiting) := by
  have hE := Env.renames_unscripted UniqueID.plain
  obtain ⟨hresult, hcall⟩ := h.callPublishes tells_unscripted h.env
    (newPublish_mirrors hE topic payload qos retain) (newPublish_mirrors hE topic payload qos retain)
  have hwaiting : (t.callPublishes (State.newPublish topic payload qos retain)).2.waiting =
    t.waiting := rfl
  rw [hresult, Client.publish]
  generalize t.callPublishes (State.newPublish topic payload qos retain) = o at hcall hwaiting ⊢
  obtain ⟨x | message, t'⟩ := o
  · refine ⟨hcall, fun _ hmessage => ?_, fun _ _ => hwaiting⟩
    cases hmessage
  · refine ⟨hcall.rest _ _, fun _ hmessage => ?_, fun _ herror => ?_⟩
    · cases hmessage
      rfl
    · cases herror

theorem Alike.addRequest (h : Alike s t) (requestType : RequestType) (topics : List (List UInt8))
    (u : UniqueID) :
    Alike (s.callSubscribes (SubsInner.addRequest requestType topics u)).2
      (t.addRequest (SubsInner.addRequest requestType topics) u.id).2 := by
  have hE := Env.renames_unscripted UniqueID.plain
  have hcall := (h.callSubscribes tells_unscripted h.env
    (SubsInner.addRequest_carried hE requestType topics u)
    (SubsInner.addRequest_carried hE requestType topics ⟨u.id, t.issued.length⟩)).2
  exact hcall.rest _ _

/-- A publish that waits and is not parked again is queued or fails. -/
theorem Alike.poll (h : Alike s t) {i : Nat} {message : Publish} {u v : UniqueID}
    (hi : t.waiting[i]? = some (message, u)) (hid : u.id = v.id)
    (hparked : (s.callPublishes (Publishes.publish message v)).1 ≠ .error .parked) :
    Alike (s.callPublishes (Publishes.publish message v)).2 (t.poll i).2 ∧
      (t.poll i).2.waiting = t.waiting.eraseIdx i := by
  have hplain : u.plain = v.plain := congrArg (fun id => (⟨id, 0⟩ : UniqueID)) hid
  have hu : PublishesInner.Carried UniqueID.plain (fun e => (e.rename UniqueID.plain).unscripted)
      (Publishes.publish message u : PublishesCall QUEUE BUFFER TOPIC Unit)
      (Publishes.publish message u.plain) := Publishes.publish_carried message u
  rw [hplain] at hu
  obtain ⟨hresult, hcall⟩ := h.callPublishes tells_unscripted h.env
    (Publishes.publish_carried message v) hu
  rw [hresult] at hparked
  have hpoll : (t.poll i).2 =
      { (t.callPublishes (Publishes.publish message u)).2 with waiting := t.waiting.eraseIdx i } := by
    -- `hparked` rules out the case that goes on waiting
    simp only [Client.poll, hi]
  rw [hpoll]
  exact ⟨hcall.rest _ _, rfl⟩

end Client

/-! ## The labels of the client -/

/-- The publish of a call that waits for room, with its id. -/
def ClientCall.waitingPublish (call : ClientCall) : Option (Publish × Nat) :=
  match call.request, call.phase with
  | .publish message, .waiting => some (message, call.uniqueId.id)
  | _, _ => none

namespace Executor

variable (s : Executor QUEUE BUFFER TOPIC)

/-- The publishes whose calls wait for room. -/
def waitingPublishes : List (Publish × Nat) := s.calls.filterMap ClientCall.waitingPublish

/-- The place of a call among the calls of publishes that wait for room. -/
def place (i : Nat) : Nat := ((s.calls.take i).filterMap ClientCall.waitingPublish).length

/-- A call is done with its request. -/
def requestMoves (i : Nat) (call : ClientCall) : List Client.Label :=
  match call.request with
  | .publish _ => [.poll (s.place i)]
  | .subscribe topic qos => [.subscribe [topic] qos call.uniqueId.id]
  | .unsubscribe topic => [.unsubscribe [topic] call.uniqueId.id]

def pollMoves (i : Nat) : List Client.Label :=
  match s.calls[i]? with
  | none => []
  | some call =>
    match call.phase, (s.attempt call).1 with
    | .waiting, .error .parked => []
    | .waiting, _ => s.requestMoves i call
    | _, _ => []

def newCallMoves (request : Request) (id : Nat) : List Client.Label :=
  match s.events.subscribe s.calls.length with
  | none => []
  | some events =>
    let call : ClientCall :=
      { request, uniqueId := ⟨id, s.calls.length⟩, phase := .waiting, since := 0 }
    { s with events, calls := s.calls ++ [call] }.pollMoves s.calls.length

def publishMoves (topic payload : List UInt8) (qos : QoS) (retain : Bool) (id : Nat) :
    List Client.Label :=
  match s.events.subscribe s.calls.length with
  | none => []
  | some _ =>
    match s.client.callPublishes (State.newPublish topic payload qos retain) with
    | (.error _, _) => [.publish topic payload qos retain id]
    | (.ok message, client) =>
      .publish topic payload qos retain id :: { s with client }.newCallMoves (.publish message) id

def dropMoves (i : Nat) : List Client.Label :=
  match (s.calls[i]?).bind ClientCall.waitingPublish with
  | none => []
  | some _ => [.drop (s.place i)]

/-- The time that passes before a PINGRESP is processed goes by in a ping phase that is refused. -/
def processMoves (packet : Packet) (ticks : List Duration) : List Client.Label :=
  match packet with
  | .pingresp => [.sendPing [] [ticks.headD 0], .receive .pingresp]
  | packet => [.receive packet]

def loopMoves : LoopLabel → List Client.Label
  | .autoSubscribe => [.autoSubscribe]
  | .autoSubscribed => [.autoSubscribed]
  | .sendPublishes answers ticks => [.sendPublishes answers ticks]
  | .sendReceives answers => [.sendReceives answers]
  | .sendSubscribes answers ticks => [.sendSubscribes answers ticks]
  | .sendPing answers ticks => [.sendPing answers ticks]
  | .process ticks =>
    match s.loop with
    | .going (.process packet) => processMoves packet ticks
    | _ => []
  | .connectFails _ | .suspend | .emit | .runIoNonblocking _ | .select _ => []

def clientMoves : ClientLabel → List Client.Label
  | .publish topic payload qos retain id => s.publishMoves topic payload qos retain id
  | .subscribe topic qos id => s.newCallMoves (.subscribe topic qos) id
  | .unsubscribe topic id => s.newCallMoves (.unsubscribe topic) id
  | .poll i => s.pollMoves i
  | .drop i => s.dropMoves i
  | .disconnect => []

/-- What a step of the executor is for the client. -/
def moves : Label → List Client.Label
  | .run | .wake => []
  | .loop l => s.loopMoves l
  | .client l => s.clientMoves l

/-- The client of an executor with the calls that wait for room: the same up to the numbers of the
requests. -/
structure Refines (s : Executor QUEUE BUFFER TOPIC) (c : Client QUEUE BUFFER TOPIC) : Prop where
  client : s.client.Alike c
  waiting : c.waiting.map (fun w => (w.1, w.2.id)) = s.waitingPublishes

/-! ## What becomes of the calls that wait -/

section

variable {s s' : Executor QUEUE BUFFER TOPIC} {call : ClientCall} {i : Nat}

theorem filterMap_modify_same {α β : Type} {p : α → Option β} {g : α → α} {l : List α} {i : Nat}
    (h : ∀ a, l[i]? = some a → p (g a) = p a) : (l.modify i g).filterMap p = l.filterMap p := by
  induction l generalizing i with
  | nil => cases i <;> rfl
  | cons b l ih =>
    cases i with
    | zero => rw [List.modify_zero_cons, List.filterMap_cons, List.filterMap_cons, h b rfl]
    | succ i => rw [List.modify_succ_cons, List.filterMap_cons, List.filterMap_cons, ih h]

theorem filterMap_modify_none {α β : Type} {p : α → Option β} {g : α → α} {l : List α} {i : Nat}
    {a : α} {b : β} (hi : l[i]? = some a) (ha : p a = some b) (hg : p (g a) = none) :
    (l.modify i g).filterMap p = (l.filterMap p).eraseIdx ((l.take i).filterMap p).length ∧
      (l.filterMap p)[((l.take i).filterMap p).length]? = some b := by
  induction l generalizing i with
  | nil => cases hi
  | cons c l ih =>
    cases i with
    | zero =>
      cases hi
      simp [ha, hg]
    | succ i =>
      obtain ⟨herase, hget⟩ := ih hi
      rw [List.modify_succ_cons, List.take_succ_cons, List.filterMap_cons, List.filterMap_cons,
        List.filterMap_cons]
      cases p c with
      | none => exact ⟨herase, hget⟩
      | some d => exact ⟨by simp [herase], by simpa using hget⟩

theorem waitingPublish_of_phase (h : call.phase ≠ .waiting) : call.waitingPublish = none := by
  obtain ⟨request, uniqueId, phase, since⟩ := call
  cases phase with
  | waiting => exact absurd rfl h
  | awaiting | ended => cases request <;> rfl

theorem Refines.of_eq {c : Client QUEUE BUFFER TOPIC} (h : Refines s c) (hclient : s'.client = s.client)
    (hcalls : s'.calls = s.calls) : Refines s' c :=
  ⟨hclient ▸ h.client, by rw [h.waiting, waitingPublishes, waitingPublishes, hcalls]⟩

variable {c : Client QUEUE BUFFER TOPIC} {topicPathCapacity : Nat}

theorem Refines.awaitEvent (h : Refines s c) (hcall : s.calls[i]? = some call)
    (hphase : call.phase ≠ .waiting) (accepts : MqttEvent → Bool) :
    Refines (s.awaitEvent i accepts) c := by
  unfold Executor.awaitEvent
  split
  · exact h.of_eq rfl rfl
  · refine ⟨h.client, h.waiting.trans (filterMap_modify_same fun a ha => ?_).symm⟩
    cases hcall.symm.trans ha
    rw [waitingPublish_of_phase hphase]
    exact waitingPublish_of_phase nofun

/-- The call `i` has ended or waits for its event, and it was none of the publishes that wait. -/
theorem Refines.settled {t : Executor QUEUE BUFFER TOPIC} {c' : Client QUEUE BUFFER TOPIC}
    (h : Refines s c) (hcall : s.calls[i]? = some call) (hnone : call.waitingPublish = none)
    {g : ClientCall → ClientCall} (hclient : t.client.Alike c') (hwaiting : c'.waiting = c.waiting)
    (hcalls : t.calls = s.calls.modify i g) (hg : (g call).phase ≠ .waiting) : Refines t c' := by
  refine ⟨hclient, ?_⟩
  rw [hwaiting, h.waiting, waitingPublishes, waitingPublishes, hcalls,
    filterMap_modify_same fun a ha => ?_]
  cases hcall.symm.trans ha
  rw [hnone, waitingPublish_of_phase hg]

variable (topicPathCapacity) in
/-- A request that is queued or fails is so on both sides. -/
theorem Refines.request (h : Refines s c) (hcall : s.calls[i]? = some call)
    (hphase : call.phase = .waiting) (hparked : (s.attempt call).1 ≠ .error .parked) :
    ∃ c', run (Client.next · topicPathCapacity) c (s.requestMoves i call) = some c' ∧
      ∀ (t : Executor QUEUE BUFFER TOPIC) (g : ClientCall → ClientCall),
        t.client = (s.attempt call).2 → t.calls = s.calls.modify i g → (g call).phase ≠ .waiting →
        Refines t c' := by
  obtain ⟨request, uniqueId, phase, since⟩ := call
  obtain rfl : phase = .waiting := hphase
  cases request with
  | subscribe topic qos =>
    refine ⟨_, rfl, fun t g hclient hcalls hg => h.settled hcall rfl ?_ rfl hcalls hg⟩
    rw [hclient]
    exact h.client.addRequest (.subscribe qos) [topic] uniqueId
  | unsubscribe topic =>
    refine ⟨_, rfl, fun t g hclient hcalls hg => h.settled hcall rfl ?_ rfl hcalls hg⟩
    rw [hclient]
    exact h.client.addRequest .unsubscribe [topic] uniqueId
  | publish message =>
    refine ⟨_, rfl, fun t g hclient hcalls hg => ?_⟩
    have hattempt : s.attempt ⟨.publish message, uniqueId, .waiting, since⟩ =
        if s.publishesLocked then (.error .parked, s.client)
        else s.client.callPublishes (Publishes.publish message uniqueId) := rfl
    rw [hattempt] at hparked hclient
    split at hparked
    · exact absurd rfl hparked
    rw [if_neg ‹_›] at hclient
    obtain ⟨herase, hget⟩ := filterMap_modify_none (p := ClientCall.waitingPublish) hcall rfl
      (waitingPublish_of_phase hg)
    change s.waitingPublishes[s.place i]? = _ at hget
    rw [← h.waiting, List.getElem?_map] at hget
    obtain ⟨⟨message', u⟩, hi, heq⟩ := Option.map_eq_some_iff.mp hget
    obtain ⟨rfl, hid⟩ := Prod.mk.inj heq
    obtain ⟨halike, hwaiting⟩ := h.client.poll hi hid hparked
    refine ⟨hclient ▸ halike, ?_⟩
    change (c.poll (s.place i)).2.waiting.map _ = _
    rw [hwaiting, ← List.eraseIdx_map, h.waiting, waitingPublishes, waitingPublishes, hcalls]
    exact herase.symm

theorem Refines.poll (h : Refines s c) (i : Nat) :
    ∃ c', run (Client.next · topicPathCapacity) c (s.pollMoves i) = some c' ∧ Refines (s.poll i) c' := by
  cases hcall : s.calls[i]? with
  | none => exact ⟨c, by rw [pollMoves, hcall]; rfl, by rwa [Executor.poll, hcall]⟩
  | some call =>
    cases hphase : call.phase with
    | ended received =>
      refine ⟨c, ?_, ?_⟩
      · simp only [pollMoves, hcall, hphase]
        rfl
      · simpa only [Executor.poll, hcall, hphase] using h
    | awaiting =>
      refine ⟨c, ?_, ?_⟩
      · simp only [pollMoves, hcall, hphase]
        rfl
      · simp only [Executor.poll, hcall, hphase]
        exact h.awaitEvent hcall (by rw [hphase]; nofun) _
    | waiting =>
      have hmoves (hparked : (s.attempt call).1 ≠ .error .parked) :
          s.pollMoves i = s.requestMoves i call := by
        simp only [pollMoves, hcall, hphase]
      rcases poll_cases hcall (call.inProgress_of_waiting hphase) with ⟨hawaiting, -⟩ |
        ⟨-, ⟨hattempt, hpoll⟩ | ⟨x, hx, hattempt, hpoll⟩ | ⟨client, hattempt, hpoll⟩⟩
      · cases hphase.symm.trans hawaiting
      · refine ⟨c, ?_, by rwa [hpoll]⟩
        simp only [pollMoves, hcall, hphase, hattempt]
        rfl
      · have hparked : (s.attempt call).1 ≠ .error .parked := by
          rw [hattempt]
          simpa using hx
        obtain ⟨c', hrun, hsettled⟩ := h.request topicPathCapacity hcall hphase hparked
        refine ⟨c', by rw [hmoves hparked, hrun], ?_⟩
        rw [hpoll]
        exact hsettled _ _ (by rw [hattempt]; rfl) rfl nofun
      · have hparked : (s.attempt call).1 ≠ .error .parked := by
          rw [hattempt]
          nofun
        obtain ⟨c', hrun, hsettled⟩ := h.request topicPathCapacity hcall hphase hparked
        refine ⟨c', by rw [hmoves hparked, hrun], ?_⟩
        rw [hpoll]
        have hqueued : Refines ({ s with client }.requestAdded i) c' :=
          hsettled _ _ (by rw [hattempt]; rfl) rfl nofun
        exact hqueued.awaitEvent (calls_requestAdded (s := { s with client }) hcall) nofun _

variable (topicPathCapacity) in
/-- The first poll of a call that `c` knows already if it is one of the publishes that wait. -/
theorem begin_call {events : EventChannel} (request : Request) (id : Nat)
    (hsubscribe : s.events.subscribe s.calls.length = some events) (hclient : s.client.Alike c)
    (hwaiting : c.waiting.map (fun w => (w.1, w.2.id)) =
      s.waitingPublishes ++
        (ClientCall.waitingPublish ⟨request, ⟨id, s.calls.length⟩, .waiting, 0⟩).toList) :
    ∃ c', run (Client.next · topicPathCapacity) c (s.newCallMoves request id) = some c' ∧
      Refines (s.newCall request id) c' := by
  unfold newCallMoves newCall
  simp only [hsubscribe]
  refine Refines.poll (s := { s with events, calls := s.calls ++ [_] }) ⟨hclient, ?_⟩ _
  rw [hwaiting, waitingPublishes, waitingPublishes, List.filterMap_append]
  rfl

theorem Refines.newCall (h : Refines s c) {request : Request}
    (hrequest : ∀ message, request ≠ .publish message) (id : Nat) :
    ∃ c', run (Client.next · topicPathCapacity) c (s.newCallMoves request id) = some c' ∧
      Refines (s.newCall request id) c' := by
  cases hsubscribe : s.events.subscribe s.calls.length with
  | none =>
    refine ⟨c, ?_, ?_⟩
    · rw [newCallMoves, hsubscribe]
      rfl
    · rwa [Executor.newCall, hsubscribe]
  | some events =>
    refine begin_call topicPathCapacity request id hsubscribe h.client (h.waiting.trans ?_)
    cases request with
    | publish message => exact absurd rfl (hrequest message)
    | subscribe | unsubscribe => exact (List.append_nil _).symm

/-- A publish takes its pid, and then its call begins. -/
theorem Refines.publish (h : Refines s c) (topic payload : List UInt8) (qos : QoS) (retain : Bool)
    (id : Nat) :
    ∃ c', run (Client.next · topicPathCapacity) c (s.publishMoves topic payload qos retain id) =
        some c' ∧ Refines (s.publish topic payload qos retain id) c' := by
  cases hsubscribe : s.events.subscribe s.calls.length with
  | none =>
    refine ⟨c, ?_, ?_⟩
    · rw [publishMoves, hsubscribe]
      rfl
    · rwa [Executor.publish, hsubscribe]
  | some events =>
    obtain ⟨halike, hok, herror⟩ := h.client.publish topic payload qos retain id
    simp only [publishMoves, Executor.publish, hsubscribe]
    generalize s.client.callPublishes (State.newPublish topic payload qos retain) = o
      at halike hok herror
    obtain ⟨x | message, client⟩ := o
    · refine ⟨_, rfl, halike, ?_⟩
      exact (congrArg _ (herror x rfl)).trans h.waiting
    · have hwaiting : (c.publish topic payload qos retain id).2.waiting.map (fun w => (w.1, w.2.id)) =
          s.waitingPublishes ++ [(message, id)] := by
        rw [hok message rfl, List.map_append, h.waiting]
        rfl
      obtain ⟨c', hrun, hrefines⟩ := begin_call (s := { s with client }) topicPathCapacity
        (.publish message) id hsubscribe halike hwaiting
      exact ⟨c', run_cons_iff.mpr ⟨_, rfl, hrun⟩, hrefines⟩

theorem Refines.drop (h : Refines s c) (i : Nat) :
    ∃ c', run (Client.next · topicPathCapacity) c (s.dropMoves i) = some c' ∧
      Refines (s.drop i) c' := by
  cases hcall : s.calls[i]? with
  | none =>
    refine ⟨c, ?_, ?_⟩
    · rw [dropMoves, hcall]
      rfl
    · simpa only [Executor.drop, hcall, Option.map_none] using h
  | some call =>
    let ended (call : ClientCall) : ClientCall := { call with phase := .ended none }
    have hended : (ended call).phase ≠ .waiting := by simp [ended]
    cases hwaiting : call.waitingPublish with
    | none =>
      refine ⟨c, ?_, ?_⟩
      · rw [dropMoves, hcall, Option.bind_some, hwaiting]
        rfl
      · have hfinish : Refines (s.finish i none) c :=
          h.settled hcall hwaiting h.client rfl rfl hended
        simp only [Executor.drop, hcall, Option.map_some]
        split
        · exact hfinish
        · exact hfinish
        · exact h
    | some w =>
      obtain ⟨herase, -⟩ := filterMap_modify_none hcall hwaiting
        (waitingPublish_of_phase hended)
      refine ⟨{ c with waiting := c.waiting.eraseIdx (s.place i) }, ?_, ?_⟩
      · rw [dropMoves, hcall, Option.bind_some, hwaiting]
        rfl
      · have hphase : call.phase = .waiting := by
          by_contra hphase
          cases hwaiting.symm.trans (waitingPublish_of_phase hphase)
        simp only [Executor.drop, hcall, Option.map_some, hphase]
        refine ⟨h.client.rest _ _, ?_⟩
        rw [← List.eraseIdx_map, h.waiting]
        exact herase.symm

/-! ## The steps of the loop -/

theorem Refines.of_outcome {l : Client.Label} (h : Refines s c)
    (hclient : s'.client.Alike (c.outcome topicPathCapacity l).2)
    (hwaiting : (c.outcome topicPathCapacity l).2.waiting = c.waiting) (hcalls : s'.calls = s.calls) :
    ∃ c', run (Client.next · topicPathCapacity) c [l] = some c' ∧ Refines s' c' := by
  refine ⟨_, rfl, hclient, ?_⟩
  rw [hwaiting, h.waiting, waitingPublishes, waitingPublishes, hcalls]

theorem Refines.process (h : Refines s c) (packet : Packet) (ticks : List Duration)
    (hcalls : (s.process packet ticks).calls = s.calls) :
    ∃ c', run (Client.next · topicPathCapacity) c (processMoves packet ticks) = some c' ∧
      Refines (s.process packet ticks) c' := by
  have hclient := @process_client _ _ _ s topicPathCapacity packet ticks
  have hscripted : (s.client.scripted [] ticks).Alike c :=
    ⟨h.client.publishes, h.client.receives, h.client.subscribes, h.client.ping, h.client.env,
      h.client.autoSubscribe⟩
  by_cases hpacket : packet = .pingresp
  · subst hpacket
    refine ⟨_, run_cons_iff.mpr ⟨_, rfl, rfl⟩, ?_, ?_⟩
    · rw [hclient, Client.outcome_sendPing_refused]
      refine ⟨h.client.publishes, h.client.receives, h.client.subscribes, ?_, ?_,
        h.client.autoSubscribe⟩
      · exact congrArg (fun t : Instant => PingStateInner.pingSuccess (t + ticks.headD 0)) h.client.env.now_eq
      · exact congrArg (fun e : Env => { e with now := e.now + ticks.headD 0 }) h.client.env
    · rw [Client.outcome_sendPing_refused]
      exact h.waiting.trans (congrArg (List.filterMap ClientCall.waitingPublish) hcalls.symm)
  · have hmoves : processMoves packet ticks = [.receive packet] := by
      cases packet with
      | pingresp => exact absurd rfl hpacket
      | _ => rfl
    rw [hmoves]
    refine h.of_outcome (l := .receive packet) ?_ ?_ hcalls
    · rw [hclient]
      exact hscripted.receive hpacket
    · cases packet <;> rfl

theorem Refines.loopStep (h : Refines s c) {l : LoopLabel}
    (hstep : s.loopStep topicPathCapacity l = some s') :
    ∃ c', run (Client.next · topicPathCapacity) c (s.loopMoves l) = some c' ∧ Refines s' c' := by
  have hcalls := (loopStep_calls hstep).1
  cases l with
  | connectFails e =>
    obtain ⟨-, rfl⟩ := whenAt_eq_some_iff.mp hstep
    exact ⟨c, rfl, h.of_eq rfl rfl⟩
  | autoSubscribe =>
    obtain ⟨-, rfl⟩ := whenAt_eq_some_iff.mp hstep
    obtain ⟨halike, hwaiting⟩ := h.client.autoSubscribeChunk
    refine h.of_outcome (l := .autoSubscribe) ?_ hwaiting hcalls
    split <;> rw [‹s.client.autoSubscribeChunk = _›] at halike <;> exact halike
  | autoSubscribed =>
    obtain ⟨-, rfl⟩ := whenAt_eq_some_iff.mp hstep
    exact h.of_outcome (l := .autoSubscribed) ⟨h.client.publishes, h.client.receives,
      h.client.subscribes, h.client.ping, h.client.env, rfl⟩ rfl rfl
  | suspend =>
    simp only [Executor.loopStep] at hstep
    split at hstep
    · split at hstep
      · cases hstep
        exact ⟨c, rfl, h.of_eq rfl rfl⟩
      · cases hstep
    · cases hstep
  | sendPublishes answers ticks =>
    obtain ⟨-, rfl⟩ := whenAt_eq_some_iff.mp hstep
    refine h.of_outcome (l := .sendPublishes answers ticks) ?_ rfl hcalls
    rw [Executor.sendPublishes, hold_client]
    exact h.client.sendPublishes answers ticks
  | emit =>
    obtain ⟨event, rest, locked, -, ⟨-, rfl⟩ | ⟨events, -, rfl⟩⟩ := emit_cases hstep
    · exact ⟨c, rfl, h.of_eq rfl rfl⟩
    · exact ⟨c, rfl, h.of_eq hold_client hold_calls⟩
  | sendReceives answers =>
    obtain ⟨-, rfl⟩ := whenAt_eq_some_iff.mp hstep
    exact h.of_outcome (l := .sendReceives answers) (h.client.sendReceives answers) rfl rfl
  | sendSubscribes answers ticks =>
    obtain ⟨-, rfl⟩ := whenAt_eq_some_iff.mp hstep
    exact h.of_outcome (l := .sendSubscribes answers ticks) (h.client.sendSubscribes answers ticks) rfl
      rfl
  | sendPing answers ticks =>
    obtain ⟨-, rfl⟩ := whenAt_eq_some_iff.mp hstep
    exact h.of_outcome (l := .sendPing answers ticks) (h.client.sendPing answers ticks) rfl rfl
  | runIoNonblocking outcome =>
    obtain ⟨-, rfl⟩ := whenAt_eq_some_iff.mp hstep
    refine ⟨c, rfl, ?_⟩
    split <;> exact h.of_eq rfl rfl
  | select ready =>
    obtain ⟨-, rfl⟩ := whenAt_eq_some_iff.mp hstep
    exact ⟨c, rfl, h.of_eq (select_client ready) hcalls⟩
  | process ticks =>
    simp only [Executor.loopStep] at hstep
    split at hstep
    · rename_i packet hloop
      cases hstep
      rw [loopMoves, hloop]
      exact h.process packet ticks hcalls
    · cases hstep

theorem Refines.clientStep (h : Refines s c) (l : ClientLabel) :
    ∃ c', run (Client.next · topicPathCapacity) c (s.clientMoves l) = some c' ∧
      Refines (s.clientStep l) c' := by
  cases l with
  | publish topic payload qos retain id => exact h.publish topic payload qos retain id
  | subscribe topic qos id => exact h.newCall (by rintro message ⟨⟩) id
  | unsubscribe topic id => exact h.newCall (by rintro message ⟨⟩) id
  | poll i => exact h.poll i
  | drop i => exact h.drop i
  | disconnect => exact ⟨c, rfl, h.of_eq rfl rfl⟩

/-- Each step of the executor is followed by the client. -/
theorem simulates (topicPathCapacity : Nat) :
    Simulates (next · topicPathCapacity) (Client.next · topicPathCapacity) moves
      (Refines : Executor QUEUE BUFFER TOPIC → Client QUEUE BUFFER TOPIC → Prop) := by
  intro s c l s' h hnext
  rcases next_cases hnext with ⟨rfl, -, -, rfl⟩ | ⟨rfl, -, rfl⟩ | ⟨m, rfl, -, hstep⟩ |
    ⟨m, rfl, -, rfl⟩
  · exact ⟨c, rfl, h.of_eq rfl rfl⟩
  · exact ⟨c, rfl, h.of_eq rfl rfl⟩
  · exact h.loopStep hstep
  · exact h.clientStep m

theorem refines_new : Refines (new : Executor QUEUE BUFFER TOPIC) .new := ⟨.refl _, rfl⟩

/-- Every run of the event loop with its clients is a run of the client. -/
theorem refines_client {ls : List Label} (hr : run (next · topicPathCapacity) new ls = some s) :
    ∃ c : Client QUEUE BUFFER TOPIC,
      run (Client.next · topicPathCapacity) .new
          (followed (next · topicPathCapacity) moves (new : Executor QUEUE BUFFER TOPIC) ls) = some c ∧
        Refines s c :=
  (simulates topicPathCapacity).follows refines_new hr

/-- The second request waits for room, so that the third one is the second one that is made. -/
def overtaken : List Label :=
  [.client (.subscribe [97] .atMostOnce 0), .client (.subscribe [98] .atMostOnce 1),
    .client (.publish [97] [7] .atLeastOnce false 2), .wake, .loop (.sendPublishes [.ok true] [])]

theorem refines_client_on_overtaken : ∃ (s : Executor 1 16 16) (c : Client 1 16 16),
    run (next · 16) new overtaken = some s ∧
      run (Client.next · 16) .new
          (followed (next · 16) moves (new : Executor 1 16 16) overtaken) = some c ∧
      s.client.publishes.awaitPuback.toList.map (·.publish.uniqueId) = [⟨2, 2⟩] ∧
      c.publishes.awaitPuback.toList.map (·.publish.uniqueId) = [⟨2, 1⟩] ∧ Refines s c := by
  have hs : (run (next · 16) (new : Executor 1 16 16) overtaken).map
      (·.client.publishes.awaitPuback.toList.map (·.publish.uniqueId)) = some [⟨2, 2⟩] := by
    decide +kernel
  have hc : (run (Client.next · 16) (.new : Client 1 16 16)
      (followed (next · 16) moves (new : Executor 1 16 16) overtaken)).map
      (·.publishes.awaitPuback.toList.map (·.publish.uniqueId)) = some [⟨2, 1⟩] := by
    decide +kernel
  obtain ⟨s, hrun, hids⟩ := Option.map_eq_some_iff.mp hs
  obtain ⟨c, hfollowed, hrefines⟩ := refines_client hrun
  rw [hfollowed] at hc
  exact ⟨s, c, hrun, hfollowed, hids, Option.some.inj hc, hrefines⟩

/-! ## What carries over -/

/-- The pids of the exchanges, of the publishes whose calls wait for room and of the connection's own
subscription. -/
def pids (s : Executor QUEUE BUFFER TOPIC) : List Pid :=
  s.client.publishes.pids ++ s.client.subscribes.pids ++
    s.waitingPublishes.filterMap (·.1.qospid.pid) ++ s.client.autoSubscribe.toList

theorem Refines.pids_eq (h : Refines s c) : s.pids = c.pids := by
  have hpublishes (q : PublishesInner QUEUE BUFFER TOPIC) :
      (q.rename UniqueID.plain).pids = q.pids := by
    have hpubrel (a : SendPubrel) : (a.rename UniqueID.plain).ownPid = a.ownPid := by
      obtain ⟨pid, _ | u⟩ := a <;> rfl
    simp only [PublishesInner.pids, PublishesInner.rename, BoundedVec.toList_map, List.map_map,
      List.filterMap_map, Function.comp_def, hpubrel]
    rfl
  have hsubscribes (q : SubsInner TOPIC QUEUE) : (q.rename UniqueID.plain).pids = q.pids := by
    simp only [SubsInner.pids, SubsInner.rename, BoundedVec.toList_map, List.map_map]
    rfl
  rw [pids, Client.pids, ← hpublishes, h.client.publishes, hpublishes, ← hsubscribes,
    h.client.subscribes, hsubscribes, h.client.autoSubscribe, ← h.waiting, List.filterMap_map]
  rfl

/-- No pid is in use twice, or in use and free, whatever the tasks do. -/
theorem pool_sound {ls : List Label} (hr : run (next · topicPathCapacity) new ls = some s) :
    s.client.env.pool.Sound fun p => s.pids.count p := by
  let I (c : Client QUEUE BUFFER TOPIC) : Prop := c.env.pool.Sound c.uses
  let J (s : Executor QUEUE BUFFER TOPIC) : Prop := s.client.env.pool.Sound fun p => s.pids.count p
  have hIJ : ∀ s c, Refines s c → I c → J s := by
    intro s c h hsound
    have huses : c.uses = fun p => s.pids.count p := funext fun p => by
      rw [h.pids_eq, Client.count_pids]
    have hpool : s.client.env.pool = c.env.pool := h.client.env.pool_eq
    change s.client.env.pool.Sound _
    rw [hpool, ← huses]
    exact hsound
  exact (simulates topicPathCapacity).transfer (P := I) (Q := J) refines_new
    (fun _ _ => Client.sound_run) hIJ hr

end

end Executor

end EmbeddedMqttc
