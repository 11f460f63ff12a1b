import EmbeddedMqttc.Sub
import EmbeddedMqttc.Library.Run

/-!
# The results of subscriptions

The calls of `Subs` in any order, with any packets and any answers of the connection. A request is in one
of the two queues or has been answered, once, by a packet of its own kind. What the answer says is another
matter: `check_suback` compares the return codes with the topics as far as there are both, so that a
SUBACK with too few codes and no failure among them reads as a success.
-/

namespace EmbeddedMqttc

open Prog EmbeddedMqttc.Comp Run

variable {TOPIC QUEUE : Nat}

/-! ## What a SUBACK says -/

/-- The result that `check_suback` reports. -/
def subackResult (expectedQos : QoS) :
    List SubscribeReturnCodes → List (BoundedVec UInt8 TOPIC) → Except MqttError QoS
  | .success _ :: returnCodes, _ :: topics => subackResult expectedQos returnCodes topics
  | .failure :: _, _ :: _ => .error .subscribeOrUnsubscribeFailed
  | _, _ => .ok expectedQos

/-- There is a success code for every topic. -/
def AllSucceeded (returnCodes : List SubscribeReturnCodes) (topics : Nat) : Prop :=
  ∀ i < topics, ∃ qos, returnCodes[i]? = some (.success qos)

theorem subackResult_ok {expectedQos qos : QoS} {returnCodes : List SubscribeReturnCodes}
    {topics : List (BoundedVec UInt8 TOPIC)} (h : subackResult expectedQos returnCodes topics = .ok qos)
    (hcodes : topics.length ≤ returnCodes.length ∨ .failure ∈ returnCodes) :
    AllSucceeded returnCodes topics.length := by
  induction returnCodes generalizing topics with
  | nil =>
    rcases hcodes with hle | hfailure
    · intro i hi
      exact absurd hi (Nat.not_lt_of_le (Nat.le_trans hle (Nat.zero_le i)))
    · cases hfailure
  | cons code codes ih =>
    cases topics with
    | nil => exact fun i hi => absurd hi (Nat.not_lt_zero i)
    | cons topic topics =>
      cases code with
      | failure => cases h
      | success qos' =>
        have hcodes' : topics.length ≤ codes.length ∨ .failure ∈ codes := by
          rcases hcodes with hle | hfailure
          · exact .inl (Nat.le_of_succ_le_succ hle)
          · exact .inr (List.mem_of_ne_of_mem (by exact nofun) hfailure)
        intro i hi
        cases i with
        | zero => exact ⟨qos', rfl⟩
        | succ i => exact ih h hcodes' i (Nat.lt_of_succ_lt_succ hi)

/-- With too few codes and no failure among them the result is a success. -/
theorem subackResult_of_short {returnCodes : List SubscribeReturnCodes}
    {topics : List (BoundedVec UInt8 TOPIC)} (expectedQos : QoS) (hfailure : .failure ∉ returnCodes) :
    subackResult expectedQos returnCodes topics = .ok expectedQos := by
  induction returnCodes generalizing topics with
  | nil => cases topics <;> rfl
  | cons code codes ih =>
    cases code with
    | failure => exact absurd List.mem_cons_self hfailure
    | success qos =>
      cases topics with
      | nil => rfl
      | cons topic topics => exact ih fun h => hfailure (List.mem_cons_of_mem _ h)

theorem not_allSucceeded_of_short {returnCodes : List SubscribeReturnCodes} {topics : Nat}
    (h : returnCodes.length < topics) : ¬AllSucceeded returnCodes topics := by
  intro hall
  obtain ⟨qos, hcode⟩ := hall returnCodes.length h
  rw [List.getElem?_eq_none (Nat.le_refl _)] at hcode
  cases hcode

namespace SubsInner

variable {c c' : Ctx (SubsInner TOPIC QUEUE)} {topicPathCapacity : Nat}

theorem checkSuback_result (qos : QoS) (uniqueId : UniqueID)
    (returnCodes : List SubscribeReturnCodes) (topics : List (BoundedVec UInt8 TOPIC))
    (c : Ctx (SubsInner TOPIC QUEUE)) :
    (checkSuback qos uniqueId returnCodes topics).exec c =
      (.ok ⟨⟩,
        { c with
          env := c.env.emitted
            (.subscribeDone uniqueId (subackResult qos returnCodes topics)) }) := by
  induction returnCodes generalizing topics with
  | nil => rfl
  | cons code codes ih =>
    cases topics with
    | nil => cases code <;> rfl
    | cons topic topics =>
      cases code with
      | success _ => exact ih topics
      | failure => rfl

/-- The request that a SUBACK answers. -/
def answeredBy (q : SubsInner TOPIC QUEUE) (suback : Suback) : Option (AwaitAck TOPIC) :=
  (q.awaitAck.position fun a =>
    a.request.pid == suback.pid && !a.request.requestType.isUnsub).bind q.awaitAck.get?

theorem onSuback_none {suback : Suback} (h : c.inner.answeredBy suback = none) :
    (onSuback suback).exec c = (.ok ⟨⟩, c) := by
  cases hpos : c.inner.awaitAck.position fun a =>
      a.request.pid == suback.pid && !a.request.requestType.isUnsub with
  | none =>
    rw [onSuback, exec_get_bind, hpos]
    rfl
  | some i =>
    obtain ⟨entry, hi, -⟩ := BoundedVec.get?_of_position hpos
    rw [answeredBy, hpos, Option.bind_some, hi] at h
    cases h

theorem onSuback_some {suback : Suback} {entry : AwaitAck TOPIC}
    (h : c.inner.answeredBy suback = some entry) :
    ∃ i qos, c.inner.awaitAck.get? i = some entry ∧ entry.request.requestType = .subscribe qos ∧
      (onSuback suback).exec c =
        (.ok ⟨⟩,
          { inner := { c.inner with awaitAck := c.inner.awaitAck.removeAt i }
            env := (c.env.freed suback.pid).emitted (.subscribeDone entry.request.uniqueId
              (subackResult qos suback.returnCodes entry.request.topics.toList)) }) := by
  obtain ⟨i, hpos, hi⟩ := Option.bind_eq_some_iff.mp h
  obtain ⟨entry', hi', hentry⟩ := BoundedVec.get?_of_position hpos
  cases hi.symm.trans hi'
  simp only [Bool.and_eq_true, beq_iff_eq, Bool.not_eq_true'] at hentry
  obtain ⟨hpid, hsub⟩ := hentry
  cases htype : entry.request.requestType with
  | unsubscribe =>
    rw [htype] at hsub
    cases hsub
  | subscribe qos =>
    refine ⟨i, qos, hi, rfl, ?_⟩
    rw [onSuback, exec_get_bind, hpos]
    simp only [hi, htype, exec_unwrap_some_bind, freePid_bind_exec, modifyInner_bind_exec]
    exact checkSuback_result ..

/-! ## The requests in the queues -/

def requests (q : SubsInner TOPIC QUEUE) : List (SubRequest TOPIC) :=
  q.sendRequest.toList ++ q.awaitAck.toList.map (·.request)

/-- A send pass moves requests from one queue to the other and emits nothing. -/
theorem requests_move (h : Move topicPathCapacity c c') :
    c'.inner.requests.Perm c.inner.requests ∧ c'.env.events = c.env.events := by
  cases h with
  | asked => exact ⟨.refl _, rfl⟩
  | read => exact ⟨.refl _, rfl⟩
  | request hpop hpacket hpush =>
    refine ⟨?_, rfl⟩
    have hacks := (BoundedVec.perm_push hpush).map (·.request)
    rw [requests, requests, BoundedVec.popFront_eq_some_iff.mp hpop]
    exact (hacks.append_left _).trans List.perm_middle
  | resend hi hdue hpacket =>
    refine ⟨List.Perm.append_left _ (.of_eq ?_), rfl⟩
    exact BoundedVec.map_modifyAt fun _ => rfl

theorem requests_removeAt {q : SubsInner TOPIC QUEUE} {i : Nat} {entry : AwaitAck TOPIC}
    (hi : q.awaitAck.get? i = some entry) :
    (entry.request :: requests { q with awaitAck := q.awaitAck.removeAt i }).Perm q.requests := by
  have hacks := (BoundedVec.perm_removeAt hi).map (·.request)
  exact List.perm_middle.symm.trans (hacks.append_left _)

theorem requests_push {q : SubsInner TOPIC QUEUE} {request : SubRequest TOPIC}
    {rest : BoundedVec (SubRequest TOPIC) QUEUE} (hpush : q.sendRequest.push request = some rest) :
    (requests { q with sendRequest := rest }).Perm (request :: q.requests) :=
  (BoundedVec.perm_push hpush).append_right _

theorem requests_send :
    ((send topicPathCapacity).exec c).2.inner.requests.Perm c.inner.requests ∧
      ((send topicPathCapacity).exec c).2.env.events = c.env.events := by
  let I (c' : Ctx (SubsInner TOPIC QUEUE)) : Prop :=
    c'.inner.requests.Perm c.inner.requests ∧ c'.env.events = c.env.events
  have hstep : ∀ c₁ c₂, Move topicPathCapacity c₁ c₂ → I c₁ → I c₂ := by
    intro c₁ c₂ hmove hc
    obtain ⟨hperm, hevents⟩ := requests_move hmove
    exact ⟨hperm.trans hc.1, hevents.trans hc.2⟩
  exact send_moves.invariant (I := I) hstep ⟨.refl _, rfl⟩

/-! ## Requests and their answers -/

inductive Op where
  | request (requestType : RequestType) (topics : List (List UInt8)) (id : Nat)
  | send (answers : List (Except MqttError Bool)) (ticks : List Duration)
  | suback (suback : Suback)
  | unsuback (pid : Pid)

def Op.packet : Op → Option Packet
  | .suback response => some (.suback response)
  | .unsuback pid => some (.unsuback pid)
  | _ => none

/-- A component and, as history, the requests that it has accepted and the completion events with the
packets that brought them. -/
structure Books (TOPIC QUEUE : Nat) where
  ctx : Ctx (SubsInner TOPIC QUEUE)
  accepted : List (SubRequest TOPIC)
  answered : List (MqttEvent × Option Packet)
  deriving DecidableEq

namespace Books

def new : Books TOPIC QUEUE where
  ctx := { inner := .new, env := .new }
  accepted := []
  answered := []

variable (topicPathCapacity : Nat) (s : Books TOPIC QUEUE)

/-- The state that a call leaves, whether it returns, fails, panics or waits. -/
def outcome : Op → Ctx (SubsInner TOPIC QUEUE)
  | .request requestType topics id =>
    ((addRequest requestType topics ⟨id, s.accepted.length⟩).exec s.ctx).2
  | .send answers ticks =>
    ((SubsInner.send topicPathCapacity).exec
      { s.ctx with env := { s.ctx.env with answers, ticks } }).2
  | .suback suback => ((onSuback suback).exec s.ctx).2
  | .unsuback pid => ((onUnsuback pid).exec s.ctx).2

/-- The requests that a call has put in the queue. -/
def accepts : Op → Ctx (SubsInner TOPIC QUEUE) → List (SubRequest TOPIC)
  | .request .., ctx => ctx.inner.sendRequest.toList.drop s.ctx.inner.sendRequest.len
  | _, _ => []

def next (op : Op) : Option (Books TOPIC QUEUE) :=
  let ctx := s.outcome topicPathCapacity op
  some
    { ctx
      accepted := s.accepted ++ s.accepts op ctx
      answered := s.answered ++
        (ctx.env.events.drop s.ctx.env.events.length).map fun event => (event, op.packet) }

/-- The event is one for an accepted request of the kind that the packet answers, and a success only if
the packet has a success code for every topic of the request. -/
def Fits (accepted : List (SubRequest TOPIC)) : MqttEvent × Option Packet → Prop
  | (.subscribeDone uniqueId result, some (.suback suback)) =>
    ∃ request ∈ accepted, request.uniqueId = uniqueId ∧ request.requestType.isUnsub = false ∧
      ((∃ qos, result = .ok qos) → AllSucceeded suback.returnCodes request.topics.len)
  | (.unsubscribeDone uniqueId, some (.unsuback _)) =>
    ∃ request ∈ accepted, request.uniqueId = uniqueId ∧ request.requestType.isUnsub = true
  | _ => False

structure Right : Prop where
  once : (s.answered.map (·.1.uniqueId.request)).Nodup
  fits : ∀ answer ∈ s.answered, Fits s.accepted answer

/-- A SUBACK has a code for every topic of the request that it answers, or a failure. -/
def EnoughCodes : Op → Prop
  | .suback suback => ∀ entry ∈ s.ctx.inner.answeredBy suback,
      entry.request.topics.len ≤ suback.returnCodes.length ∨ .failure ∈ suback.returnCodes
  | _ => True

instance (op : Op) : Decidable (s.EnoughCodes op) := by
  unfold EnoughCodes
  split <;> infer_instance

variable {topicPathCapacity s} {s' : Books TOPIC QUEUE} {op : Op}

/-- What a call can do. -/
theorem next_cases (h : s.next topicPathCapacity op = some s') :
    (∃ request rest pool, s.ctx.inner.sendRequest.push request = some rest ∧
      request.uniqueId.request = s.accepted.length ∧
      s' = { s with
        ctx :=
          { inner := { s.ctx.inner with sendRequest := rest }
            env := { s.ctx.env with pool } }
        accepted := s.accepted ++ [request] }) ∨
    (∃ ctx : Ctx (SubsInner TOPIC QUEUE), ctx.inner.requests.Perm s.ctx.inner.requests ∧
      s' = { s with ctx }) ∨
    (∃ suback i entry qos env, op = .suback suback ∧ s.ctx.inner.answeredBy suback = some entry ∧
      s.ctx.inner.awaitAck.get? i = some entry ∧ entry.request.requestType = .subscribe qos ∧
      s' = { s with
        ctx := { inner := { s.ctx.inner with awaitAck := s.ctx.inner.awaitAck.removeAt i }, env }
        answered := s.answered ++ [(.subscribeDone entry.request.uniqueId
          (subackResult qos suback.returnCodes entry.request.topics.toList),
          some (.suback suback))] }) ∨
    ∃ pid i entry env, op = .unsuback pid ∧ s.ctx.inner.awaitAck.get? i = some entry ∧
      entry.request.requestType = .unsubscribe ∧
      s' = { s with
        ctx := { inner := { s.ctx.inner with awaitAck := s.ctx.inner.awaitAck.removeAt i }, env }
        answered := s.answered ++ [(.unsubscribeDone entry.request.uniqueId,
          some (.unsuback pid))] } := by
  cases h
  cases op with
  | request requestType topics id =>
    rcases addRequest_cases s.ctx requestType topics ⟨id, s.accepted.length⟩ with
      ⟨x, h⟩ | ⟨request, rest, pool, -, hid, -, hpush, h⟩
    · refine .inr (.inl ⟨s.ctx, .refl _, ?_⟩)
      simp [outcome, accepts, h, BoundedVec.len]
    · refine .inl ⟨request, rest, pool, hpush, by rw [hid], ?_⟩
      simp [outcome, accepts, h, BoundedVec.len, (BoundedVec.push_eq_some_iff.mp hpush).2]
  | send answers ticks =>
    obtain ⟨hperm, hevents⟩ := @requests_send _ _ { s.ctx with env := { s.ctx.env with answers, ticks } }
      topicPathCapacity
    refine .inr (.inl ⟨_, hperm, ?_⟩)
    simp [outcome, accepts, hevents]
  | suback suback =>
    cases hanswered : s.ctx.inner.answeredBy suback with
    | none =>
      refine .inr (.inl ⟨s.ctx, .refl _, ?_⟩)
      simp [outcome, accepts, onSuback_none hanswered]
    | some entry =>
      obtain ⟨i, qos, hi, htype, h⟩ := onSuback_some hanswered
      refine .inr (.inr (.inl ⟨suback, i, entry, qos,
        (s.outcome topicPathCapacity (.suback suback)).env, rfl, hanswered, hi, htype, ?_⟩))
      simp [outcome, accepts, h, Op.packet]
  | unsuback pid =>
    rcases onUnsuback_cases pid s.ctx with h | ⟨i, entry, hi, -, htype, h⟩
    · refine .inr (.inl ⟨s.ctx, .refl _, ?_⟩)
      simp [outcome, accepts, h]
    · refine .inr (.inr (.inr ⟨pid, i, entry, (s.outcome topicPathCapacity (.unsuback pid)).env, rfl,
        hi, htype, ?_⟩))
      simp [outcome, accepts, h, Op.packet]

/-- Every accepted request is in one of the queues or has been answered, once. -/
structure Accounted (s : Books TOPIC QUEUE) : Prop where
  numbered : s.accepted.map (·.uniqueId.request) = List.range s.accepted.length
  queued : ∀ request ∈ s.ctx.inner.requests, request ∈ s.accepted
  places : (s.ctx.inner.requests.map (·.uniqueId) ++ s.answered.map (·.1.uniqueId)).Perm
    (s.accepted.map (·.uniqueId))

theorem new_accounted : (new : Books TOPIC QUEUE).Accounted :=
  ⟨rfl, nofun, .nil⟩

theorem Accounted.answer (h : s.Accounted) {i : Nat} {entry : AwaitAck TOPIC}
    (hi : s.ctx.inner.awaitAck.get? i = some entry) {event : MqttEvent}
    (hevent : event.uniqueId = entry.request.uniqueId) (env : Env) (packet : Option Packet) :
    Accounted
      { s with
        ctx := { inner := { s.ctx.inner with awaitAck := s.ctx.inner.awaitAck.removeAt i }, env }
        answered := s.answered ++ [(event, packet)] } := by
  have hperm := requests_removeAt hi
  refine ⟨h.numbered, fun request hrequest => ?_, ?_⟩
  · exact h.queued request (hperm.mem_iff.mp (List.mem_cons_of_mem _ hrequest))
  · refine List.Perm.trans ?_ h.places
    have hmoved := (hperm.map (·.uniqueId)).append_right (s.answered.map (·.1.uniqueId))
    rw [List.map_append, List.map_singleton, hevent, ← List.append_assoc]
    exact (List.perm_append_singleton _ _).trans hmoved

theorem Accounted.next (h : s.Accounted) (hstep : s.next topicPathCapacity op = some s') :
    s'.Accounted := by
  rcases next_cases hstep with ⟨request, rest, pool, hpush, hnumber, rfl⟩ | ⟨ctx, hperm, rfl⟩ |
    ⟨suback, i, entry, qos, env, -, -, hi, -, rfl⟩ | ⟨pid, i, entry, env, -, hi, -, rfl⟩
  · have hperm := requests_push hpush
    refine ⟨?_, fun r hr => ?_, ?_⟩
    · rw [List.map_append, List.map_singleton, h.numbered, hnumber, List.length_append,
        List.length_singleton, List.range_succ]
    · rcases List.mem_cons.mp (hperm.mem_iff.mp hr) with rfl | hr
      · exact List.mem_append_right _ List.mem_cons_self
      · exact List.mem_append_left _ (h.queued r hr)
    · have hqueues := (hperm.map (·.uniqueId)).append_right (s.answered.map (·.1.uniqueId))
      rw [List.map_append, List.map_singleton]
      exact hqueues.trans ((h.places.cons _).trans (List.perm_append_singleton _ _).symm)
  · refine ⟨h.numbered, fun r hr => h.queued r (hperm.mem_iff.mp hr), ?_⟩
    exact ((hperm.map _).append_right _).trans h.places
  · exact h.answer hi rfl env _
  · exact h.answer hi rfl env _

/-- No request is answered twice. -/
theorem Accounted.once (h : s.Accounted) : (s.answered.map (·.1.uniqueId.request)).Nodup := by
  have hnumbers := h.places.map (·.request)
  rw [List.map_map, List.map_append, List.map_map, List.map_map] at hnumbers
  have hnodup := (hnumbers.trans (.of_eq h.numbered)).nodup_iff.mpr List.nodup_range
  exact (List.nodup_append.mp hnodup).2.1

theorem Accounted.eq_of_uniqueId (h : s.Accounted) {r r' : SubRequest TOPIC} (hr : r ∈ s.accepted)
    (hr' : r' ∈ s.accepted) (hid : r.uniqueId = r'.uniqueId) : r = r' := by
  have hnodup : (s.accepted.map (·.uniqueId.request)).Nodup := by
    rw [h.numbered]
    exact List.nodup_range
  exact List.inj_on_of_nodup_map hnodup hr hr' (congrArg UniqueID.request hid)

/-! ## The verdicts -/

theorem Fits.mono {accepted accepted' : List (SubRequest TOPIC)} {answer : MqttEvent × Option Packet}
    (h : Fits accepted answer) (hsub : accepted ⊆ accepted') : Fits accepted' answer := by
  unfold Fits at h
  split at h
  · obtain ⟨request, hrequest, hrest⟩ := h
    exact ⟨request, hsub hrequest, hrest⟩
  · obtain ⟨request, hrequest, hrest⟩ := h
    exact ⟨request, hsub hrequest, hrest⟩
  · exact h.elim

/-- With enough codes what a call adds to the answers fits. -/
theorem Right.next (hs : s.Accounted) (h : s.Right) (hcodes : s.EnoughCodes op)
    (hstep : s.next topicPathCapacity op = some s') : s'.Right := by
  refine ⟨(hs.next hstep).once, ?_⟩
  have hqueued {i : Nat} {entry : AwaitAck TOPIC} (hi : s.ctx.inner.awaitAck.get? i = some entry) :
      entry.request ∈ s.accepted := by
    apply hs.queued
    exact List.mem_append_right _ (List.mem_map_of_mem (BoundedVec.mem_of_get? hi))
  rcases next_cases hstep with ⟨request, rest, pool, -, -, rfl⟩ | ⟨ctx, -, rfl⟩ |
    ⟨response, i, entry, qos, env, rfl, hanswered, hi, htype, rfl⟩ |
    ⟨pid, i, entry, env, -, hi, htype, rfl⟩
  · exact fun answer hanswer => (h.fits answer hanswer).mono (List.subset_append_left ..)
  · exact h.fits
  · intro answer hanswer
    rcases List.mem_append.mp hanswer with hold | hnew
    · exact h.fits answer hold
    · cases List.mem_singleton.mp hnew
      refine ⟨entry.request, hqueued hi, rfl, by rw [htype]; rfl, fun ⟨qos', hok⟩ => ?_⟩
      exact subackResult_ok hok (hcodes entry hanswered)
  · intro answer hanswer
    rcases List.mem_append.mp hanswer with hold | hnew
    · exact h.fits answer hold
    · cases List.mem_singleton.mp hnew
      exact ⟨entry.request, hqueued hi, rfl, by rw [htype]; rfl⟩

/-- With too few codes the success that is reported does not fit. -/
theorem enoughCodes_of_right (hs : s.Accounted) (hstep : s.next topicPathCapacity op = some s')
    (h : s'.Right) : s.EnoughCodes op := by
  unfold EnoughCodes
  split
  case h_2 => trivial
  rename_i response
  intro entry hentry
  by_contra hshort
  obtain ⟨hlt, hfailure⟩ := not_or.mp hshort
  obtain ⟨i, qos, hi, htype, hexec⟩ := onSuback_some hentry
  have hanswer : (.subscribeDone entry.request.uniqueId
      (subackResult qos response.returnCodes entry.request.topics.toList),
      some (.suback response)) ∈ s'.answered := by
    cases hstep
    apply List.mem_append_right
    simp [outcome, hexec, Op.packet]
  obtain ⟨request, hrequest, hid, -, hall⟩ := h.fits _ hanswer
  have hentryAccepted : entry.request ∈ s'.accepted := by
    have haccepted := hs.queued entry.request
      (List.mem_append_right _ (List.mem_map_of_mem (BoundedVec.mem_of_get? hi)))
    cases hstep
    exact List.mem_append_left _ haccepted
  obtain rfl := (hs.next hstep).eq_of_uniqueId hrequest hentryAccepted hid
  have hsucceeded := hall ⟨qos, subackResult_of_short qos hfailure⟩
  exact not_allSucceeded_of_short (Nat.lt_of_not_le hlt) hsucceeded

/-! ## Runs -/

theorem new_right : (new : Books TOPIC QUEUE).Right where
  once := List.nodup_nil
  fits _ h := absurd h List.not_mem_nil

/-- In every run, at every point each request has been answered at most once, a subscription by a SUBACK
and the end of one by an UNSUBACK, and with a success only if there was a success code for every topic,
if and only if no SUBACK has fewer codes than the request it answers has topics unless it has a failure
among them. -/
theorem results_right_iff (ls : List Op) :
    (∀ ms (t : Books TOPIC QUEUE), ms <+: ls →
        run (fun s op => s.next topicPathCapacity op) new ms = some t → t.Right) ↔
      AllSteps (fun s op => s.next topicPathCapacity op) EnoughCodes (new : Books TOPIC QUEUE) ls := by
  constructor
  · intro h
    suffices hsuffices : ∀ s : Books TOPIC QUEUE, s.Accounted →
        (∀ ms t, ms <+: ls → run (fun s op => s.next topicPathCapacity op) s ms = some t → t.Right) →
        AllSteps (fun s op => s.next topicPathCapacity op) EnoughCodes s ls from
      hsuffices new new_accounted h
    clear h
    induction ls with
    | nil => exact fun _ _ _ => trivial
    | cons op ls ih =>
      intro s hs h
      refine ⟨?_, fun s' hstep => ?_⟩
      · have hone : [op] <+: op :: ls := ⟨ls, rfl⟩
        obtain ⟨s', hstep⟩ : ∃ s', s.next topicPathCapacity op = some s' := ⟨_, rfl⟩
        have hright := h [op] s' hone (run_cons_iff.mpr ⟨s', hstep, run_nil⟩)
        exact enoughCodes_of_right hs hstep hright
      · refine ih s' (hs.next hstep) fun ms t hms hrun => ?_
        refine h (op :: ms) t ?_ (run_cons_iff.mpr ⟨s', hstep, hrun⟩)
        obtain ⟨rest, rfl⟩ := hms
        exact ⟨rest, rfl⟩
  · intro hcodes ms t hms hrun
    obtain ⟨rest, rfl⟩ := hms
    have hms := (hcodes.append hrun).1
    have hinv := hms.invariant (I := fun s => s.Accounted ∧ s.Right)
      (fun s op s' hs hop hstep => ⟨hs.1.next hstep, hs.2.next hs.1 hop hstep⟩)
      ⟨new_accounted, new_right⟩ hrun
    exact hinv.2

/-- One subscription to two topics is sent, and then the SUBACK comes. -/
def twoTopics (returnCodes : List SubscribeReturnCodes) : List Op :=
  [.request (.subscribe .atLeastOnce) [[97], [98]] 0, .send [.ok true] [],
    .suback ⟨⟨1, Nat.one_pos, Pid.one_lt⟩, returnCodes⟩]

/-- A SUBACK with one code for two topics reads as a success. -/
theorem one_code_for_two_topics :
    ∃ t, run (fun s op => s.next 16 op) (new : Books 16 4)
        (twoTopics [.success .atLeastOnce]) = some t ∧
      t.answered.map Prod.fst = [.subscribeDone ⟨0, 0⟩ (.ok .atLeastOnce)] ∧ ¬t.Right := by
  let suback : Suback := ⟨⟨1, Nat.one_pos, Pid.one_lt⟩, [.success .atLeastOnce]⟩
  have hany : (run (fun s op => s.next 16 op) (new : Books 16 4)
      (twoTopics [.success .atLeastOnce])).any (fun t =>
        t.answered = [(.subscribeDone ⟨0, 0⟩ (.ok .atLeastOnce), some (.suback suback))] ∧
          t.accepted.all fun request => request.topics.len = 2) = true := by
    decide +kernel
  obtain ⟨t, hrun, ht⟩ := (Option.any_eq_true _ _).mp hany
  obtain ⟨hanswered, htopics⟩ := of_decide_eq_true ht
  refine ⟨t, hrun, by rw [hanswered]; rfl, fun h => ?_⟩
  have hmem : (MqttEvent.subscribeDone ⟨0, 0⟩ (.ok .atLeastOnce), some (Packet.suback suback)) ∈
      t.answered := by
    rw [hanswered]
    exact List.mem_cons_self
  obtain ⟨request, hrequest, -, -, hall⟩ := h.fits _ hmem
  have hlen := of_decide_eq_true (List.all_eq_true.mp htopics request hrequest)
  obtain ⟨qos, hcode⟩ := hall ⟨_, rfl⟩ 1 (by rw [hlen]; exact Nat.one_lt_two)
  cases hcode

end Books

end SubsInner

end EmbeddedMqttc
