import EmbeddedMqttc.PublishProgress
import EmbeddedMqttc.Starvation
import EmbeddedMqttc.SubResults

/-!
# Every accepted subscribe request is answered in the end

The requests of `Subs` over the same lossy link as the publishes. While `await_ack` is full and a
request is left in `send_request` nothing is written again, so a lost SUBACK can starve both queues;
a pass that returns `SentAll` is one that was not starved. When there is such a pass again and again,
every request gets its SUBACK or UNSUBACK.
-/

namespace EmbeddedMqttc

open Prog EmbeddedMqttc.Comp Run Filter

variable {QUEUE BUFFER TOPIC : Nat}

theorem SubRequest.awaited_eq_suback_iff {r : SubRequest TOPIC} {pid : Pid} :
    r.awaited = (.suback, pid) ↔ (r.pid == pid && !r.requestType.isUnsub) = true := by
  unfold awaited
  cases r.requestType <;> simp [RequestType.isUnsub]

theorem SubRequest.awaited_eq_unsuback_iff {r : SubRequest TOPIC} {pid : Pid} :
    r.awaited = (.unsuback, pid) ↔ (r.pid == pid && r.requestType.isUnsub) = true := by
  unfold awaited
  cases r.requestType <;> simp [RequestType.isUnsub]

/-- The answer to a request has been reported. -/
def Env.Answered (e : Env) (a : (Ack × Pid) × UniqueID) : Prop :=
  match a.1.1 with
  | .unsuback => .unsubscribeDone a.2 ∈ e.events
  | _ => ∃ result, .subscribeDone a.2 result ∈ e.events

/-- What waits for an answer and for whom. -/
def SubRequest.ticket (r : SubRequest TOPIC) : (Ack × Pid) × UniqueID := (r.awaited, r.uniqueId)

namespace SubsInner

/-- What waits for an answer, and when it was written the last time. -/
def waits (q : SubsInner TOPIC QUEUE) : List (((Ack × Pid) × UniqueID) × Instant) :=
  q.awaitAck.toList.map fun e => (e.request.ticket, e.requestSent)

def outstanding (q : SubsInner TOPIC QUEUE) : List ((Ack × Pid) × UniqueID) :=
  q.awaitAck.toList.map (·.request.ticket)

def departing (q : SubsInner TOPIC QUEUE) : List ((Ack × Pid) × UniqueID) :=
  q.sendRequest.toList.map SubRequest.ticket

variable {topicPathCapacity : Nat} {q : SubsInner TOPIC QUEUE} {c c' c'' : Ctx (SubsInner TOPIC QUEUE)}

theorem mem_waits_of_mem_outstanding {a : (Ack × Pid) × UniqueID} (h : a ∈ q.outstanding) :
    ∃ t, (a, t) ∈ q.waits := by
  obtain ⟨e, he, rfl⟩ := List.mem_map.mp h
  exact ⟨e.requestSent, List.mem_map_of_mem he⟩

theorem mem_of_requests {r : SubRequest TOPIC} (h : r ∈ q.requests) :
    r.ticket ∈ q.departing ∨ r.ticket ∈ q.outstanding := by
  refine (List.mem_append.mp h).imp List.mem_map_of_mem fun hmem => ?_
  obtain ⟨e, he, rfl⟩ := List.mem_map.mp hmem
  exact List.mem_map_of_mem he

/-! ## A send pass -/

/-- What the moves of a pass do: a request leaves one queue for the other, and what is written waits
with a new time. -/
structure Moved (c c' : Ctx (SubsInner TOPIC QUEUE)) : Prop where
  outstanding : ∃ new, c'.inner.outstanding = c.inner.outstanding ++ new
  departing : ∀ a ∈ c.inner.departing, a ∈ c'.inner.departing ∨ a ∈ c'.inner.outstanding
  renewed : ∃ ws, c'.env.written = c.env.written ++ ws ∧ ∀ e ∈ c'.inner.waits,
    e ∈ c.inner.waits ∨ ∃ w ∈ ws, w.packet.asks = some e.1.1
  now : c.env.now ≤ c'.env.now

theorem Moved.refl : Moved c c :=
  ⟨⟨[], (List.append_nil _).symm⟩, fun _ ha => .inl ha, ⟨[], (List.append_nil _).symm, fun _ => .inl⟩,
    Nat.le_refl _⟩

theorem Moved.trans (h : Moved c c') (h' : Moved c' c'') : Moved c c'' := by
  obtain ⟨new, hnew⟩ := h.outstanding
  obtain ⟨new', hnew'⟩ := h'.outstanding
  obtain ⟨ws, hwritten, hws⟩ := h.renewed
  obtain ⟨ws', hwritten', hws'⟩ := h'.renewed
  refine ⟨⟨new ++ new', by rw [hnew', hnew, List.append_assoc]⟩, fun a ha => ?_,
    ⟨ws ++ ws', by rw [hwritten', hwritten, List.append_assoc], fun e he => ?_⟩,
    Nat.le_trans h.now h'.now⟩
  · rcases h.departing a ha with ha | ha
    · exact h'.departing a ha
    · exact .inr (hnew' ▸ List.mem_append_left _ ha)
  · rcases hws' e he with he | ⟨w, hw, hasks⟩
    · refine (hws e he).imp_right ?_
      rintro ⟨w, hw, hasks⟩
      exact ⟨w, List.mem_append_left _ hw, hasks⟩
    · exact .inr ⟨w, List.mem_append_right _ hw, hasks⟩

theorem waits_push {entry : AwaitAck TOPIC} {acks : BoundedVec (AwaitAck TOPIC) QUEUE}
    (hpush : q.awaitAck.push entry = some acks) (rest : BoundedVec (SubRequest TOPIC) QUEUE) :
    waits { sendRequest := rest, awaitAck := acks } =
        q.waits ++ [(entry.request.ticket, entry.requestSent)] ∧
      outstanding { sendRequest := rest, awaitAck := acks } =
        q.outstanding ++ [entry.request.ticket] := by
  simp [outstanding, waits, (BoundedVec.push_eq_some_iff.mp hpush).2]

theorem moved_move (hmove : Move topicPathCapacity c c') : Moved c c' := by
  have hnow := now_le_move hmove
  cases hmove with
  | asked | read => exact { Moved.refl (c := c) with now := hnow }
  | request hpop hpacket hpush =>
    rename_i request rest acks packet
    obtain ⟨hwaits, houtstanding⟩ := waits_push hpush rest
    refine ⟨⟨_, houtstanding⟩, fun a ha => ?_, ⟨[_], rfl, fun e he => ?_⟩, hnow⟩
    · unfold departing at ha
      rw [BoundedVec.popFront_eq_some_iff.mp hpop, List.map_cons] at ha
      rcases List.mem_cons.mp ha with rfl | ha
      · exact .inr (houtstanding ▸ List.mem_append_right _ (List.mem_singleton_self _))
      · exact .inl ha
    · rw [hwaits] at he
      rcases List.mem_append.mp he with he | he
      · exact .inl he
      · obtain rfl := List.mem_singleton.mp he
        exact .inr ⟨_, List.mem_singleton_self _, request.asks_createPacket hpacket⟩
  | resend hi hdue hpacket =>
    rename_i entry packet i
    refine ⟨⟨[], ?_⟩, fun _ ha => .inl ha, ⟨[_], rfl, fun e he => ?_⟩, hnow⟩
    · simp [outstanding, BoundedVec.map_modifyAt]
    · obtain ⟨b, hb, rfl⟩ := List.mem_map.mp he
      rcases BoundedVec.mem_modifyAt hb with hb | ⟨a, ha, rfl⟩
      · exact .inl (List.mem_map_of_mem hb)
      · cases hi.symm.trans ha
        exact .inr ⟨_, List.mem_singleton_self _, entry.request.asks_createPacket hpacket⟩

theorem send_moved (c : Ctx (SubsInner TOPIC QUEUE)) :
    Moved c ((send topicPathCapacity).exec c).2 :=
  send_moves.invariant (I := Moved c) (fun _ _ hmove h => h.trans (moved_move hmove)) .refl

theorem sendRequests_moved (c : Ctx (SubsInner TOPIC QUEUE)) :
    Moved c ((sendRequests topicPathCapacity).exec c).2 := by
  have hmoves : MovesAt (Move topicPathCapacity) (sendRequests topicPathCapacity) c :=
    Fails.movesAt <| .get_bind <| .whileIndex (J := fun _ => True)
      (fun i c _ hi => sendRequestsTurn_exits (Nat.lt_of_le_of_lt (Nat.zero_le i) hi))
      (fun _ _ _ _ _ _ => trivial) _ _ trivial
  exact hmoves.invariant (I := Moved c) (fun _ _ hmove h => h.trans (moved_move hmove)) .refl

/-- A pass that sends all leaves no request, and none that waits is old. -/
theorem send_settled (h : (send topicPathCapacity).exec c = (.ok .sentAll, c')) :
    c'.inner.departing = [] ∧ ∀ e ∈ c'.inner.waits, c.env.now ≤ e.2 + RESEND_DURATION := by
  refine ⟨by rw [departing, send_sentAll h]; rfl, ?_⟩
  obtain ⟨r, c₁, h₁, h⟩ := exec_bind_eq_ok h
  obtain ⟨rfl, hresend⟩ := SendResult.next_eq_sentAll h
  have hnow : c.env.now ≤ c₁.env.now := by
    have hmoved := @sendRequests_moved _ _ topicPathCapacity c
    rw [h₁] at hmoved
    exact hmoved.now
  rw [resendRequests, timeNow_bind_exec] at hresend
  obtain ⟨res, c₂, hscan, hscanned⟩ := Resend.scan_scanned (c := { c₁ with env := c₁.env.read })
    (@requestResend_lawful _ _ topicPathCapacity) Resend.stampsFrom_timeNow
    (Nat.le_refl c₁.env.read.now)
  cases hresend.symm.trans hscan
  refine List.forall_mem_map.mpr fun e he => ?_
  have hrecent := Nat.sub_le_iff_le_add'.mp (Nat.le_of_not_lt (hscanned.settled rfl e he))
  exact Nat.le_trans (Nat.le_trans hnow c₁.env.now_le_read) hrecent

/-! ## Answers -/

/-- The first entry with the key `k`. -/
theorem first_of_position {p : AwaitAck TOPIC → Bool} {k : Ack × Pid} {i : Nat}
    (hp : ∀ e, p e = true ↔ e.request.awaited = k) (hpos : q.awaitAck.position p = some i) :
    ∃ entry, q.awaitAck.get? i = some entry ∧ entry.request.awaited = k ∧
      q.outstanding[i]? = some entry.request.ticket ∧
      (∀ j < i, ∀ b, q.outstanding[j]? = some b → b.1 ≠ entry.request.ticket.1) ∧
      outstanding { q with awaitAck := q.awaitAck.removeAt i } = q.outstanding.eraseIdx i := by
  obtain ⟨hi, hkey, hbefore⟩ := List.findIdx?_eq_some_iff_getElem.mp hpos
  have hget (j : Nat) : q.outstanding[j]? = q.awaitAck.toList[j]?.map (·.request.ticket) :=
    List.getElem?_map
  refine ⟨q.awaitAck.toList[i], List.getElem?_eq_getElem hi, (hp _).mp hkey, ?_, fun j hj b hb => ?_, ?_⟩
  · rw [hget, List.getElem?_eq_getElem hi]
    rfl
  · rw [hget, List.getElem?_eq_getElem (Nat.lt_trans hj hi)] at hb
    cases hb
    exact fun hsame => hbefore j hj ((hp _).mpr (hsame.trans ((hp _).mp hkey)))
  · exact (List.eraseIdx_map ..).symm

theorem unknown_of_position {p : AwaitAck TOPIC → Bool} {k : Ack × Pid}
    (hp : ∀ e, p e = true ↔ e.request.awaited = k) (hpos : q.awaitAck.position p = none) :
    ∀ a ∈ q.outstanding, a.1 ≠ k := by
  refine List.forall_mem_map.mpr fun e he hsame => ?_
  have hnot := BoundedVec.position_eq_none_iff.mp hpos e he
  rw [(hp e).mpr hsame] at hnot
  cases hnot

/-- What an answer does to the requests that wait for it. -/
def Answers (k : Ack × Pid) (c c' : Ctx (SubsInner TOPIC QUEUE)) : Prop :=
  (c' = c ∧ ∀ a ∈ c.inner.outstanding, a.1 ≠ k) ∨
    ∃ i a, c.inner.outstanding[i]? = some a ∧
      (∀ j < i, ∀ b, c.inner.outstanding[j]? = some b → b.1 ≠ a.1) ∧ a.1 = k ∧
      c'.inner = { c.inner with awaitAck := c.inner.awaitAck.removeAt i } ∧
      c'.inner.outstanding = c.inner.outstanding.eraseIdx i ∧ c'.env.Answered a ∧
      c'.env.written = c.env.written ∧ c'.env.now = c.env.now

theorem onSuback_answers (suback : Suback) (c : Ctx (SubsInner TOPIC QUEUE)) :
    Answers (.suback, suback.pid) c ((onSuback suback).exec c).2 := by
  have hp (e : AwaitAck TOPIC) : (e.request.pid == suback.pid && !e.request.requestType.isUnsub) =
      true ↔ e.request.awaited = (.suback, suback.pid) := SubRequest.awaited_eq_suback_iff.symm
  unfold onSuback
  rw [exec_get_bind]
  split
  · rename_i hpos
    exact .inl ⟨rfl, unknown_of_position hp hpos⟩
  · rename_i i hpos
    obtain ⟨entry, hi, hkey, hticket, hfirst, herase⟩ := first_of_position hp hpos
    cases htype : entry.request.requestType with
    | unsubscribe => simp [SubRequest.awaited, htype] at hkey
    | subscribe qos =>
      simp only [hi, htype, exec_unwrap_some_bind, freePid_bind_exec, modifyInner_bind_exec]
      rw [checkSuback_result]
      refine .inr ⟨i, entry.request.ticket, hticket, hfirst, hkey, rfl, herase, ?_, rfl, rfl⟩
      unfold Env.Answered
      rw [SubRequest.ticket, hkey]
      exact ⟨_, List.mem_append_right _ (List.mem_singleton_self _)⟩

theorem onUnsuback_answers (pid : Pid) (c : Ctx (SubsInner TOPIC QUEUE)) :
    Answers (.unsuback, pid) c ((onUnsuback pid).exec c).2 := by
  have hp (e : AwaitAck TOPIC) : (e.request.pid == pid && e.request.requestType.isUnsub) = true ↔
      e.request.awaited = (.unsuback, pid) := SubRequest.awaited_eq_unsuback_iff.symm
  unfold onUnsuback
  rw [exec_get_bind]
  split
  · rename_i hpos
    exact .inl ⟨rfl, unknown_of_position hp hpos⟩
  · rename_i i hpos
    obtain ⟨entry, hi, hkey, hticket, hfirst, herase⟩ := first_of_position hp hpos
    simp only [hi, exec_unwrap_some_bind, freePid_bind_exec, modifyInner_bind_exec]
    refine .inr ⟨i, entry.request.ticket, hticket, hfirst, hkey, rfl, herase, ?_, rfl, rfl⟩
    unfold Env.Answered
    rw [SubRequest.ticket, hkey]
    exact List.mem_append_right _ (List.mem_singleton_self _)

end SubsInner

namespace Client

open SubsInner

variable {topicPathCapacity : Nat} {s s' : Client QUEUE BUFFER TOPIC} {l : Label}

/-- What a step acknowledges. -/
def Label.acknowledges : Label → Option (Ack × Pid)
  | .receive packet => packet.acks
  | _ => none

/-- What a step means for the requests. -/
structure Serves (s : Client QUEUE BUFFER TOPIC) (l : Label) (s' : Client QUEUE BUFFER TOPIC) :
    Prop where
  outstanding : (∃ new, s'.subscribes.outstanding = s.subscribes.outstanding ++ new ∧
      ∀ k, l.acknowledges = some k → ∀ a ∈ s.subscribes.outstanding, a.1 ≠ k) ∨
    ∃ i a, s.subscribes.outstanding[i]? = some a ∧
      (∀ j < i, ∀ b, s.subscribes.outstanding[j]? = some b → b.1 ≠ a.1) ∧
      s'.subscribes.outstanding = s.subscribes.outstanding.eraseIdx i ∧
      l.acknowledges = some a.1 ∧ s'.env.Answered a
  departing : ∀ a ∈ s.subscribes.departing,
    a ∈ s'.subscribes.departing ∨ a ∈ s'.subscribes.outstanding
  renewed : ∃ ws, s'.env.written = s.env.written ++ ws ∧ ∀ e ∈ s'.subscribes.waits,
    e ∈ s.subscribes.waits ∨ ∃ w ∈ ws, w.packet.asks = some e.1.1

theorem serves_of_answers {packet : Packet} {k : Ack × Pid} (hacks : packet.acks = some k)
    (h : Answers k ⟨s.subscribes, s.env⟩ ⟨s'.subscribes, s'.env⟩) :
    Serves s (.receive packet) s' := by
  rcases h with ⟨hsame, hunknown⟩ | ⟨i, a, ha, hfirst, rfl, hinner, herase, hanswered, hwritten, -⟩
  · obtain ⟨hsubscribes, henv⟩ := Ctx.mk.inj hsame
    refine ⟨.inl ⟨[], by rw [hsubscribes, List.append_nil], fun k' hk' => ?_⟩,
      fun a ha => .inl (hsubscribes ▸ ha), [], by rw [henv, List.append_nil],
      fun e he => .inl (hsubscribes ▸ he)⟩
    cases hacks.symm.trans hk'
    exact hunknown
  · dsimp only at hinner
    refine ⟨.inr ⟨i, a, ha, hfirst, herase, hacks, hanswered⟩, fun b hb => .inl ?_, [],
      by rw [hwritten, List.append_nil], fun e he => .inl ?_⟩
    · rw [hinner]
      exact hb
    · rw [hinner] at he
      obtain ⟨b, hb, rfl⟩ := List.mem_map.mp he
      exact List.mem_map_of_mem (BoundedVec.mem_removeAt hb)

variable (s topicPathCapacity) in
/-- Only a send pass takes requests out of `send_request`. -/
theorem sendRequest_grows (hl : l.concerns false = false) :
    ∃ new, (s.outcome topicPathCapacity l).2.subscribes.sendRequest.toList =
      s.subscribes.sendRequest.toList ++ new := by
  have hsame : ∃ new, s.subscribes.sendRequest.toList = s.subscribes.sendRequest.toList ++ new :=
    ⟨[], (List.append_nil _).symm⟩
  have hadd (requestType : RequestType) (topics : List (List UInt8)) (id : Nat) :
      ∃ new, (s.addRequest (SubsInner.addRequest requestType topics) id).2.subscribes.sendRequest.toList =
        s.subscribes.sendRequest.toList ++ new := by
    unfold addRequest callSubscribes
    rcases SubsInner.addRequest_cases ⟨s.subscribes, s.env⟩ requestType topics
      ⟨id, s.issued.length⟩ with ⟨x, h⟩ | ⟨request, rest, pool, -, -, -, hpush, h⟩ <;> rw [h]
    · exact hsame
    · exact ⟨_, (BoundedVec.push_eq_some_iff.mp hpush).2⟩
  cases l with
  | subscribe topics qos id => exact hadd (.subscribe qos) topics id
  | unsubscribe topics id => exact hadd .unsubscribe topics id
  | publish topic payload qos retain id =>
    simp only [outcome, publish, callPublishes]
    split <;> (rename_i heq; obtain ⟨-, rfl⟩ := Prod.mk.inj heq; exact hsame)
  | poll i =>
    simp only [outcome, poll, callPublishes]
    split
    · exact hsame
    · split <;> (rename_i heq; obtain ⟨-, rfl⟩ := Prod.mk.inj heq; exact hsame)
  | autoSubscribe =>
    simp only [outcome, autoSubscribeChunk, callPublishes]
    split
    · exact hsame
    · split <;> (rename_i heq; obtain ⟨-, rfl⟩ := Prod.mk.inj heq; exact hsame)
  | drop | autoSubscribed | sendPublishes | sendReceives | sendPing | wait => exact hsame
  | sendSubscribes => cases hl
  | receive packet =>
    cases packet with
    | suback | unsuback => cases hl
    | _ => exact hsame

/-- A step that is not about requests. -/
theorem rest_serves (hl : l.concerns false = false) :
    Serves s l (s.outcome topicPathCapacity l).2 := by
  obtain ⟨new, hnew⟩ := s.sendRequest_grows topicPathCapacity hl
  obtain ⟨⟨sendRequest, hsubscribes⟩, -⟩ := @outcome_subscribes _ _ _ s topicPathCapacity l hl
  have hwaits : (s.outcome topicPathCapacity l).2.subscribes.waits = s.subscribes.waits := by
    rw [hsubscribes]
    rfl
  have houtstanding : (s.outcome topicPathCapacity l).2.subscribes.outstanding =
      s.subscribes.outstanding := by
    rw [hsubscribes]
    rfl
  obtain ⟨ofPublish, hasks⟩ := @outcome_asksNone _ _ _ s topicPathCapacity l
  obtain ⟨ws, -, -, hwritten⟩ := hasks.packets
  refine ⟨.inl ⟨[], by rw [houtstanding, List.append_nil], fun k hk a ha hkey => ?_⟩, fun a ha => .inl ?_,
    ws, hwritten, fun e he => .inl (hwaits ▸ he)⟩
  · obtain ⟨e, -, rfl⟩ := List.mem_map.mp ha
    cases l with
    | receive packet =>
      have hsome : packet.acksOf false = some k :=
        Packet.acksOf_eq_some_iff.mpr ⟨hk, hkey ▸ e.request.ofPublish_awaited⟩
      simp [Label.concerns, hsome] at hl
    | _ => cases hk
  · obtain ⟨r, hr, rfl⟩ := List.mem_map.mp ha
    exact List.mem_map_of_mem (hnew ▸ List.mem_append_left _ hr)

theorem sendSubscribes_serves (answers : List (Except MqttError Bool)) (ticks : List Duration) :
    Serves s (.sendSubscribes answers ticks)
      (s.outcome topicPathCapacity (.sendSubscribes answers ticks)).2 := by
  have hmoved := @send_moved _ _ topicPathCapacity
    ⟨s.subscribes, (s.scripted answers ticks).env⟩
  obtain ⟨new, hnew⟩ := hmoved.outstanding
  exact ⟨.inl ⟨new, hnew, nofun⟩, hmoved.departing, hmoved.renewed⟩

/-- Every step. -/
theorem outcome_serves (s : Client QUEUE BUFFER TOPIC) (topicPathCapacity : Nat) (l : Label) :
    Serves s l (s.outcome topicPathCapacity l).2 := by
  by_cases hl : l.concerns false = false
  · exact rest_serves hl
  cases l with
  | sendSubscribes answers ticks => exact sendSubscribes_serves answers ticks
  | receive packet =>
    cases packet with
    | suback response => exact serves_of_answers rfl (onSuback_answers response ⟨s.subscribes, s.env⟩)
    | unsuback pid => exact serves_of_answers rfl (onUnsuback_answers pid ⟨s.subscribes, s.env⟩)
    | _ => exact absurd rfl hl
  | _ => exact absurd rfl hl

/-! ## Infinite runs -/

section

variable (x : Execution (fun s : Client QUEUE BUFFER TOPIC => s.next topicPathCapacity))

/-- The step at `n` is a send pass of the requests that returns `SentAll`. -/
def SendsAllRequests (n : Nat) : Prop :=
  ∃ answers ticks, x.label n = .sendSubscribes answers ticks ∧
    (((x.state n).scripted answers ticks).callSubscribes (SubsInner.send topicPathCapacity)).1 =
      .ok .sentAll

/-- The passes are not starved for ever, and the link and the peer answer again and again what is
written again and again. -/
structure FairToRequests : Prop where
  passes : ∃ᶠ n in atTop, SendsAllRequests x n
  clock : ∀ t, ∃ n, t ≤ (x.state n).env.now
  answers : ∀ ack pid, (∃ᶠ n in atTop, Asks x ack pid n) →
    ∃ᶠ n in atTop, (x.label n).acknowledges = some (ack, pid)

namespace FairToRequests

variable {x} (h : FairToRequests x)
include h

omit h in
theorem serves (n : Nat) : Serves (x.state n) (x.label n) (x.state (n + 1)) := by
  have hstep := Option.some.inj (x.step n)
  rw [← hstep]
  exact outcome_serves ..

omit h in
theorem settled {n : Nat} (hn : SendsAllRequests x n) :
    (x.state (n + 1)).subscribes.departing = [] ∧
      ∀ e ∈ (x.state (n + 1)).subscribes.waits, (x.state n).env.now ≤ e.2 + RESEND_DURATION := by
  obtain ⟨answers, ticks, hlabel, hres⟩ := hn
  have hstep := Option.some.inj (x.step n)
  rw [hlabel] at hstep
  rw [← hstep]
  exact send_settled (c := ⟨(x.state n).subscribes, ((x.state n).scripted answers ticks).env⟩)
    (Prod.ext hres rfl)

omit h in
/-- What is old is written again by the next pass that sends all. -/
theorem renewing : Renewing (fun n => (x.state n).subscribes.waits)
    (fun a n => Asks x a.1.1 a.1.2 n) (fun n => (x.state n).env.now) (SendsAllRequests x)
    RESEND_DURATION where
  renewed n e he := by
    obtain ⟨ws, hwritten, hws⟩ := (serves n).renewed
    refine (hws e he).imp_right ?_
    rintro ⟨w, hw, hasks⟩
    exact ⟨ws, hwritten, w, hw, hasks⟩
  settled n hn := (settled hn).2
  clock_le n := by
    have hstep := Option.some.inj (x.step n)
    rw [← hstep]
    exact now_le_outcome

/-- What waits for ever is written again and again, and so it is answered. -/
theorem answered (a : (Ack × Pid) × UniqueID) (n : Nat)
    (hever : ∀ m, n ≤ m → a ∈ (x.state m).subscribes.outstanding) :
    ∃ m, n ≤ m ∧ (x.label m).acknowledges = some a.1 := by
  have hasks := renewing.frequently h.passes h.clock fun m hm =>
    mem_waits_of_mem_outstanding (hever m hm)
  obtain ⟨m, hm, hanswers⟩ := frequently_atTop.mp (h.answers a.1.1 a.1.2 hasks) n
  exact ⟨m, hm, hanswers⟩

theorem outstanding_leadsTo (a : (Ack × Pid) × UniqueID) :
    LeadsTo (fun n => a ∈ (x.state n).subscribes.outstanding)
      fun n => (x.state n).env.Answered a := by
  have hawaiting : Awaiting (fun n => (x.state n).subscribes.outstanding) Prod.fst
      (fun n => (x.label n).acknowledges) fun a n => (x.state n).env.Answered a :=
    ⟨fun n => (serves n).outstanding⟩
  exact hawaiting.leadsTo h.answered a

/-- A request is written by the next pass that sends all. -/
theorem departing_leadsTo (a : (Ack × Pid) × UniqueID) :
    LeadsTo (fun n => a ∈ (x.state n).subscribes.departing)
      fun n => a ∈ (x.state n).subscribes.outstanding := by
  refine LeadsTo.of_unless (fun n hn => (serves n).departing a hn) fun n hever => ?_
  obtain ⟨m, hm, hsends⟩ := frequently_atTop.mp h.passes n
  have hmem := (hever (m + 1) (Nat.le_succ_of_le hm)).1
  rw [(settled hsends).1] at hmem
  cases hmem

end FairToRequests

/-- In every infinite run over a link that loses packets but not for ever, in which the passes of
`Subs` are not starved for ever, every request that has been accepted gets its answer in the end: a
subscribe request its `SubscribeDone` and an unsubscribe request its `UnsubscribeDone`. -/
theorem requests_answered (h : FairToRequests x) (r : SubRequest TOPIC) :
    LeadsTo (fun n => r ∈ (x.state n).subscribes.requests)
      fun n => (x.state n).env.Answered r.ticket := by
  intro n hn
  rcases mem_of_requests hn with hmem | hmem
  · exact ((h.departing_leadsTo r.ticket).trans (h.outstanding_leadsTo r.ticket)) n hmem
  · exact h.outstanding_leadsTo r.ticket n hmem

end

/-! ### A link that loses the first copy of a SUBSCRIBE -/

def lossySubscribe : List Label :=
  [.subscribe [[116], [117]] .atLeastOnce 7, .sendSubscribes [.ok true] [], .wait (.fromSecs 6),
    .sendSubscribes [.ok true] [],
    .receive (.suback ⟨⟨1, Nat.one_pos, Pid.one_lt⟩, [.success .atMostOnce, .failure]⟩)]

def lossyRequests : Execution (fun s : Client 4 8 8 => s.next 16) :=
  .ofTotal (fun s l => (s.outcome 16 l).2) new fun n =>
    lossySubscribe.getD n (.sendSubscribes [] [.fromSecs 1])

theorem send_new (e : Env) :
    (SubsInner.send topicPathCapacity).exec ⟨(.new : SubsInner TOPIC QUEUE), e⟩ =
      (.ok .sentAll, ⟨.new, e.read⟩) := rfl

theorem now_of_read {e : Env} {d : Duration} (h : e.ticks = [d]) : e.read.now = e.now + d := by
  simp [Env.read, h]

theorem lossyRequests_label (k : Nat) :
    lossyRequests.label (5 + k) = .sendSubscribes [] [.fromSecs 1] :=
  List.getD_eq_default _ _ (Nat.le_add_right 5 k)

theorem lossyRequests_idle (k : Nat) : (lossyRequests.state (5 + k)).subscribes = .new ∧
    (lossyRequests.state (5 + k)).env.written = (lossyRequests.state 5).env.written ∧
    k ≤ (lossyRequests.state (5 + k)).env.now := by
  induction k with
  | zero => exact ⟨by decide +kernel, rfl, Nat.zero_le _⟩
  | succ k ih =>
    obtain ⟨hsubscribes, hwritten, hnow⟩ := ih
    have hstep : lossyRequests.state (5 + (k + 1)) =
        ((lossyRequests.state (5 + k)).outcome 16 (lossyRequests.label (5 + k))).2 := rfl
    rw [hstep, lossyRequests_label]
    simp only [outcome, sent, callSubscribes, scripted, hsubscribes, send_new]
    have hread : k + 1 ≤ (lossyRequests.state (5 + k)).env.now + Duration.fromSecs 1 :=
      Nat.add_le_add hnow (by decide)
    refine ⟨trivial, hwritten, ?_⟩
    rw [now_of_read (d := .fromSecs 1)]
    · exact hread
    · rfl

theorem lossyRequests_fair : FairToRequests lossyRequests where
  passes := by
    refine frequently_atTop.mpr fun n => ⟨5 + n, Nat.le_add_left n 5, [], _, lossyRequests_label n, ?_⟩
    simp only [callSubscribes, scripted, (lossyRequests_idle n).1, send_new]
  clock t := ⟨5 + t, (lossyRequests_idle t).2.2⟩
  answers ack pid hasks := by
    obtain ⟨n, hn, ws, hwritten, w, hw, -⟩ := frequently_atTop.mp hasks 5
    obtain ⟨k, rfl⟩ := Nat.exists_eq_add_of_le hn
    rw [Nat.add_assoc, (lossyRequests_idle k).2.1, (lossyRequests_idle (k + 1)).2.1] at hwritten
    rw [List.self_eq_append_right.mp hwritten] at hw
    cases hw

theorem requests_answered_on_lossyRequests :
    ∃ x : Execution (fun s : Client 4 8 8 => s.next 16), FairToRequests x ∧
      ∃ r ∈ (x.state 1).subscribes.requests, r.uniqueId = ⟨7, 0⟩ ∧
        ∃ m, 1 ≤ m ∧ (x.state m).env.Answered r.ticket := by
  have hrequests : (lossyRequests.state 1).subscribes.requests.map (·.uniqueId) = [⟨7, 0⟩] := by
    decide +kernel
  obtain ⟨r, hr, hid⟩ := List.mem_map.mp (hrequests ▸ List.mem_singleton_self (⟨7, 0⟩ : UniqueID))
  exact ⟨lossyRequests, lossyRequests_fair, r, hr, hid,
    requests_answered lossyRequests lossyRequests_fair r 1 hr⟩

end Client

end EmbeddedMqttc
