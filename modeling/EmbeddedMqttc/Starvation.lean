import EmbeddedMqttc.ResendScan
import EmbeddedMqttc.Sub

/-!
# When requests are written again

`Subs::send` returns before the scan over `await_ack` when `await_ack` is full and requests are left
in `send_request`. A call that is stopped so writes nothing again although nothing was refused, and
once both are full no further call does anything.
-/

namespace EmbeddedMqttc

open Prog EmbeddedMqttc.Comp

namespace SubsInner

variable {TOPIC PARALLEL_REQUESTS topicPathCapacity : Nat}

/-- The packets of all requests can be built. -/
def Buildable (topicPathCapacity : Nat) (q : SubsInner TOPIC PARALLEL_REQUESTS) : Prop :=
  (∀ request ∈ q.sendRequest, ∃ packet, request.createPacket topicPathCapacity = .ok packet) ∧
    ∀ entry ∈ q.awaitAck, ∃ packet, entry.request.createPacket topicPathCapacity = .ok packet

/-- The packets of the entries that are older than `RESEND_DURATION` when a call begins. -/
def overdue (topicPathCapacity : Nat) (c : Ctx (SubsInner TOPIC PARALLEL_REQUESTS)) : List Written :=
  let scan : Resend (SubsInner TOPIC PARALLEL_REQUESTS) _ _ := requestResend topicPathCapacity
  c.inner.awaitAck.toList.filterMap (scan.again c.env.now)

/-- What a call from `c` to `c'` that gives `r` has to do: it writes everything again that is
overdue unless a packet is refused, and returns `PartiallySent` only if one is. -/
structure Resends (topicPathCapacity : Nat) (c : Ctx (SubsInner TOPIC PARALLEL_REQUESTS))
    (r : Except (Stop MqttError) SendResult) (c' : Ctx (SubsInner TOPIC PARALLEL_REQUESTS)) :
    Prop where
  resent : ¬c.env.RefusedSince c'.env → ∃ new, c'.env.written = c.env.written ++ new ∧
    (overdue topicPathCapacity c).Sublist new
  refused : r = .ok .partiallySent → c.env.RefusedSince c'.env

variable {c s s' : Ctx (SubsInner TOPIC PARALLEL_REQUESTS)} {k : Nat}

/-! ## The loop over `send_request` -/

/-- The first `k` requests have been written and wait for their answers. -/
structure Requested (c : Ctx (SubsInner TOPIC PARALLEL_REQUESTS)) (k : Nat)
    (s : Ctx (SubsInner TOPIC PARALLEL_REQUESTS)) : Prop where
  sendRequest : s.inner.sendRequest.toList = c.inner.sendRequest.toList.drop k
  awaitAck : ∃ acks, s.inner.awaitAck.toList = c.inner.awaitAck.toList ++ acks ∧
    acks.map AwaitAck.request = c.inner.sendRequest.toList.take k
  written : ∃ new, s.env.written = c.env.written ++ new
  acceptances : s.env.acceptances + k = c.env.acceptances
  scripted : c.env.Scripted → s.env.Scripted
  credit : s.env.credit = c.env.credit
  now_le : c.env.now ≤ s.env.now

theorem Requested.refl : Requested c 0 c where
  sendRequest := rfl
  awaitAck := ⟨[], by simp⟩
  written := ⟨[], by simp⟩
  acceptances := rfl
  scripted := id
  credit := rfl
  now_le := Nat.le_refl _

theorem Requested.isFull_iff (h : Requested c k s) (hk : k ≤ c.inner.sendRequest.len) :
    s.inner.awaitAck.isFull = true ↔ PARALLEL_REQUESTS - c.inner.awaitAck.len ≤ k := by
  obtain ⟨acks, hacks, hrequests⟩ := h.awaitAck
  have hlen : acks.length = k := by
    rw [← List.length_map (f := AwaitAck.request), hrequests, List.length_take]
    exact Nat.min_eq_left hk
  have hbound := s.inner.awaitAck.length_le
  rw [BoundedVec.isFull_iff]
  rw [hacks, List.length_append, hlen] at hbound ⊢
  unfold BoundedVec.len
  omega

theorem Requested.len (h : Requested c k s) :
    s.inner.sendRequest.len = c.inner.sendRequest.len - k := by
  rw [BoundedVec.len, h.sendRequest, List.length_drop, BoundedVec.len]

/-- A turn that finds room and whose packet is accepted. -/
theorem Requested.next {request : SubRequest TOPIC} {rest : BoundedVec (SubRequest TOPIC) PARALLEL_REQUESTS}
    {packet : Packet} (h : Requested c k s)
    (hpop : s.inner.sendRequest.popFront = some (request, rest))
    (hroom : s.inner.awaitAck.isFull = false)
    (hpacket : request.createPacket topicPathCapacity = .ok packet)
    (hpos : 0 < s.env.acceptances) :
    ∃ s', (sendRequestsTurn topicPathCapacity).exec s = (.ok (.inr 0), s') ∧
      Requested c (k + 1) s' := by
  obtain ⟨acks, hpush⟩ := BoundedVec.exists_push hroom
    { request, requestSent := (s.env.wrote ⟨packet, some request.uniqueId⟩).read.now }
  have hrest := BoundedVec.popFront_eq_some_iff.mp hpop
  rw [h.sendRequest] at hrest
  have hone := s.env.acceptances_wrote ⟨packet, some request.uniqueId⟩ hpos
  have hacc := h.acceptances
  refine ⟨{ inner := { sendRequest := rest, awaitAck := acks }
            env := (s.env.wrote ⟨packet, some request.uniqueId⟩).read }, ?_, ?_, ?_, ?_, ?_, ?_, ?_, ?_⟩
  · unfold sendRequestsTurn
    rw [exec_get_bind, hpop, exec_unwrap_some_bind]
    dsimp only
    rw [if_neg (by simp [hroom]), hpacket]
    simp [exec_bind_ok (tryWritePacket_accepted s _ hpos), newAwaitAck, hpush, exec_bind]
  · rw [List.drop_add_one_eq_tail_drop, hrest, List.tail_cons]
  · obtain ⟨old, hold, hrequests⟩ := h.awaitAck
    refine ⟨old ++ [_], by rw [(BoundedVec.push_eq_some_iff.mp hpush).2, hold, List.append_assoc], ?_⟩
    have hget : c.inner.sendRequest.toList[k]? = some request := by
      rw [← List.head?_drop, hrest, List.head?_cons]
    rw [List.map_append, hrequests, List.take_add_one, hget]
    rfl
  · obtain ⟨new, hnew⟩ := h.written
    exact ⟨new ++ [⟨packet, some request.uniqueId⟩], by simp [hnew]⟩
  · change (s.env.wrote ⟨packet, some request.uniqueId⟩).acceptances + (k + 1) = _
    omega
  · intro hs
    have hwrote : (s.env.wrote ⟨packet, some request.uniqueId⟩).Scripted := (h.scripted hs).wrote hpos
    exact hwrote.congr rfl
  · exact (Env.credit_congr rfl rfl).trans ((Env.credit_wrote hpos).trans h.credit)
  · exact Nat.le_trans h.now_le (Env.now_le_read (s.env.wrote _))

theorem sendRequestsTurn_full {request : SubRequest TOPIC}
    {rest : BoundedVec (SubRequest TOPIC) PARALLEL_REQUESTS}
    (hpop : s.inner.sendRequest.popFront = some (request, rest))
    (hfull : s.inner.awaitAck.isFull = true) :
    (sendRequestsTurn topicPathCapacity).exec s = (.ok (.inl .partiallySent), s) := by
  unfold sendRequestsTurn
  rw [exec_get_bind, hpop, exec_unwrap_some_bind]
  dsimp only
  rw [if_pos hfull, exec_pure]

/-- How the loop over `send_request` ends: all requests have been written, or `await_ack` has no room
for the next one, or a packet is refused. -/
inductive RequestsSent (c : Ctx (SubsInner TOPIC PARALLEL_REQUESTS))
    (r : Except (Stop MqttError) SendResult) (s : Ctx (SubsInner TOPIC PARALLEL_REQUESTS)) : Prop
  | all (hr : r = .ok .sentAll) (hs : Requested c c.inner.sendRequest.len s)
      (hroom : c.inner.sendRequest.len ≤ PARALLEL_REQUESTS - c.inner.awaitAck.len)
      (ha : c.inner.sendRequest.len ≤ c.env.acceptances)
  | full (hr : r = .ok .partiallySent) (hcredit : s.env.credit = c.env.credit)
      (hroom : PARALLEL_REQUESTS - c.inner.awaitAck.len < c.inner.sendRequest.len)
      (ha : PARALLEL_REQUESTS - c.inner.awaitAck.len ≤ c.env.acceptances)
  | refused (hr : r ≠ .ok .sentAll) (hcredit : c.env.Scripted → c.env.RefusedSince s.env)
      (ha : c.env.acceptances < PARALLEL_REQUESTS - c.inner.awaitAck.len)

theorem sendRequestsTurn_refused {request : SubRequest TOPIC}
    {rest : BoundedVec (SubRequest TOPIC) PARALLEL_REQUESTS} {packet : Packet}
    (hpop : s.inner.sendRequest.popFront = some (request, rest))
    (hroom : s.inner.awaitAck.isFull = false)
    (hpacket : request.createPacket topicPathCapacity = .ok packet)
    (hzero : s.env.acceptances = 0) :
    (sendRequestsTurn topicPathCapacity).exec s =
        (.ok (.inl .partiallySent), { s with env := s.env.asked }) ∨
      ∃ e, (sendRequestsTurn topicPathCapacity).exec s =
        (.error e, { s with env := s.env.asked }) := by
  unfold sendRequestsTurn
  rw [exec_get_bind, hpop, exec_unwrap_some_bind]
  dsimp only
  rw [if_neg (by simp [hroom]), hpacket]
  dsimp only
  rcases tryWritePacket_refused s ⟨packet, some request.uniqueId⟩ hzero with h | ⟨e, h⟩
  · rw [exec_bind_ok h]
    exact .inl rfl
  · rw [exec_bind_error h]
    exact .inr ⟨_, rfl⟩

/-- The loop always looks at the first place, and some requests have left it. -/
def Requesting (c : Ctx (SubsInner TOPIC PARALLEL_REQUESTS)) (i : Nat)
    (s : Ctx (SubsInner TOPIC PARALLEL_REQUESTS)) : Prop :=
  i = 0 ∧ ∃ k, Requested c k s ∧ k ≤ c.inner.sendRequest.len ∧
    k ≤ PARALLEL_REQUESTS - c.inner.awaitAck.len

theorem Requesting.all {i : Nat} (h : Requesting c i s) (hi : s.inner.sendRequest.len ≤ i) :
    RequestsSent c (.ok .sentAll) s := by
  obtain ⟨rfl, k, h, hk, hfree⟩ := h
  have hleft := h.len
  have hacc := h.acceptances
  obtain rfl : k = c.inner.sendRequest.len := by omega
  exact .all rfl h hfree (by omega)

section

variable (hbuild : ∀ request ∈ c.inner.sendRequest,
  ∃ packet, request.createPacket topicPathCapacity = .ok packet)
include hbuild

theorem sendRequestsTurn_sent :
    LoopTurns (fun s : Ctx (SubsInner TOPIC PARALLEL_REQUESTS) => s.inner.sendRequest.len)
      (fun _ => sendRequestsTurn topicPathCapacity) (Requesting c) (RequestsSent c) := by
  rintro _ s ⟨rfl, k, h, hk, hfree⟩ hi
  dsimp only at hi ⊢
  cases hpop : s.inner.sendRequest.popFront with
  | none =>
    rw [BoundedVec.len, BoundedVec.popFront_eq_none_iff.mp hpop] at hi
    cases hi
  | some p =>
    obtain ⟨request, rest⟩ := p
    have hleft := h.len
    have hmem : request ∈ c.inner.sendRequest := by
      have hrest := BoundedVec.popFront_eq_some_iff.mp hpop
      rw [h.sendRequest] at hrest
      exact List.mem_of_mem_drop (hrest ▸ List.mem_cons_self)
    obtain ⟨packet, hpacket⟩ := hbuild request hmem
    have hfull := h.isFull_iff hk
    have hacc := h.acceptances
    cases hroom : s.inner.awaitAck.isFull with
    | true =>
      have hk' := hfull.mp hroom
      rw [sendRequestsTurn_full hpop hroom]
      exact .full rfl h.credit (by omega) (by omega)
    | false =>
      have hk' : k < PARALLEL_REQUESTS - c.inner.awaitAck.len := by
        by_contra hnot
        exact Bool.noConfusion (hroom.symm.trans (hfull.mpr (by omega)))
      rcases Nat.eq_zero_or_pos s.env.acceptances with hzero | hpos
      · have hrefused (hs : c.env.Scripted) : c.env.RefusedSince s.env.asked := by
          rw [Env.RefusedSince, ← h.credit]
          exact (h.scripted hs).credit_asked
        rcases sendRequestsTurn_refused hpop hroom hpacket hzero with h' | ⟨e, h'⟩ <;> rw [h']
        · exact .refused (fun hr => by cases hr) hrefused (by omega)
        · exact .refused (fun hr => by cases hr) hrefused (by omega)
      · obtain ⟨s', hexec, h'⟩ := h.next hpop hroom hpacket hpos
        have hleft' := h'.len
        rw [hexec]
        exact ⟨⟨rfl, k + 1, h', by omega, by omega⟩, by omega⟩

theorem sendRequests_sent :
    ∃ r s, (sendRequests topicPathCapacity).exec c = (r, s) ∧ RequestsSent c r s := by
  rw [sendRequests, exec_get_bind]
  exact (sendRequestsTurn_sent hbuild).exec (fun _ _ h hi => h.all hi)
    ⟨rfl, 0, .refl, Nat.zero_le _, Nat.zero_le _⟩

end

/-! ## The whole call -/

/-- Once both queues are full no call does anything. -/
theorem send_stuck (hfull : c.inner.awaitAck.isFull = true) (hne : c.inner.sendRequest.toList ≠ []) :
    (send topicPathCapacity).exec c = (.ok .partiallySent, c) := by
  cases hpop : c.inner.sendRequest.popFront with
  | none => exact absurd (BoundedVec.popFront_eq_none_iff.mp hpop) hne
  | some p =>
    obtain ⟨request, rest⟩ := p
    have hpos : 0 < c.inner.sendRequest.len := List.length_pos_iff.mpr hne
    obtain ⟨n, hn⟩ := Nat.exists_eq_succ_of_ne_zero (Nat.ne_of_gt hpos)
    have hloop : (sendRequests topicPathCapacity).exec c = (.ok .partiallySent, c) := by
      rw [sendRequests, exec_get_bind, hn, whileIndex, exec_get_bind, if_pos hpos,
        exec_bind_ok (sendRequestsTurn_full hpop hfull), exec_pure]
    rw [send, exec_bind_ok hloop]
    rfl

theorem requestResend_lawful :
    (requestResend topicPathCapacity :
      Resend (SubsInner TOPIC PARALLEL_REQUESTS) _ _).Lawful where
  queue_modify _ _ := rfl
  sentAt_mark _ _ := rfl

/-- What is overdue at the beginning of a call is due at the scan. -/
theorem overdue_sublist {now : Instant} (hnow : c.env.now ≤ now) {acks : List (AwaitAck TOPIC)} :
    let scan : Resend (SubsInner TOPIC PARALLEL_REQUESTS) _ _ := requestResend topicPathCapacity
    (overdue topicPathCapacity c).Sublist
      ((c.inner.awaitAck.toList ++ acks).filterMap (scan.again now)) := by
  intro scan
  rw [List.filterMap_append]
  exact (scan.filterMap_again_sublist _ hnow _).trans (List.sublist_append_left ..)

/-- What waits after the loop can be built, too. -/
theorem Requested.buildable (hbuild : c.inner.Buildable topicPathCapacity) (hs : Requested c k s) :
    ∀ entry ∈ s.inner.awaitAck, ∃ packet,
      entry.request.createPacket topicPathCapacity = .ok packet := by
  intro entry hentry
  obtain ⟨acks, hacks, hrequests⟩ := hs.awaitAck
  rw [← BoundedVec.mem_toList, hacks] at hentry
  rcases List.mem_append.mp hentry with hentry | hentry
  · exact hbuild.2 entry hentry
  · have hmem : entry.request ∈ c.inner.sendRequest.toList.take k :=
      hrequests ▸ List.mem_map_of_mem hentry
    exact hbuild.1 entry.request (List.mem_of_mem_take hmem)

/-- The scan after a loop that has written all requests. -/
theorem Requested.resends (hbuild : c.inner.Buildable topicPathCapacity) (hs : Requested c k s)
    (hscripted : c.env.Scripted) :
    Resends topicPathCapacity c ((resendRequests topicPathCapacity).exec s).1
      ((resendRequests topicPathCapacity).exec s).2 := by
  let read : Ctx (SubsInner TOPIC PARALLEL_REQUESTS) := { s with env := s.env.read }
  obtain ⟨r, s', hexec, hscanned⟩ := Resend.scan_scanned requestResend_lawful
    Resend.stampsFrom_timeNow (c := read) (Nat.le_refl read.env.now)
  have hresend : (resendRequests topicPathCapacity).exec s = (r, s') := by
    rw [resendRequests, timeNow_bind_exec]
    exact hexec
  rw [hresend]
  have hcredit : read.env.credit = c.env.credit := (Env.credit_congr rfl rfl).trans hs.credit
  have hrefused (hr : r ≠ .ok .sentAll) : c.env.RefusedSince s'.env := by
    rcases hscanned.refused hr ((hs.scripted hscripted).congr rfl) with href | ⟨a, ha, e, he⟩
    · rwa [Env.RefusedSince, hcredit] at href
    · obtain ⟨packet, hpacket⟩ := hs.buildable hbuild a ha
      cases he.symm.trans hpacket
  refine ⟨fun hnot => ?_, fun hr => hrefused fun hall => by cases hr.symm.trans hall⟩
  have hr : r = .ok .sentAll := by
    by_contra hr
    exact hnot (hrefused hr)
  obtain ⟨n, hn, hwritten⟩ := hscanned.written
  obtain ⟨new, hnew⟩ := hs.written
  obtain ⟨acks, hacks, -⟩ := hs.awaitAck
  have hall : ((requestResend topicPathCapacity : Resend (SubsInner TOPIC PARALLEL_REQUESTS) _ _).queue
      read.inner).toList = c.inner.awaitAck.toList ++ acks := hacks
  rw [hn hr, BoundedVec.len, List.take_length, hall] at hwritten
  have hread : read.env.written = c.env.written ++ new := hnew
  rw [hread, List.append_assoc] at hwritten
  exact ⟨_, hwritten, (overdue_sublist (Nat.le_trans hs.now_le s.env.now_le_read)).trans
    (List.sublist_append_right ..)⟩

/-- A call writes everything again that is overdue unless a packet is refused, and it returns
`PartiallySent` only if one is, exactly when `await_ack` has room for all new requests or a packet
is refused before it is full. -/
theorem send_resends_iff (c : Ctx (SubsInner TOPIC PARALLEL_REQUESTS))
    (answers : List (Except MqttError Bool)) (hbuild : c.inner.Buildable topicPathCapacity) :
    let scripted : Ctx (SubsInner TOPIC PARALLEL_REQUESTS) :=
      { c with env := { c.env with answers := answers ++ [.ok false] } }
    Resends topicPathCapacity scripted ((send topicPathCapacity).exec scripted).1
        ((send topicPathCapacity).exec scripted).2 ↔
      c.inner.sendRequest.len ≤ PARALLEL_REQUESTS - c.inner.awaitAck.len ∨
        scripted.env.acceptances < PARALLEL_REQUESTS - c.inner.awaitAck.len := by
  intro scripted
  have hscripted : scripted.env.Scripted := c.env.scripted_refusal answers
  obtain ⟨r, s, hexec, hsent⟩ := sendRequests_sent (c := scripted) hbuild.1
  cases hsent with
  | all hr hs hroom ha =>
    cases hr
    have hnext : (send topicPathCapacity).exec scripted =
        (resendRequests topicPathCapacity).exec s := SendResult.bind_next_sentAll hexec
    rw [hnext]
    exact iff_of_true (hs.resends (c := scripted) hbuild hscripted) (.inl hroom)
  | full hr hcredit hroom ha =>
    have hstop : (send topicPathCapacity).exec scripted = (r, s) :=
      SendResult.bind_next_of_ne hexec (by rw [hr]; exact nofun)
    rw [hstop]
    refine iff_of_false (fun h => ?_) (by dsimp only [scripted] at *; omega)
    have hrefused : s.env.credit < scripted.env.credit := h.refused hr
    omega
  | refused hr hcredit ha =>
    refine iff_of_true ?_ (.inr ha)
    have hstop : (send topicPathCapacity).exec scripted = (r, s) :=
      SendResult.bind_next_of_ne hexec hr
    rw [hstop]
    exact ⟨fun hnot => absurd (hcredit hscripted) hnot, fun _ => hcredit hscripted⟩

/-- A request to subscribe to a topic of one letter. -/
def letterRequest (letter : UInt8) : SubRequest 8 where
  topics := ⟨[⟨[letter], Nat.succ_le_succ (Nat.zero_le 7)⟩], Nat.succ_le_succ (Nat.zero_le 4)⟩
  requestType := .subscribe .atMostOnce
  pid := ⟨letter.toNat + 1, Nat.succ_pos _, by have := letter.toNat_lt; omega⟩
  uniqueId := ⟨letter.toNat, 0⟩

/-- A new request, and one that was written six seconds ago. -/
theorem send_resends_iff_room :
    let c : Ctx (SubsInner 8 2) :=
      { inner :=
          { sendRequest := ⟨[letterRequest 98], by decide⟩
            awaitAck := ⟨[⟨letterRequest 97, 0⟩], by decide⟩ }
        env := { Env.new with now := Duration.fromSecs 6, answers := [.ok true, .ok true] ++ [.ok false] } }
    overdue 8 c ≠ [] ∧ Resends 8 c ((send 8).exec c).1 ((send 8).exec c).2 := by
  intro c
  refine ⟨by decide +kernel, ?_⟩
  have hbuild : c.inner.Buildable 8 := by
    refine ⟨fun request h => ?_, fun entry h => ?_⟩
    · cases List.mem_singleton.mp h
      exact ⟨_, rfl⟩
    · cases List.mem_singleton.mp h
      exact ⟨_, rfl⟩
  exact (send_resends_iff c [.ok true, .ok true] hbuild).mpr (.inl (by decide))

/-- A request, a send pass that writes it, and another request. -/
def twoSubscriptions : SubsCall 8 1 PUnit := do
  addSubscribeRequest [[97]] .atMostOnce ⟨0, 0⟩
  let _ ← send 8
  addSubscribeRequest [[98]] .atMostOnce ⟨1, 1⟩

/-- With room for one request and a lost SUBACK the first request is never written again, and
whatever the connection accepts later no call does anything. -/
theorem lost_suback_starves :
    ∃ c : Ctx (SubsInner 8 1),
      twoSubscriptions.exec { inner := .new, env := { Env.new with answers := [.ok true] } } =
        (.ok ⟨⟩, c) ∧
      let later : Ctx (SubsInner 8 1) :=
        { c with
          env :=
            { c.env with
              now := Duration.fromSecs 6
              answers := [.ok true, .ok true] ++ [.ok false] } }
      (overdue 8 later).length = 1 ∧
        ¬Resends 8 later ((send 8).exec later).1 ((send 8).exec later).2 ∧
        ∀ env, (send 8).exec { c with env } = (.ok .partiallySent, { c with env }) := by
  have hrun : (twoSubscriptions.exec
      { inner := .new, env := { Env.new with answers := [.ok true] } }).1 = .ok ⟨⟩ := by
    decide +kernel
  obtain ⟨c, hc, hfull, hne, hdue⟩ : ∃ c : Ctx (SubsInner 8 1),
      twoSubscriptions.exec { inner := .new, env := { Env.new with answers := [.ok true] } } =
        (.ok ⟨⟩, c) ∧
      c.inner.awaitAck.isFull = true ∧ c.inner.sendRequest.toList ≠ [] ∧
      (overdue 8 { c with env := { c.env with now := Duration.fromSecs 6 } }).length = 1 :=
    ⟨_, exec_eq_of_fst hrun, by decide +kernel, by decide +kernel, by decide +kernel⟩
  have hstuck (env : Env) :
      (send 8).exec { c with env } = (.ok .partiallySent, { c with env }) := send_stuck hfull hne
  refine ⟨c, hc, hdue, fun h => ?_, hstuck⟩
  have hrefused := h.refused
  rw [hstuck] at hrefused
  exact absurd (hrefused rfl) (Nat.lt_irrefl _)

end SubsInner

end EmbeddedMqttc
