import EmbeddedMqttc.SendPass
import EmbeddedMqttc.Library.SendingLine

/-!
# A send pass and the line of a QoS

The messages of QoS 1, and those of QoS 2, are sent in line: a pass writes the first ones of
`send_publish`, and again, in the order in which they stand, those that have waited too long for their
acknowledgement. What it does is a sequence of steps of a `SendingLine.Queue`.
-/

namespace EmbeddedMqttc

open Prog EmbeddedMqttc.Comp Run SendingLine

variable {QUEUE BUFFER TOPIC : Nat}

/-- The request of a PUBLISH with this QoS. -/
def Written.publishOf (qos : QoS) (w : Written) : Option UniqueID :=
  match w.packet.message? with
  | some message => if message.qospid.qos = qos then w.request else none
  | none => none

theorem publishOf_borrow (qos : QoS) (e : OwnedPublish BUFFER TOPIC) :
    Written.publishOf qos ⟨e.borrow, some e.uniqueId⟩ =
      if e.qospid.qos = qos then some e.uniqueId else none := rfl

namespace PublishesInner

/-! ## The line of a QoS -/

/-- The publishes that wait for their first acknowledgement, with the time when they were written. -/
def awaiting (q : PublishesInner QUEUE BUFFER TOPIC) : QoS → List (UniqueID × Nat)
  | .atMostOnce => []
  | .atLeastOnce => q.awaitPuback.toList.map fun e => (e.publish.uniqueId, e.publishSent)
  | .exactlyOnce => q.awaitPubrec.toList.map fun e => (e.publish.uniqueId, e.publishSent)

def unsent (qos : QoS) (q : PublishesInner QUEUE BUFFER TOPIC) : List UniqueID :=
  (q.sendPublish.toList.filter (·.qospid.qos = qos)).map (·.uniqueId)

def line (qos : QoS) (q : PublishesInner QUEUE BUFFER TOPIC) (written : List Written) :
    Queue UniqueID where
  pending := q.unsent qos
  unanswered := q.awaiting qos
  written := written.map (·.publishOf qos)

theorem unsent_push {q : PublishesInner QUEUE BUFFER TOPIC} {e : OwnedPublish BUFFER TOPIC}
    {queue : BoundedVec (OwnedPublish BUFFER TOPIC) QUEUE}
    (hpush : q.sendPublish.push e = some queue) (qos : QoS) :
    ({ q with sendPublish := queue } : PublishesInner ..).unsent qos =
      q.unsent qos ++ if e.qospid.qos = qos then [e.uniqueId] else [] := by
  unfold unsent
  rw [(BoundedVec.push_eq_some_iff.mp hpush).2, List.filter_append, List.map_append]
  by_cases hq : e.qospid.qos = qos <;> simp [hq]

/-- What waits for a PUBACK has QoS 1, and what waits for a PUBREC has QoS 2. -/
structure Divided (q : PublishesInner QUEUE BUFFER TOPIC) : Prop where
  awaitPuback : ∀ e ∈ q.awaitPuback, e.publish.qospid.qos = .atLeastOnce
  awaitPubrec : ∀ e ∈ q.awaitPubrec, e.publish.qospid.qos = .exactlyOnce

variable {c s s' : Ctx (PublishesInner QUEUE BUFFER TOPIC)} {qos : QoS} {i : Nat}

/-- The line moves on from `c` to `s`. -/
structure Advanced (qos : QoS) (c s : Ctx (PublishesInner QUEUE BUFFER TOPIC)) : Prop where
  steps : Relation.ReflTransGen (Queue.Step RESEND_DURATION) (line qos c.inner c.env.written)
    (line qos s.inner s.env.written)
  divided : s.inner.Divided

theorem Advanced.refl (h : c.inner.Divided) : Advanced qos c c := ⟨.refl, h⟩

theorem Advanced.asked (h : Advanced qos c s) : Advanced qos c { s with env := s.env.asked } :=
  ⟨h.steps, h.divided⟩

theorem Advanced.read (h : Advanced qos c s) : Advanced qos c { s with env := s.env.read } :=
  ⟨h.steps, h.divided⟩

theorem Advanced.step (h : Advanced qos c s)
    (hstep : Queue.Step RESEND_DURATION (line qos s.inner s.env.written)
      (line qos s'.inner s'.env.written))
    (hdivided : s'.inner.Divided) : Advanced qos c s' :=
  ⟨h.steps.tail hstep, hdivided⟩

/-! ## First PUBLISHes -/

/-- To which line a publish goes when it is stored. -/
theorem Stored.awaiting {current : OwnedPublish BUFFER TOPIC} (h : Stored c i current s)
    (hqos : qos ≠ .atMostOnce) :
    ∃ t, s.inner.awaiting qos = c.inner.awaiting qos ++
      if current.qospid.qos = qos then [(current.uniqueId, t)] else [] := by
  refine ⟨s.env.now, ?_⟩
  cases h with
  | atMostOnce hq =>
    rw [hq]
    cases qos with
    | atMostOnce => exact absurd rfl hqos
    | atLeastOnce | exactlyOnce => simp [PublishesInner.awaiting, QosPid.qos]
  | atLeastOnce hq hpush =>
    have hqueue := (BoundedVec.push_eq_some_iff.mp hpush).2
    rw [hq]
    cases qos with
    | atMostOnce => exact absurd rfl hqos
    | atLeastOnce => simp [PublishesInner.awaiting, hqueue, QosPid.qos]
    | exactlyOnce => simp [PublishesInner.awaiting, QosPid.qos]
  | exactlyOnce hq hpush =>
    have hqueue := (BoundedVec.push_eq_some_iff.mp hpush).2
    rw [hq]
    cases qos with
    | atMostOnce => exact absurd rfl hqos
    | atLeastOnce => simp [PublishesInner.awaiting, QosPid.qos]
    | exactlyOnce => simp [PublishesInner.awaiting, hqueue, QosPid.qos]

theorem Divided.stored {current : OwnedPublish BUFFER TOPIC} (hdivided : c.inner.Divided)
    (h : Stored c i current s) : s.inner.Divided := by
  cases h with
  | atMostOnce => exact ⟨hdivided.awaitPuback, hdivided.awaitPubrec⟩
  | atLeastOnce hq hpush =>
    refine ⟨fun e he => ?_, hdivided.awaitPubrec⟩
    rcases (BoundedVec.mem_iff_of_push hpush).mp he with he | rfl
    · exact hdivided.awaitPuback e he
    · exact congrArg QosPid.qos hq
  | exactlyOnce hq hpush =>
    refine ⟨hdivided.awaitPuback, fun e he => ?_⟩
    rcases (BoundedVec.mem_iff_of_push hpush).mp he with he | rfl
    · exact hdivided.awaitPubrec e he
    · exact congrArg QosPid.qos hq

/-- The entries of its QoS that stand before it could not have been sent either. -/
theorem Advanced.stored {current : OwnedPublish BUFFER TOPIC} (h : Advanced qos c s)
    (hqos : qos ≠ .atMostOnce) (hget : s.inner.sendPublish.get? i = some current)
    (hpassed : publishPending.Passed i s) (hspace : s.inner.hasSpace current.qospid.qos = true)
    (hstored : Stored s i current s') : Advanced qos c s' := by
  refine h.step ?_ (h.divided.stored hstored)
  obtain ⟨t, hawaiting⟩ := hstored.awaiting hqos
  have hwritten : s'.env.written = s.env.written ++ [⟨current.borrow, some current.uniqueId⟩] :=
    (hstored.took hspace).written
  unfold line
  rw [hawaiting, hwritten, List.map_append, List.map_singleton, publishOf_borrow, unsent, unsent,
    hstored.sendPublish]
  by_cases hq : current.qospid.qos = qos
  · have hbefore (k : Nat) (hk : k < i) (b : OwnedPublish BUFFER TOPIC)
        (hb : s.inner.sendPublish.get? k = some b) : decide (b.qospid.qos = qos) = false := by
      refine decide_eq_false fun hbq => ?_
      have hfull : s.inner.hasSpace b.qospid.qos = false := hpassed k hk b hb
      rw [hbq, ← hq, hspace] at hfull
      cases hfull
    rw [if_pos hq, if_pos hq, BoundedVec.filter_removeAt_of_pos hget (decide_eq_true hq) hbefore]
    exact .first t rfl
  · rw [if_neg hq, if_neg hq, List.append_nil,
      BoundedVec.filter_removeAt_of_neg hget (decide_eq_false hq)]
    exact .other

theorem sendPendingPublishes_advanced (hqos : qos ≠ .atMostOnce) :
    Triple (Advanced qos c) sendPendingPublishes (fun _ => Advanced qos c)
      (fun _ => Advanced qos c) := by
  have hturn (i : Nat) : Triple
      (fun s => (Advanced qos c s ∧ publishPending.Passed i s) ∧ i < s.inner.sendPublish.len)
      (sendPendingPublishesTurn i)
      (fun r s => match r with
        | .inl _ => Advanced qos c s
        | .inr j => Advanced qos c s ∧ publishPending.Passed j s)
      (fun _ => Advanced qos c) := by
    rintro s ⟨⟨h, hpassed⟩, hi⟩
    obtain ⟨current, hget⟩ : ∃ current, s.inner.sendPublish.get? i = some current :=
      ⟨_, List.getElem?_eq_getElem hi⟩
    rcases sendPendingPublishesTurn_cases hget with
      ⟨hspace, hexec⟩ | hexec | ⟨e, hexec⟩ | ⟨s', hspace, hstored, hexec⟩ <;> rw [hexec]
    · exact ⟨h, hpassed.succ hget hspace⟩
    · exact h.asked
    · exact h.asked
    · exact ⟨h.stored hqos hget hpassed hspace hstored,
        hpassed.took (hstored.took hspace) hstored.full⟩
  refine .get_bind fun t => ?_
  refine (Triple.whileIndex_exits (J := fun i s => Advanced qos c s ∧ publishPending.Passed i s)
    (fun i => (hturn i).weaken (fun r _ h => by cases r <;> exact h) fun _ _ h => h)
    (fun _ _ h => h.1) _ 0).conseq (fun s h => ⟨h.2, ?_⟩) (fun _ _ h => h) fun _ _ h => h
  exact fun k hk => absurd hk (Nat.not_lt_zero k)

theorem sendPendingPubrel_advanced : Triple (Advanced qos c) sendPendingPubrel
    (fun _ => Advanced qos c) (fun _ => Advanced qos c) := by
  refine .of_exits fun s h => ?_
  obtain ⟨res, s', sent, hexec, hdrained, -⟩ := sendPendingPubrel_drained s
  have hrest := hdrained.rest
  simp only [pubrelPending, Prod.mk.injEq] at hrest
  obtain ⟨hpublish, hpuback, hpubrec⟩ := hrest
  have hawaiting : s'.inner.awaiting qos = s.inner.awaiting qos := by
    unfold awaiting
    rw [hpuback, hpubrec]
  have hunsent : s'.inner.unsent qos = s.inner.unsent qos := by
    unfold unsent
    rw [hpublish]
  rw [hexec]
  refine ⟨h.steps.trans ?_, ⟨hpuback ▸ h.divided.awaitPuback, hpubrec ▸ h.divided.awaitPubrec⟩⟩
  unfold line
  rw [hawaiting, hunsent, hdrained.written, List.map_append]
  refine Queue.Step.others fun o ho => ?_
  obtain ⟨w, hw, rfl⟩ := List.mem_map.mp ho
  obtain ⟨e, -, rfl⟩ := List.mem_map.mp hw
  rfl

/-! ## Repeated PUBLISHes -/

/-- The entries that a scan has passed are not due. -/
def Scanned {α : Type} (r : Resend (PublishesInner QUEUE BUFFER TOPIC) α QUEUE) (now : Instant)
    (i : Nat) (s : Ctx (PublishesInner QUEUE BUFFER TOPIC)) : Prop :=
  ∀ k < i, ∀ a, (r.queue s.inner).get? k = some a → ¬r.due now a

/-- The rule for a scan that gives its entries the time at which it began. -/
theorem scan_advanced {α : Type} {r : Resend (PublishesInner QUEUE BUFFER TOPIC) α QUEUE}
    {now : Instant} (hr : r.Lawful)
    (hagain : ∀ s i a packet, Advanced qos c s → Scanned r now i s →
      (r.queue s.inner).get? i = some a → r.due now a → r.packet a = .ok packet →
      Advanced qos c
        { inner := r.modify (·.modifyAt i (r.mark now)) s.inner
          env := s.env.wrote ⟨packet, some (r.request a)⟩ }) :
    Triple (Advanced qos c) (r.scan now (pure now)) (fun _ => Advanced qos c)
      (fun _ => Advanced qos c) := by
  have hturn (i : Nat) : Triple
      (fun s => (Advanced qos c s ∧ Scanned r now i s) ∧ i < (r.queue s.inner).len)
      (r.turn now (pure now) i)
      (fun res s => match res with
        | .inl _ => Advanced qos c s
        | .inr j => Advanced qos c s ∧ Scanned r now j s)
      (fun _ => Advanced qos c) := by
    rintro s ⟨⟨h, hscanned⟩, hi⟩
    obtain ⟨a, ha⟩ : ∃ a, (r.queue s.inner).get? i = some a := ⟨_, List.getElem?_eq_getElem hi⟩
    rcases r.turn_cases now (pure now) ha with
      ⟨hdue, hexec⟩ | ⟨e, hexec⟩ | ⟨e, hexec⟩ | hexec | ⟨packet, hdue, hpacket, hexec⟩ <;> rw [hexec]
    · refine ⟨h, fun k hk b hb => ?_⟩
      rcases Nat.lt_succ_iff_lt_or_eq.mp hk with hk | rfl
      · exact hscanned k hk b hb
      · cases ha.symm.trans hb
        exact hdue
    · exact h
    · exact h.asked
    · exact h.asked
    · refine ⟨hagain s i a packet h hscanned ha hdue hpacket, fun k hk b hb => ?_⟩
      have hb : (r.queue (r.modify (·.modifyAt i (r.mark now)) s.inner)).get? k = some b := hb
      rw [hr.queue_modify] at hb
      rcases BoundedVec.get?_modifyAt hb with ⟨rfl, b', -, rfl⟩ | ⟨hne, hb⟩
      · -- it has just been written
        rw [Resend.due, hr.sentAt_mark, Nat.sub_self]
        exact Nat.not_lt_zero _
      · exact hscanned k (by omega) b hb
  refine .get_bind fun t => ?_
  refine (Triple.whileIndex_exits (J := fun i s => Advanced qos c s ∧ Scanned r now i s)
    (fun i => (hturn i).weaken (fun r _ h => by cases r <;> exact h) fun _ _ h => h)
    (fun _ _ h => h.1) _ 0).conseq (fun s h => ⟨h.2, ?_⟩) (fun _ _ h => h) fun _ _ h => h
  exact fun k hk => absurd hk (Nat.not_lt_zero k)

theorem Advanced.again {α : Type} {r : Resend (PublishesInner QUEUE BUFFER TOPIC) α QUEUE}
    {now : Instant} {a : α} {packet : Packet} (h : Advanced qos c s) (hr : r.Lawful)
    (hrequest : ∀ t a, r.request (r.mark t a) = r.request a)
    (hawaiting : ∀ q, q.awaiting qos = (r.queue q).toList.map fun a => (r.request a, r.sentAt a))
    (hsend : ∀ f q, (r.modify f q).sendPublish = q.sendPublish) (hscanned : Scanned r now i s)
    (hget : (r.queue s.inner).get? i = some a) (hdue : r.due now a)
    (hpacket : Written.publishOf qos ⟨packet, some (r.request a)⟩ = some (r.request a))
    (hdivided : (r.modify (·.modifyAt i (r.mark now)) s.inner).Divided) :
    Advanced qos c
      { inner := r.modify (·.modifyAt i (r.mark now)) s.inner
        env := s.env.wrote ⟨packet, some (r.request a)⟩ } := by
  let key (a : α) : UniqueID × Nat := (r.request a, r.sentAt a)
  refine h.step ?_ hdivided
  have hqueue : (line qos s.inner s.env.written).unanswered =
      ((r.queue s.inner).toList.take i).map key ++
        (r.request a, r.sentAt a) :: ((r.queue s.inner).toList.drop (i + 1)).map key := by
    rw [line, hawaiting]
    exact BoundedVec.map_toList hget key
  have hmarked : (r.modify (·.modifyAt i (r.mark now)) s.inner).awaiting qos =
      ((r.queue s.inner).toList.take i).map key ++
        (r.request a, now) :: ((r.queue s.inner).toList.drop (i + 1)).map key := by
    rw [hawaiting, hr.queue_modify, BoundedVec.toList_modifyAt hget, List.map_append, List.map_cons,
      hrequest, hr.sentAt_mark]
  have hbefore (e : UniqueID × Nat) (he : e ∈ ((r.queue s.inner).toList.take i).map key) :
      ¬RESEND_DURATION < now - e.2 := by
    obtain ⟨b, hb, rfl⟩ := List.mem_map.mp he
    obtain ⟨j, hj, rfl⟩ := List.mem_take_iff_getElem.mp hb
    exact hscanned j (by omega) _ (List.getElem?_eq_getElem (by omega))
  have hunsent : (r.modify (·.modifyAt i (r.mark now)) s.inner).unsent qos = s.inner.unsent qos := by
    rw [unsent, hsend, unsent]
  have hstep : Queue.Step RESEND_DURATION _ _ := .again now hqueue hdue hbefore
  unfold line at hstep ⊢
  rw [hmarked, hunsent, Env.wrote_written, List.map_append, List.map_singleton, hpacket]
  exact hstep

/-- A packet that belongs to no message of this QoS is written. -/
theorem Advanced.other {w : Written} {inner : PublishesInner QUEUE BUFFER TOPIC}
    (h : Advanced qos c s) (hawaiting : inner.awaiting qos = s.inner.awaiting qos)
    (hsend : inner.sendPublish = s.inner.sendPublish) (hdivided : inner.Divided)
    (hw : w.publishOf qos = none) : Advanced qos c { inner, env := s.env.wrote w } := by
  refine h.step ?_ hdivided
  unfold line unsent
  rw [hawaiting, hsend, Env.wrote_written, List.map_append, List.map_singleton, hw]
  exact .other

theorem pubackResend_advanced {now : Instant} (hqos : qos ≠ .atMostOnce) :
    Triple (Advanced qos c) (pubackResend.scan now (pure now)) (fun _ => Advanced qos c)
      (fun _ => Advanced qos c) := by
  have hlawful : (@pubackResend QUEUE BUFFER TOPIC).Lawful := ⟨fun _ _ => rfl, fun _ _ => rfl⟩
  refine scan_advanced hlawful fun s i a packet h hscanned hget hdue hpacket => ?_
  cases hpacket
  have ha := h.divided.awaitPuback a (BoundedVec.mem_of_get? hget)
  let marked : PublishesInner QUEUE BUFFER TOPIC :=
    { s.inner with
      awaitPuback := s.inner.awaitPuback.modifyAt i fun e => { e with publishSent := now } }
  have hdivided : marked.Divided := by
    refine ⟨fun e he => ?_, h.divided.awaitPubrec⟩
    rcases BoundedVec.mem_modifyAt he with he | ⟨e, hget, rfl⟩
    · exact h.divided.awaitPuback e he
    · exact h.divided.awaitPuback e (BoundedVec.mem_of_get? hget)
  cases qos with
  | atMostOnce => exact absurd rfl hqos
  | atLeastOnce =>
    have hpacket : Written.publishOf .atLeastOnce ⟨a.publish.borrow, some a.publish.uniqueId⟩ =
        some a.publish.uniqueId := by rw [publishOf_borrow, if_pos ha]
    exact h.again hlawful (fun _ _ => rfl) (fun _ => rfl) (fun _ _ => rfl) hscanned hget hdue hpacket
      hdivided
  | exactlyOnce =>
    have hpacket : Written.publishOf .exactlyOnce ⟨a.publish.borrow, some a.publish.uniqueId⟩ =
        none := by rw [publishOf_borrow, if_neg (by rw [ha]; exact nofun)]
    exact h.other rfl rfl hdivided hpacket

theorem pubrecResend_advanced {now : Instant} (hqos : qos ≠ .atMostOnce) :
    Triple (Advanced qos c) (pubrecResend.scan now (pure now)) (fun _ => Advanced qos c)
      (fun _ => Advanced qos c) := by
  have hlawful : (@pubrecResend QUEUE BUFFER TOPIC).Lawful := ⟨fun _ _ => rfl, fun _ _ => rfl⟩
  refine scan_advanced hlawful fun s i a packet h hscanned hget hdue hpacket => ?_
  cases hpacket
  have ha := h.divided.awaitPubrec a (BoundedVec.mem_of_get? hget)
  let marked : PublishesInner QUEUE BUFFER TOPIC :=
    { s.inner with
      awaitPubrec := s.inner.awaitPubrec.modifyAt i fun e => { e with publishSent := now } }
  have hdivided : marked.Divided := by
    refine ⟨h.divided.awaitPuback, fun e he => ?_⟩
    rcases BoundedVec.mem_modifyAt he with he | ⟨e, hget, rfl⟩
    · exact h.divided.awaitPubrec e he
    · exact h.divided.awaitPubrec e (BoundedVec.mem_of_get? hget)
  cases qos with
  | atMostOnce => exact absurd rfl hqos
  | atLeastOnce =>
    have hpacket : Written.publishOf .atLeastOnce ⟨a.publish.borrow, some a.publish.uniqueId⟩ =
        none := by rw [publishOf_borrow, if_neg (by rw [ha]; exact nofun)]
    exact h.other rfl rfl hdivided hpacket
  | exactlyOnce =>
    have hpacket : Written.publishOf .exactlyOnce ⟨a.publish.borrow, some a.publish.uniqueId⟩ =
        some a.publish.uniqueId := by rw [publishOf_borrow, if_pos ha]
    exact h.again hlawful (fun _ _ => rfl) (fun _ => rfl) (fun _ _ => rfl) hscanned hget hdue hpacket
      hdivided

theorem pubcompResend_advanced {now : Instant} :
    Triple (Advanced qos c) (pubcompResend.scan now (pure now)) (fun _ => Advanced qos c)
      (fun _ => Advanced qos c) := by
  refine scan_advanced ⟨fun _ _ => rfl, fun _ _ => rfl⟩ fun s i a packet h _ _ _ hpacket => ?_
  cases hpacket
  let marked : PublishesInner QUEUE BUFFER TOPIC :=
    { s.inner with
      awaitPubcomp := s.inner.awaitPubcomp.modifyAt i fun e => { e with pubrelSent := now } }
  have hawaiting : marked.awaiting qos = s.inner.awaiting qos := by cases qos <;> rfl
  exact h.other hawaiting rfl ⟨h.divided.awaitPuback, h.divided.awaitPubrec⟩ rfl

/-! ## A pass -/

theorem clocked_advanced {m : Instant → PublishesCall QUEUE BUFFER TOPIC SendResult}
    (hm : ∀ now, Triple (Advanced qos c) (m now) (fun _ => Advanced qos c)
      (fun _ => Advanced qos c)) :
    Triple (Advanced qos c) (timeNow >>= m) (fun _ => Advanced qos c) (fun _ => Advanced qos c) :=
  .bind (Q := fun _ => Advanced qos c) (fun _ h => h.read) hm

theorem next_advanced {f : PublishesCall QUEUE BUFFER TOPIC SendResult} {r : SendResult}
    (hf : Triple (Advanced qos c) f (fun _ => Advanced qos c) (fun _ => Advanced qos c)) :
    Triple (Advanced qos c) (r.next f) (fun _ => Advanced qos c) (fun _ => Advanced qos c) := by
  unfold SendResult.next
  split
  · exact .bind hf fun _ => .pure _ fun _ h => h
  · exact .pure _ fun _ h => h

theorem resendPublishes_advanced (hqos : qos ≠ .atMostOnce) :
    Triple (Advanced qos c) resendPublishes (fun _ => Advanced qos c) (fun _ => Advanced qos c) := by
  refine clocked_advanced fun now => .bind (pubackResend_advanced hqos) fun r => ?_
  cases r with
  | partiallySent => exact .pure _ fun _ h => h
  | sentAll => exact clocked_advanced fun now => pubrecResend_advanced hqos

theorem sendPackets_advanced (hqos : qos ≠ .atMostOnce) :
    Triple (Advanced qos c) sendPackets (fun _ => Advanced qos c) (fun _ => Advanced qos c) := by
  refine .bind sendPendingPubrel_advanced fun r => ?_
  refine .bind (next_advanced (sendPendingPublishes_advanced hqos)) fun r => ?_
  refine .bind (next_advanced (resendPublishes_advanced hqos)) fun r => ?_
  exact next_advanced (clocked_advanced fun now => pubcompResend_advanced)

end PublishesInner

end EmbeddedMqttc
