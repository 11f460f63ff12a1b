import EmbeddedMqttc.ConformingBroker
import EmbeddedMqttc.Library.Ownership

/-!
# Completions and requests that get a freed pid

What is reported as done has reached the broker, as long as no request gets a pid to which an answer
is outstanding. The send passes may write packets again at any time.
-/

namespace EmbeddedMqttc

open Prog EmbeddedMqttc.Comp Run Ownership

variable {QUEUE BUFFER TOPIC : Nat}

/-- The broker has received a packet that carries the request of which the event speaks. -/
def Earned (received : List Written) : MqttEvent → Prop
  | .publishDone u => ∃ message, ⟨.publish message, some u⟩ ∈ received
  | .subscribeDone u _ => ∃ request, ⟨.subscribe request, some u⟩ ∈ received
  | .unsubscribeDone u => ∃ request, ⟨.unsubscribe request, some u⟩ ∈ received

theorem Earned.mono {received received' : List Written} {event : MqttEvent}
    (h : Earned received event) (hsub : received ⊆ received') : Earned received' event := by
  cases event <;> exact h.imp fun _ hmem => hsub hmem

/-- What a packet asks for is an acknowledgement of the request that holds its pid. A PUBCOMP is
found by the PUBREC before it. -/
def Written.HeldBy (holders : List (Pid × UniqueID)) (w : Written) : Prop :=
  ∀ k, w.packet.asks = some k → k.1 = .pubcomp ∨ ∃ u, w.request = some u ∧ (k.2, u) ∈ holders

theorem Written.HeldBy.mono {holders holders' : List (Pid × UniqueID)} {w : Written}
    (h : w.HeldBy holders) (hsub : holders ⊆ holders') : w.HeldBy holders' := by
  intro k hk
  exact (h k hk).imp_right fun ⟨u, hu, hmem⟩ => ⟨u, hu, hsub hmem⟩

theorem Env.AsksNone.mem_outgoing {ofPublish : Bool} {e e' : Env} {w : Written}
    (h : e.AsksNone ofPublish e') (hw : w ∈ e'.outgoing) :
    w ∈ e.outgoing ∨ w.packet.asksOf ofPublish = none := by
  obtain ⟨ws, hws, houtgoing, -⟩ := h.packets
  rw [houtgoing] at hw
  exact (List.mem_append.mp hw).imp_right (hws w)

/-- What asks neither for the publishes nor for the subscriptions asks for nothing. -/
theorem Env.AsksNone.heldBy {e e' : Env} {w : Written} (holders : List (Pid × UniqueID))
    (h : ∀ ofPublish, e.AsksNone ofPublish e') (hw : w ∈ e'.outgoing) :
    w ∈ e.outgoing ∨ w.HeldBy holders := by
  rcases (h true).mem_outgoing hw with hold | htrue
  · exact .inl hold
  rcases (h false).mem_outgoing hw with hold | hfalse
  · exact .inl hold
  refine .inr fun k hk => ?_
  cases hkind : k.1.ofPublish with
  | true => exact absurd (htrue.symm.trans (Packet.asksOf_eq_some_iff.mpr ⟨hk, hkind⟩)) nofun
  | false => exact absurd (hfalse.symm.trans (Packet.asksOf_eq_some_iff.mpr ⟨hk, hkind⟩)) nofun

/-! ## Who holds a pid -/

namespace PublishesInner

/-- The pids in use with the requests that use them. -/
def holders (q : PublishesInner QUEUE BUFFER TOPIC) : List (Pid × UniqueID) :=
  q.sendPublish.toList.filterMap (fun e => e.qospid.pid.map (·, e.uniqueId)) ++
    q.awaitPuback.toList.map (fun e => (e.pid, e.publish.uniqueId)) ++
    q.awaitPubrec.toList.map (fun e => (e.pid, e.publish.uniqueId)) ++
    q.sendPubrel.toList.filterMap (fun e => e.uniqueId.map (e.pid, ·)) ++
    q.awaitPubcomp.toList.map fun e => (e.pid, e.uniqueId)

variable {q : PublishesInner QUEUE BUFFER TOPIC} {received : List Written} {p : Pid} {u : UniqueID}
  {c c' : Ctx (PublishesInner QUEUE BUFFER TOPIC)}

theorem map_fst_holders : q.holders.map Prod.fst = q.pids := by
  simp only [holders, pids, List.map_append, List.map_map, List.map_filterMap, Function.comp_def,
    Option.map_map, SendPubrel.ownPid, Option.map_id']

theorem mem_holders : (p, u) ∈ q.holders ↔
    (∃ e ∈ q.sendPublish, e.qospid.pid = some p ∧ e.uniqueId = u) ∨
    (∃ e ∈ q.awaitPuback, e.pid = p ∧ e.publish.uniqueId = u) ∨
    (∃ e ∈ q.awaitPubrec, e.pid = p ∧ e.publish.uniqueId = u) ∨
    (∃ e ∈ q.sendPubrel, e.pid = p ∧ e.uniqueId = some u) ∨
    ∃ e ∈ q.awaitPubcomp, e.pid = p ∧ e.uniqueId = u := by
  simp only [holders, List.mem_append, List.mem_map, List.mem_filterMap, BoundedVec.mem_toList,
    Option.map_eq_some_iff, Prod.mk.injEq, or_assoc]
  have hfirst (e : OwnedPublish BUFFER TOPIC) :
      (∃ a, e.qospid.pid = some a ∧ a = p ∧ e.uniqueId = u) ↔
        e.qospid.pid = some p ∧ e.uniqueId = u := by
    constructor
    · rintro ⟨_, h, rfl, hu⟩
      exact ⟨h, hu⟩
    · rintro ⟨h, hu⟩
      exact ⟨p, h, rfl, hu⟩
  have hfourth (e : SendPubrel) :
      (∃ a, e.uniqueId = some a ∧ e.pid = p ∧ a = u) ↔ e.pid = p ∧ e.uniqueId = some u := by
    constructor
    · rintro ⟨_, h, hp, rfl⟩
      exact ⟨hp, h⟩
    · rintro ⟨hp, h⟩
      exact ⟨u, h, hp, rfl⟩
  simp only [hfirst, hfourth]

/-- An entry that is written leaves its queue for the next one with its pid and its request. -/
theorem Move.holders_subset (hmove : Move c c') : c'.inner.holders ⊆ c.inner.holders := by
  cases hmove with
  | asked | read => exact List.Subset.refl _
  | pubackResend | pubrecResend | pubcompResend => simp [holders, BoundedVec.map_modifyAt]
  | atMostOnce =>
    rintro ⟨p, u⟩ h
    rw [mem_holders] at h ⊢
    exact h.imp_left BoundedVec.exists_of_removeAt
  | atLeastOnce hi hq hpush =>
    rintro ⟨p, u⟩ h
    rw [mem_holders] at h ⊢
    rcases h with h | h | h
    · exact .inl (BoundedVec.exists_of_removeAt h)
    · rcases BoundedVec.exists_of_push hpush h with h | ⟨rfl, rfl⟩
      · exact .inr (.inl h)
      · exact .inl ⟨_, BoundedVec.mem_of_get? hi, by rw [hq]; rfl, rfl⟩
    · exact .inr (.inr h)
  | exactlyOnce hi hq hpush =>
    rintro ⟨p, u⟩ h
    rw [mem_holders] at h ⊢
    rcases h with h | h | h | h
    · exact .inl (BoundedVec.exists_of_removeAt h)
    · exact .inr (.inl h)
    · rcases BoundedVec.exists_of_push hpush h with h | ⟨rfl, rfl⟩
      · exact .inr (.inr (.inl h))
      · exact .inl ⟨_, BoundedVec.mem_of_get? hi, by rw [hq]; rfl, rfl⟩
    · exact .inr (.inr (.inr h))
  | pubrel hi hu hpush =>
    rintro ⟨p, u⟩ h
    rw [mem_holders] at h ⊢
    refine h.imp_right (.imp_right (.imp_right fun h => ?_))
    rcases h with h | h
    · exact .inl (BoundedVec.exists_of_removeAt h)
    · rcases BoundedVec.exists_of_push hpush h with h | ⟨rfl, rfl⟩
      · exact .inr h
      · exact .inl ⟨_, BoundedVec.mem_of_get? hi, rfl, hu⟩
  | anonymous =>
    rintro ⟨p, u⟩ h
    rw [mem_holders] at h ⊢
    exact h.imp_right (.imp_right (.imp_right (.imp_left BoundedVec.exists_of_removeAt)))

theorem heldBy_borrow {current : OwnedPublish BUFFER TOPIC} {holders : List (Pid × UniqueID)}
    (h : ∀ p, current.qospid.pid = some p → (p, current.uniqueId) ∈ holders) :
    Written.HeldBy holders ⟨current.borrow, some current.uniqueId⟩ := by
  obtain ⟨dup, qospid, retain, topicName, payload, uniqueId⟩ := current
  intro k hk
  refine .inr ⟨uniqueId, rfl, h _ ?_⟩
  cases qospid <;> cases hk <;> rfl

/-- Each packet that is written is that of an entry. -/
theorem Move.heldBy (hmove : Move c c') (htracked : c.inner.Tracked received) {w : Written}
    (hw : w ∈ c'.env.outgoing) : w ∈ c.env.outgoing ∨ w.HeldBy c.inner.holders := by
  cases hmove with
  | asked | read => exact .inl hw
  | atMostOnce hi | atLeastOnce hi | exactlyOnce hi =>
    refine (List.mem_append.mp hw).imp_right fun hw => ?_
    rw [List.mem_singleton.mp hw]
    exact heldBy_borrow fun p hp =>
      mem_holders.mpr (.inl ⟨_, BoundedVec.mem_of_get? hi, hp, rfl⟩)
  | pubrel | anonymous | pubcompResend =>
    refine (List.mem_append.mp hw).imp_right fun hw k hk => .inl ?_
    rw [List.mem_singleton.mp hw] at hk
    cases hk
    rfl
  | pubackResend hi =>
    have he := BoundedVec.mem_of_get? hi
    refine (List.mem_append.mp hw).imp_right fun hw => ?_
    rw [List.mem_singleton.mp hw]
    refine heldBy_borrow fun p hp => mem_holders.mpr (.inr (.inl ⟨_, he, ?_, rfl⟩))
    rw [htracked.puback_qospid _ he] at hp
    exact Option.some.inj hp
  | pubrecResend hi =>
    have he := BoundedVec.mem_of_get? hi
    refine (List.mem_append.mp hw).imp_right fun hw => ?_
    rw [List.mem_singleton.mp hw]
    refine heldBy_borrow fun p hp => mem_holders.mpr (.inr (.inr (.inl ⟨_, he, ?_, rfl⟩)))
    rw [htracked.pubrec_qospid _ he] at hp
    exact Option.some.inj hp

theorem sendPackets_holders (h : c.inner.Tracked received) :
    (sendPackets.exec c).2.inner.Tracked received ∧
      (sendPackets.exec c).2.inner.holders ⊆ c.inner.holders ∧
      ∀ w ∈ (sendPackets.exec c).2.env.outgoing, w ∈ c.env.outgoing ∨ w.HeldBy c.inner.holders := by
  let I (c' : Ctx (PublishesInner QUEUE BUFFER TOPIC)) : Prop :=
    c'.inner.Tracked received ∧ c'.inner.holders ⊆ c.inner.holders ∧
      ∀ w ∈ c'.env.outgoing, w ∈ c.env.outgoing ∨ w.HeldBy c.inner.holders
  have hstep : ∀ c₁ c₂, Move c₁ c₂ → I c₁ → I c₂ := by
    rintro c₁ c₂ hmove ⟨htracked, hsub, hwritten⟩
    refine ⟨htracked.move hmove, List.Subset.trans hmove.holders_subset hsub, fun w hw => ?_⟩
    exact (hmove.heldBy htracked hw).elim (hwritten w) fun hheld => .inr (hheld.mono hsub)
  exact sendPackets_moves.invariant (I := I) hstep ⟨h, List.Subset.refl _, fun w => .inl⟩

/-- What processing an acknowledgement does to the entries: they stay queued as they were, no request
gets a pid, and what is reported as done has reached the broker. -/
structure Earns (received : List Written) (c c' : Ctx (PublishesInner QUEUE BUFFER TOPIC)) : Prop where
  tracked : c'.inner.Tracked received
  holders : c'.inner.holders ⊆ c.inner.holders
  events : ∀ event ∈ c'.env.events, event ∈ c.env.events ∨ Earned received event

theorem processPuback_earns {pid : Pid} (h : c.inner.Tracked received)
    (hcarried : ∀ u, (pid, u) ∈ c.inner.holders → Ack.puback.Carried received (some u)) :
    Earns received c ((processPuback pid).exec c).2 := by
  have htracked := h.processPuback pid
  rcases processPuback_cases c pid with ⟨i, e, hi, rfl, hexec⟩ | ⟨-, hexec⟩ <;>
    rw [hexec] at htracked ⊢
  · refine ⟨htracked, ?_, fun event hevent => (List.mem_append.mp hevent).imp_right fun hevent => ?_⟩
    · rintro ⟨p, u⟩ h
      rw [mem_holders] at h ⊢
      exact h.imp_right (.imp_left BoundedVec.exists_of_removeAt)
    · rw [List.mem_singleton.mp hevent]
      have he := BoundedVec.mem_of_get? hi
      exact hcarried _ (mem_holders.mpr (.inr (.inl ⟨e, he, rfl, rfl⟩)))
  · exact ⟨htracked, List.Subset.refl _, fun event => .inl⟩

theorem processPubcomp_earns {pid : Pid} (h : c.inner.Tracked received) :
    Earns received c ((processPubcomp pid).exec c).2 := by
  have htracked := h.processPubcomp pid
  rcases processPubcomp_cases c pid with ⟨i, e, hi, rfl, hexec⟩ | ⟨-, hexec⟩ <;>
    rw [hexec] at htracked ⊢
  · refine ⟨htracked, ?_, fun event hevent => (List.mem_append.mp hevent).imp_right fun hevent => ?_⟩
    · rintro ⟨p, u⟩ h
      rw [mem_holders] at h ⊢
      exact h.imp_right (.imp_right (.imp_right (.imp_right BoundedVec.exists_of_removeAt)))
    · rw [List.mem_singleton.mp hevent]
      exact h.released e (BoundedVec.mem_of_get? hi)
  · exact ⟨htracked, List.Subset.refl _, fun event => .inl⟩

theorem processPubrec_earns {pid : Pid} (h : c.inner.Tracked received)
    (hcarried : ∀ u, (pid, u) ∈ c.inner.holders → Ack.pubrec.Carried received (some u)) :
    Earns received c ((processPubrec pid).exec c).2 := by
  have htracked : Tracked received ((processPubrec pid).exec c).2.inner :=
    h.processPubrec fun e he hpid =>
      hcarried _ (mem_holders.mpr (.inr (.inr (.inl ⟨e, he, hpid, rfl⟩))))
  rcases processPubrec_cases c pid with ⟨i, e, r, inner, hi, rfl, hres, hexec⟩ |
    ⟨-, r, inner, hres, hexec⟩ <;> rw [hexec] at htracked ⊢ <;>
    refine ⟨htracked, ?_, fun event => .inl⟩
  · rintro ⟨p, u⟩ h
    unfold pubrecResult at hres
    rw [mem_holders] at h ⊢
    cases hpush : c.inner.sendPubrel.push ⟨e.pid, some e.publish.uniqueId⟩ with
    | none =>
      rw [hpush] at hres
      cases hres
      exact h.imp_right (.imp_right (.imp_left BoundedVec.exists_of_removeAt))
    | some queue =>
      rw [hpush] at hres
      cases hres
      refine h.imp_right (.imp_right fun h => ?_)
      rcases h with h | h | h
      · exact .inl (BoundedVec.exists_of_removeAt h)
      · rcases BoundedVec.exists_of_push hpush h with h | ⟨rfl, hu⟩
        · exact .inr (.inl h)
        · cases hu
          exact .inl ⟨e, BoundedVec.mem_of_get? hi, rfl, rfl⟩
      · exact .inr (.inr h)
  · rintro ⟨p, u⟩ h
    unfold pubrecResult at hres
    rw [mem_holders] at h ⊢
    cases hpush : c.inner.sendPubrel.push ⟨pid, none⟩ with
    | none =>
      rw [hpush] at hres
      cases hres
      exact h
    | some queue =>
      rw [hpush] at hres
      cases hres
      refine h.imp_right (.imp_right (.imp_right (.imp_left fun h => ?_)))
      rcases BoundedVec.exists_of_push hpush h with h | ⟨-, hu⟩
      · exact h
      · cases hu

end PublishesInner

namespace SubsInner

/-- The pids in use with the requests that use them. -/
def holders (q : SubsInner TOPIC QUEUE) : List (Pid × UniqueID) :=
  q.sendRequest.toList.map (fun r => (r.pid, r.uniqueId)) ++
    q.awaitAck.toList.map fun e => (e.request.pid, e.request.uniqueId)

variable {q : SubsInner TOPIC QUEUE} {received : List Written} {p : Pid} {u : UniqueID}
  {topicPathCapacity : Nat} {c c' : Ctx (SubsInner TOPIC QUEUE)}

theorem map_fst_holders : q.holders.map Prod.fst = q.pids := by
  simp only [holders, pids, List.map_append, List.map_map, Function.comp_def]

theorem mem_holders : (p, u) ∈ q.holders ↔
    (∃ r ∈ q.sendRequest, r.pid = p ∧ r.uniqueId = u) ∨
    ∃ e ∈ q.awaitAck, e.request.pid = p ∧ e.request.uniqueId = u := by
  simp only [holders, List.mem_append, List.mem_map, BoundedVec.mem_toList, Prod.mk.injEq]

theorem mem_holders_removeAt {i : Nat} :
    holders { q with awaitAck := q.awaitAck.removeAt i } ⊆ q.holders := by
  rintro ⟨p, u⟩ h
  rw [mem_holders] at h ⊢
  exact h.imp_right BoundedVec.exists_of_removeAt

theorem Move.holders_subset (hmove : Move topicPathCapacity c c') :
    c'.inner.holders ⊆ c.inner.holders := by
  cases hmove with
  | asked | read => exact List.Subset.refl _
  | resend => simp [holders, BoundedVec.map_modifyAt]
  | request hpop hpacket hpush =>
    have hqueue := BoundedVec.popFront_eq_some_iff.mp hpop
    rintro ⟨p, u⟩ h
    rw [mem_holders] at h ⊢
    rcases h with ⟨r, hr, heq⟩ | h
    · exact .inl ⟨r, BoundedVec.mem_toList.mp (hqueue ▸ List.mem_cons_of_mem _ hr), heq⟩
    · rcases BoundedVec.exists_of_push hpush h with h | ⟨rfl, rfl⟩
      · exact .inr h
      · exact .inl ⟨_, BoundedVec.mem_toList.mp (hqueue ▸ List.mem_cons_self), rfl, rfl⟩

theorem heldBy_createPacket {r : SubRequest TOPIC} {packet : Packet}
    {holders : List (Pid × UniqueID)} (h : r.createPacket topicPathCapacity = .ok packet)
    (hmem : (r.pid, r.uniqueId) ∈ holders) : Written.HeldBy holders ⟨packet, some r.uniqueId⟩ := by
  intro k hk
  cases hk.symm.trans (r.asks_createPacket h)
  refine .inr ⟨_, rfl, ?_⟩
  unfold SubRequest.awaited
  cases r.requestType <;> exact hmem

/-- Each packet that is written is that of an entry. -/
theorem Move.heldBy (hmove : Move topicPathCapacity c c') {w : Written}
    (hw : w ∈ c'.env.outgoing) : w ∈ c.env.outgoing ∨ w.HeldBy c.inner.holders := by
  cases hmove with
  | asked | read => exact .inl hw
  | request hpop hpacket =>
    have hqueue := BoundedVec.popFront_eq_some_iff.mp hpop
    refine (List.mem_append.mp hw).imp_right fun hw => ?_
    rw [List.mem_singleton.mp hw]
    refine heldBy_createPacket hpacket (mem_holders.mpr (.inl ⟨_, ?_, rfl, rfl⟩))
    exact BoundedVec.mem_toList.mp (hqueue ▸ List.mem_cons_self)
  | resend hi hdue hpacket =>
    refine (List.mem_append.mp hw).imp_right fun hw => ?_
    rw [List.mem_singleton.mp hw]
    exact heldBy_createPacket hpacket
      (mem_holders.mpr (.inr ⟨_, BoundedVec.mem_of_get? hi, rfl, rfl⟩))

theorem send_holders (topicPathCapacity : Nat) (c : Ctx (SubsInner TOPIC QUEUE)) :
    ((send topicPathCapacity).exec c).2.inner.holders ⊆ c.inner.holders ∧
      ∀ w ∈ ((send topicPathCapacity).exec c).2.env.outgoing,
        w ∈ c.env.outgoing ∨ w.HeldBy c.inner.holders := by
  let I (c' : Ctx (SubsInner TOPIC QUEUE)) : Prop :=
    c'.inner.holders ⊆ c.inner.holders ∧
      ∀ w ∈ c'.env.outgoing, w ∈ c.env.outgoing ∨ w.HeldBy c.inner.holders
  have hstep : ∀ c₁ c₂, Move topicPathCapacity c₁ c₂ → I c₁ → I c₂ := by
    rintro c₁ c₂ hmove ⟨hsub, hwritten⟩
    refine ⟨List.Subset.trans hmove.holders_subset hsub, fun w hw => ?_⟩
    exact (hmove.heldBy hw).elim (hwritten w) fun hheld => .inr (hheld.mono hsub)
  exact send_moves.invariant (I := I) hstep ⟨List.Subset.refl _, fun w => .inl⟩

theorem onSuback_earns {response : Suback}
    (hcarried : ∀ u, (response.pid, u) ∈ c.inner.holders → Ack.suback.Carried received (some u)) :
    ((onSuback response).exec c).2.inner.holders ⊆ c.inner.holders ∧
      ∀ event ∈ ((onSuback response).exec c).2.env.events,
        event ∈ c.env.events ∨ Earned received event := by
  rcases onSuback_cases response c with hexec | ⟨i, e, qos, result, hi, hpid, -, hexec⟩ <;>
    rw [hexec]
  · exact ⟨List.Subset.refl _, fun event => .inl⟩
  · refine ⟨mem_holders_removeAt, fun event hevent =>
      (List.mem_append.mp hevent).imp_right fun hevent => ?_⟩
    rw [List.mem_singleton.mp hevent]
    exact hcarried _ (mem_holders.mpr (.inr ⟨e, BoundedVec.mem_of_get? hi, hpid, rfl⟩))

theorem onUnsuback_earns {pid : Pid}
    (hcarried : ∀ u, (pid, u) ∈ c.inner.holders → Ack.unsuback.Carried received (some u)) :
    ((onUnsuback pid).exec c).2.inner.holders ⊆ c.inner.holders ∧
      ∀ event ∈ ((onUnsuback pid).exec c).2.env.events,
        event ∈ c.env.events ∨ Earned received event := by
  rcases onUnsuback_cases pid c with hexec | ⟨i, e, hi, hpid, -, hexec⟩ <;> rw [hexec]
  · exact ⟨List.Subset.refl _, fun event => .inl⟩
  · refine ⟨mem_holders_removeAt, fun event hevent =>
      (List.mem_append.mp hevent).imp_right fun hevent => ?_⟩
    rw [List.mem_singleton.mp hevent]
    exact hcarried _ (mem_holders.mpr (.inr ⟨e, BoundedVec.mem_of_get? hi, hpid, rfl⟩))

end SubsInner

/-! ## The client -/

namespace Client

/-- The pids in use with the requests that use them. A publish whose call waits for room has its pid
already. -/
def holders (s : Client QUEUE BUFFER TOPIC) : List (Pid × UniqueID) :=
  s.publishes.holders ++ s.subscribes.holders ++
    s.waiting.filterMap fun w => w.1.qospid.pid.map (·, w.2)

variable {s : Client QUEUE BUFFER TOPIC} {topicPathCapacity : Nat} {l : Label}
  {received : List Written} {p : Pid} {u u' : UniqueID}

theorem map_fst_holders : s.holders.map Prod.fst ++ s.autoSubscribe.toList = s.pids := by
  simp only [holders, pids, List.map_append, PublishesInner.map_fst_holders,
    SubsInner.map_fst_holders, List.map_filterMap, Option.map_map, Function.comp_def, Option.map_id']

/-- No pid has two users. -/
theorem holders_unique (hs : s.env.pool.Sound s.uses) (h : (p, u) ∈ s.holders)
    (h' : (p, u') ∈ s.holders) : u' = u := by
  have hnodup : (s.holders.map Prod.fst).Nodup := by
    rw [List.nodup_iff_count_le_one]
    intro p
    have hone := hs.used_le_one p
    rw [← count_pids, ← map_fst_holders, List.count_append] at hone
    omega
  exact (Prod.mk.inj (List.inj_on_of_nodup_map hnodup h' h rfl)).2

/-- A send pass writes packets of requests that hold their pids, and gives no pid to another one. -/
structure Passes (received : List Written) (s s' : Client QUEUE BUFFER TOPIC) : Prop where
  tracked : s'.publishes.Tracked received
  holders : s'.holders ⊆ s.holders
  written : ∀ w ∈ s'.env.outgoing, w ∈ s.env.outgoing ∨ w.HeldBy s.holders

theorem publishes_holders : s.publishes.holders ⊆ s.holders :=
  List.Subset.trans (List.subset_append_left ..) (List.subset_append_left ..)

theorem subscribes_holders : s.subscribes.holders ⊆ s.holders :=
  List.Subset.trans (List.subset_append_right ..) (List.subset_append_left ..)

theorem holders_subset {s' : Client QUEUE BUFFER TOPIC}
    (hpublishes : s'.publishes.holders ⊆ s.publishes.holders)
    (hsubscribes : s'.subscribes.holders ⊆ s.subscribes.holders) (hwaiting : s'.waiting = s.waiting) :
    s'.holders ⊆ s.holders := by
  unfold holders
  rw [hwaiting]
  intro w hw
  simp only [List.mem_append] at hw ⊢
  exact hw.imp_left (·.imp (@hpublishes w) (@hsubscribes w))

theorem outcome_passes (h : s.publishes.Tracked received) (hrequest : l.isRequest = false)
    (hl : ∀ packet, l ≠ .receive packet) :
    Passes received s (s.outcome topicPathCapacity l).2 := by
  cases l with
  | sendPublishes answers ticks =>
    obtain ⟨htracked, hsub, hwritten⟩ := PublishesInner.sendPackets_holders
      (c := ⟨s.publishes, (s.scripted answers ticks).env⟩) h
    exact ⟨htracked, holders_subset hsub (List.Subset.refl _) rfl,
      fun w hw => (hwritten w hw).imp_right (·.mono publishes_holders)⟩
  | sendSubscribes answers ticks =>
    obtain ⟨hsub, hwritten⟩ := SubsInner.send_holders topicPathCapacity
      ⟨s.subscribes, (s.scripted answers ticks).env⟩
    exact ⟨h, holders_subset (List.Subset.refl _) hsub rfl,
      fun w hw => (hwritten w hw).imp_right (·.mono subscribes_holders)⟩
  | sendReceives answers =>
    refine ⟨h, List.Subset.refl _, fun w => Env.AsksNone.heldBy _ fun ofPublish => ?_⟩
    have hpass := Receives.sendPackets_asksNone ofPublish ⟨s.receives, (s.scripted answers []).env⟩
    exact (scripted_asksNone answers []).trans hpass.1
  | sendPing answers ticks =>
    refine ⟨h, List.Subset.refl _, fun w => Env.AsksNone.heldBy _ fun ofPublish => ?_⟩
    have hpass := PingStateInner.send_asksNone ofPublish ⟨s.ping, (s.scripted answers ticks).env⟩
    exact (scripted_asksNone answers ticks).trans hpass.1
  | wait d => exact ⟨h, List.Subset.refl _, fun w => .inl⟩
  | receive packet => exact absurd rfl (hl packet)
  | _ => cases hrequest

variable (topicPathCapacity) in
/-- What is reported as done when a packet is processed has reached the broker, if the request that
holds the pid of an acknowledgement has. -/
theorem receive_earned {packet : Packet} (h : s.publishes.Tracked received)
    (hcarried : ∀ k, packet.acks = some k → k.1 ≠ .pubcomp →
      ∀ u, (k.2, u) ∈ s.holders → k.1.Carried received (some u)) :
    (s.outcome topicPathCapacity (.receive packet)).2.publishes.Tracked received ∧
      (s.outcome topicPathCapacity (.receive packet)).2.holders ⊆ s.holders ∧
      ∀ event ∈ (s.outcome topicPathCapacity (.receive packet)).2.env.events,
        event ∈ s.env.events ∨ Earned received event := by
  have hpublishes {c' : Ctx (PublishesInner QUEUE BUFFER TOPIC)}
      (hc' : PublishesInner.Earns received ⟨s.publishes, s.env⟩ c') :
      c'.inner.Tracked received ∧
        ({ s with publishes := c'.inner, env := c'.env } : Client QUEUE BUFFER TOPIC).holders ⊆
          s.holders ∧
        ∀ event ∈ c'.env.events, event ∈ s.env.events ∨ Earned received event :=
    ⟨hc'.tracked, holders_subset hc'.holders (List.Subset.refl _) rfl, hc'.events⟩
  cases packet with
  | publish message =>
    have henv : (s.outcome topicPathCapacity (.receive (.publish message))).2.env = s.env :=
      Receives.onPublish_env ⟨s.receives, s.env⟩ message
    exact ⟨h, List.Subset.refl _, fun event hevent => .inl (henv ▸ hevent)⟩
  | pubrel pid =>
    have henv : (s.outcome topicPathCapacity (.receive (.pubrel pid))).2.env = s.env :=
      Receives.onPubrel_env ⟨s.receives, s.env⟩ pid
    exact ⟨h, List.Subset.refl _, fun event hevent => .inl (henv ▸ hevent)⟩
  | puback pid =>
    have hpid (u : UniqueID) (hu : (pid, u) ∈ s.publishes.holders) :=
      hcarried _ rfl nofun u (publishes_holders hu)
    exact hpublishes (PublishesInner.processPuback_earns (c := ⟨s.publishes, s.env⟩) h hpid)
  | pubrec pid =>
    have hpid (u : UniqueID) (hu : (pid, u) ∈ s.publishes.holders) :=
      hcarried _ rfl nofun u (publishes_holders hu)
    exact hpublishes (PublishesInner.processPubrec_earns (c := ⟨s.publishes, s.env⟩) h hpid)
  | pubcomp pid =>
    exact hpublishes (PublishesInner.processPubcomp_earns (c := ⟨s.publishes, s.env⟩) h)
  | suback response =>
    have hpid (u : UniqueID) (hu : (response.pid, u) ∈ s.subscribes.holders) :=
      hcarried _ rfl nofun u (subscribes_holders hu)
    have hearns := SubsInner.onSuback_earns (c := ⟨s.subscribes, s.env⟩) hpid
    exact ⟨h, holders_subset (List.Subset.refl _) hearns.1 rfl, hearns.2⟩
  | unsuback pid =>
    have hpid (u : UniqueID) (hu : (pid, u) ∈ s.subscribes.holders) :=
      hcarried _ rfl nofun u (subscribes_holders hu)
    have hearns := SubsInner.onUnsuback_earns (c := ⟨s.subscribes, s.env⟩) hpid
    exact ⟨h, holders_subset (List.Subset.refl _) hearns.1 rfl, hearns.2⟩
  | _ => exact ⟨h, List.Subset.refl _, fun event => .inl⟩

end Client

/-! ## The connection -/

/-- The broker gives the acknowledgement that it was asked for. -/
theorem Packet.acks_answer {packet answer : Packet} {returnCodes : List SubscribeReturnCodes}
    (h : packet.answer returnCodes = some answer) : answer.acks = packet.asks := by
  cases packet with
  | publish message =>
    obtain ⟨dup, qospid, retain, topicName, payload⟩ := message
    cases qospid <;> cases h <;> rfl
  | pubrel | subscribe | unsubscribe => cases h; rfl
  | _ => cases h

/-- What the packets ask for, with the requests that they carry. -/
def asked (ws : List Written) : Set ((Ack × Pid) × Option UniqueID) :=
  { t | ∃ w ∈ ws, w.packet.asks = some t.1 ∧ w.request = t.2 }

/-- What the packets acknowledge. -/
def acked (ps : List Packet) : Set (Ack × Pid) := { k | ∃ p ∈ ps, p.acks = some k }

theorem asked_mono {ws ws' : List Written} (h : ws ⊆ ws') : asked ws ⊆ asked ws' := by
  rintro t ⟨w, hw, ht⟩
  exact ⟨w, h hw, ht⟩

theorem acked_mono {ps ps' : List Packet} (h : ∀ p ∈ ps, p ∈ ps' ∨ p.acks = none) :
    acked ps ⊆ acked ps' := by
  rintro k ⟨p, hp, hk⟩
  rcases h p hp with hp | hnone
  · exact ⟨p, hp, hk⟩
  · cases hnone.symm.trans hk

namespace Session

variable {s s' : Session QUEUE BUFFER TOPIC} {topicPathCapacity : Nat} {l : Label}

/-- No request gets a pid while an answer with it, other than a PUBCOMP, is outstanding. -/
def TakesAnswered (topicPathCapacity : Nat) (s : Session QUEUE BUFFER TOPIC) : Label → Prop
  | .client l =>
    ∀ h ∈ (s.client.outcome topicPathCapacity l).2.holders, h ∈ s.client.holders ∨
      ∀ k ∈ s.outstanding, k.2 = h.1 → k.1 = .pubcomp
  | _ => True

instance (l : Label) : Decidable (s.TakesAnswered topicPathCapacity l) := by
  unfold TakesAnswered
  split <;> infer_instance

/-- The request that holds the pid of an outstanding answer has reached the broker, or it does with
the packet that the answer will be to. -/
structure Keeping (s : Session QUEUE BUFFER TOPIC) : Prop where
  kept : Kept Prod.snd (fun p r => ∃ u, r = some u ∧ (p, u) ∈ s.client.holders)
    (asked s.client.env.outgoing) (acked (s.owed ++ s.toClient))
    fun k r => k.1 ≠ .pubcomp → k.1.Carried s.received r
  tracked : s.client.publishes.Tracked s.received

theorem mem_outstanding {k : Ack × Pid} :
    k ∈ s.outstanding ↔ (∃ r, (k, r) ∈ asked s.client.env.outgoing) ∨
      k ∈ acked (s.owed ++ s.toClient) := by
  rw [outstanding, List.mem_append, List.mem_filterMap, List.mem_filterMap]
  refine or_congr ⟨?_, ?_⟩ .rfl
  · rintro ⟨w, hw, hk⟩
    exact ⟨_, w, hw, hk, rfl⟩
  · rintro ⟨r, w, hw, hk, -⟩
    exact ⟨w, hw, hk⟩

variable (topicPathCapacity) in
/-- A send pass may write again what it likes. -/
theorem Keeping.pass {l : Client.Label} (h : s.Keeping) (hs : s.Sane)
    (hrequest : l.isRequest = false) (hl : ∀ packet, l ≠ .receive packet) :
    Keeping { s with client := (s.client.outcome topicPathCapacity l).2 } := by
  have hpass : Client.Passes s.received s.client (s.client.outcome topicPathCapacity l).2 :=
    Client.outcome_passes h.tracked hrequest hl
  refine ⟨(h.kept.write ?_).assign ?_, hpass.tracked⟩
  · rintro k r ⟨w, hw, hk, rfl⟩
    rcases hpass.written w hw with hold | hheld
    · exact .inl ⟨w, hold, hk, rfl⟩
    · refine .inr fun r' hr' => ?_
      rcases hheld k hk with hcomp | ⟨u, hu, hmem⟩
      · exact .inr fun hne => absurd hcomp hne
      · obtain ⟨u', rfl, hmem'⟩ := hr'
        exact .inl (by rw [hu, Client.holders_unique hs.pids hmem hmem'])
  · rintro k - r ⟨u, hr, hmem⟩
    exact .inl ⟨u, hr, hpass.holders hmem⟩

variable (topicPathCapacity) in
/-- The users call, and no request gets a pid that is outstanding. -/
theorem Keeping.request {l : Client.Label} (h : s.Keeping) (hrequest : l.isRequest = true)
    (hl : s.TakesAnswered topicPathCapacity (.client l)) :
    Keeping { s with client := (s.client.outcome topicPathCapacity l).2 } := by
  obtain ⟨sendPublish, sendRequest, pool, waiting, autoSubscribe, issued, heq⟩ :=
    s.client.outcome_request topicPathCapacity hrequest
  simp only [TakesAnswered] at hl
  rw [heq] at hl ⊢
  refine ⟨h.kept.assign ?_, { h.tracked with }⟩
  rintro k hk r ⟨u, rfl, hmem⟩
  rcases hl (k.2, u) hmem with hold | hfree
  · exact .inl ⟨u, rfl, hold⟩
  · exact .inr fun hne => absurd (hfree k (mem_outstanding.mpr hk) rfl) hne

variable (topicPathCapacity) in
/-- The client processes a packet. -/
theorem Keeping.receive {packet : Packet} {toClient : List Packet} (h : s.Keeping)
    (hin : s.toClient = packet :: toClient) :
    Keeping
        { s with
          client := (s.client.outcome topicPathCapacity (.receive packet)).2
          toClient } ∧
      ∀ event ∈ (s.client.outcome topicPathCapacity (.receive packet)).2.env.events,
        event ∈ s.client.env.events ∨ Earned s.received event := by
  have hcarried (k : Ack × Pid) (hk : packet.acks = some k) (hne : k.1 ≠ .pubcomp) (u : UniqueID)
      (hu : (k.2, u) ∈ s.client.holders) : k.1.Carried s.received (some u) := by
    refine h.kept.of_answer k ⟨packet, ?_, hk⟩ (some u) ⟨u, rfl, hu⟩ hne
    exact List.mem_append_right _ (hin ▸ List.mem_cons_self)
  obtain ⟨htracked, hsub, hevents⟩ := Client.receive_earned topicPathCapacity h.tracked hcarried
  refine ⟨⟨?_, htracked⟩, hevents⟩
  dsimp only
  rw [(s.client.receive_unwritten topicPathCapacity packet).1]
  refine (h.kept.mono (Set.Subset.refl _) (acked_mono fun p hp => .inl ?_) fun _ _ => id).assign ?_
  · rw [hin]
    exact (List.mem_append.mp hp).elim (List.mem_append_left _)
      fun hp => List.mem_append_right _ (List.mem_cons_of_mem _ hp)
  · rintro k - r ⟨u, hr, hmem⟩
    exact .inl ⟨u, hr, hsub hmem⟩

/-- The broker receives a packet and will answer it. -/
theorem Keeping.arrive {w : Written} {outgoing : List Written} (h : s.Keeping)
    (hout : s.client.env.outgoing = w :: outgoing) (returnCodes : List SubscribeReturnCodes) :
    Keeping
      { s with
        client := s.withOutgoing outgoing
        owed := s.owed ++ (w.packet.answer returnCodes).toList
        broker := s.broker.receive w
        received := s.received ++ [w] } := by
  have hreceived : s.received ⊆ s.received ++ [w] := List.subset_append_left ..
  have hw : w ∈ s.received ++ [w] := List.mem_append_right _ (List.mem_singleton_self w)
  have hmono := h.kept.mono (Set.Subset.refl _) (Set.Subset.refl _)
    fun k r hr hne => (hr hne).mono hreceived
  have hsent : asked outgoing ⊆ asked s.client.env.outgoing :=
    asked_mono (hout ▸ List.subset_cons_self ..)
  refine ⟨?_, h.tracked.mono hreceived⟩
  cases hk : w.packet.asks with
  | none =>
    refine hmono.mono hsent (acked_mono fun p hp => ?_) fun _ _ => id
    simp only [List.mem_append, Option.mem_toList] at hp ⊢
    rcases hp with (hp | hp) | hp
    · exact .inl (.inl hp)
    · exact .inr ((Packet.acks_answer hp).trans hk)
    · exact .inl (.inr hp)
  | some k =>
    have hasked : (k, w.request) ∈ asked s.client.env.outgoing :=
      ⟨w, hout ▸ List.mem_cons_self, hk, rfl⟩
    refine (hmono.arrive hasked fun hne => .of_asks hk hw hne).mono hsent ?_ fun _ _ => id
    rintro k' ⟨p, hp, hk'⟩
    simp only [List.mem_append, Option.mem_toList] at hp
    rcases hp with (hp | hp) | hp
    · exact .inr ⟨p, List.mem_append_left _ hp, hk'⟩
    · exact .inl (Option.some.inj (hk'.symm.trans ((Packet.acks_answer hp).trans hk)))
    · exact .inr ⟨p, List.mem_append_right _ hp, hk'⟩

theorem Keeping.step (h : s.Keeping) (hs : s.Sane) (hl : s.TakesAnswered topicPathCapacity l)
    (hnext : s.next topicPathCapacity l = some s') : s'.Keeping := by
  cases l with
  | client l =>
    rw [client_next_eq hnext]
    cases hrequest : l.isRequest with
    | true => exact h.request topicPathCapacity hrequest hl
    | false =>
      exact h.pass topicPathCapacity hs hrequest fun packet heq => by subst heq; cases hnext
  | clientReceive =>
    obtain ⟨packet, toClient, hin, rfl⟩ := clientReceive_next_eq hnext
    exact (h.receive topicPathCapacity hin).1
  | brokerReceive returnCodes =>
    obtain ⟨w, outgoing, hout, rfl⟩ := brokerReceive_next_eq hnext
    exact h.arrive hout returnCodes
  | brokerAnswer i =>
    obtain ⟨packet, hi, rfl⟩ := brokerAnswer_next_eq hnext
    refine ⟨h.kept.mono (Set.Subset.refl _) (acked_mono fun p hp => .inl ?_) fun _ _ => id, h.tracked⟩
    have hpacket := List.mem_of_getElem? hi
    simp only [List.mem_append, List.mem_singleton] at hp ⊢
    rcases hp with hp | hp | rfl
    · exact .inl (List.mem_of_mem_eraseIdx hp)
    · exact .inr hp
    · exact .inl hpacket
  | brokerSend packet =>
    obtain ⟨hacks, rfl⟩ := brokerSend_next_eq hnext
    refine ⟨h.kept.mono (Set.Subset.refl _) (acked_mono fun p hp => ?_) fun _ _ => id, h.tracked⟩
    simp only [List.mem_append, List.mem_singleton] at hp ⊢
    rcases hp with hp | hp | rfl
    · exact .inl (.inl hp)
    · exact .inl (.inr hp)
    · exact .inr hacks
  | reconnect d =>
    cases hnext
    refine ⟨h.kept.mono (asked_mono (List.nil_subset _)) (acked_mono ?_) fun _ _ => id, h.tracked⟩
    exact fun p hp => by cases hp

/-! ## Completions are earned -/

/-- What has been reported as done has been received by the broker, or it is a publish of QoS 0 that
the connection has accepted. -/
def Reported (s : Session QUEUE BUFFER TOPIC) : Prop :=
  ∀ event ∈ s.client.env.events, Earned s.received event ∨ s.client.env.SentOnce event

theorem Reported.step (h : s.Reported) (hkeeping : s.Keeping)
    (hnext : s.next topicPathCapacity l = some s') : s'.Reported := by
  intro event hevent
  cases l with
  | client l =>
    rw [client_next_eq hnext] at hevent ⊢
    have hcases := Client.outcome_events (fun packet heq => by subst heq; cases hnext) hevent
    rcases hcases with hold | hnew
    · exact (h event hold).imp_right (·.mono Client.written_subset_outcome)
    · exact .inr hnew
  | clientReceive =>
    obtain ⟨packet, toClient, hin, rfl⟩ := clientReceive_next_eq hnext
    rcases (hkeeping.receive topicPathCapacity hin).2 event hevent with hold | hnew
    · exact (h event hold).imp_right (·.mono Client.written_subset_outcome)
    · exact .inl hnew
  | brokerReceive =>
    obtain ⟨w, outgoing, -, rfl⟩ := brokerReceive_next_eq hnext
    exact (h event hevent).imp_left (·.mono (List.subset_append_left ..))
  | brokerAnswer =>
    obtain ⟨packet, -, rfl⟩ := brokerAnswer_next_eq hnext
    exact h event hevent
  | brokerSend =>
    obtain ⟨-, rfl⟩ := brokerSend_next_eq hnext
    exact h event hevent
  | reconnect =>
    cases hnext
    exact h event hevent

theorem new_keeping : (new : Session QUEUE BUFFER TOPIC).Keeping where
  kept := Kept.empty.mono (fun _ ⟨_, hw, _⟩ => by cases hw) (fun _ ⟨_, hp, _⟩ => by cases hp)
    fun _ _ => id
  tracked := .new

/-- When no request gets a pid while an answer with it is outstanding, a request is reported as done
only after the broker has received it, however often packets are written again; a publish of QoS 0 is
when the connection has accepted it. -/
theorem completions_earned {ls : List Label} {t : Session QUEUE BUFFER TOPIC}
    (hG : AllSteps (next · topicPathCapacity) (TakesAnswered topicPathCapacity)
      (new : Session QUEUE BUFFER TOPIC) ls)
    (hr : run (next · topicPathCapacity) new ls = some t) :
    ∀ event ∈ t.client.env.events, Earned t.received event ∨ t.client.env.SentOnce event := by
  let I (s : Session QUEUE BUFFER TOPIC) : Prop := s.Sane ∧ s.Keeping ∧ s.Reported
  have hstep : ∀ s l s', I s → s.TakesAnswered topicPathCapacity l →
      s.next topicPathCapacity l = some s' → I s' := by
    rintro s l s' ⟨hs, hkeeping, hreported⟩ hl hnext
    exact ⟨hs.step hnext, hkeeping.step hs hl hnext, hreported.step hkeeping hnext⟩
  have hnew : I new := ⟨new_sane, new_keeping, nofun⟩
  exact (hG.invariant (I := I) hstep hnew hr).2.2

/-- The second answer to a publish finds the next one, which has its pid. -/
def reusedPidRun : List Label :=
  (lateAnswerRun .atLeastOnce).dropLast ++
    [ .client (.publish [116] [7] .atLeastOnce false 2), .client (.poll 0),
      .client (.sendPublishes [.ok true] []), .clientReceive ]

/-- A publish of QoS 0 is accepted by the connection. -/
def fireAndForgetRun : List Label := (publishRun .atMostOnce).dropLast

theorem reusedPidRun_unearned :
    (∃ t, run (next · 16) (new : Session 4 8 8) reusedPidRun = some t ∧
      ∃ event ∈ t.client.env.events, ¬Earned t.received event) ∧
    ∃ t, run (next · 16) (new : Session 4 8 8) fireAndForgetRun = some t ∧
      ∃ event ∈ t.client.env.events, ¬Earned t.received event := by
  have hdone (u : UniqueID) (received : List Written)
      (h : ∀ w ∈ received, w.request ≠ some u) : ¬Earned received (.publishDone u) := by
    rintro ⟨message, hmem⟩
    exact h _ hmem rfl
  have hreused : (run (next · 16) (new : Session 4 8 8) reusedPidRun).map
      (fun t => (t.client.env.events, t.received.map (·.request))) =
        some ([.publishDone ⟨1, 0⟩, .publishDone ⟨2, 1⟩], [some ⟨1, 0⟩, some ⟨1, 0⟩]) := by
    decide +kernel
  have hforget : (run (next · 16) (new : Session 4 8 8) fireAndForgetRun).map
      (fun t => (t.client.env.events, t.received.map (·.request))) =
        some ([.publishDone ⟨1, 0⟩], []) := by
    decide +kernel
  refine ⟨?_, ?_⟩
  · obtain ⟨t, ht, heq⟩ := Option.map_eq_some_iff.mp hreused
    obtain ⟨hevents, hreceived⟩ := Prod.mk.inj heq
    refine ⟨t, ht, .publishDone ⟨2, 1⟩, by rw [hevents]; decide, hdone _ _ fun w hw => ?_⟩
    have hmem := List.mem_map_of_mem (f := Written.request) hw
    rw [hreceived] at hmem
    revert hmem
    generalize w.request = r
    rintro hmem rfl
    revert hmem
    decide
  · obtain ⟨t, ht, heq⟩ := Option.map_eq_some_iff.mp hforget
    obtain ⟨hevents, hreceived⟩ := Prod.mk.inj heq
    refine ⟨t, ht, .publishDone ⟨1, 0⟩, by rw [hevents]; decide, hdone _ _ fun w hw => ?_⟩
    rw [List.map_eq_nil_iff.mp hreceived] at hw
    cases hw

/-- A publish and a subscription are each written twice and answered twice. The next publish is made
before the first answer frees a pid, so that it gets another one. -/
def repeatedRun : List Label :=
  publishRun .atLeastOnce ++
    [ .client (.subscribe [[116]] .atLeastOnce 2), .client (.sendSubscribes [.ok true] []),
      .brokerReceive [.success .atLeastOnce], .client (.wait (.fromSecs 6)),
      .client (.sendPublishes [.ok true] []), .client (.sendSubscribes [.ok true] []),
      .brokerReceive [], .brokerReceive [], .client (.publish [116] [8] .atLeastOnce false 3),
      .client (.poll 0), .client (.sendPublishes [.ok true] []) ] ++
    List.replicate 4 (.brokerAnswer 0) ++ List.replicate 4 .clientReceive ++
    [.brokerReceive [], .brokerAnswer 0, .clientReceive]

theorem completions_earned_on_repeatedRun : ∃ t : Session 4 8 8,
    run (next · 16) new repeatedRun = some t ∧
      t.client.env.events = [.publishDone ⟨1, 0⟩, .subscribeDone ⟨2, 1⟩ (.ok .atLeastOnce),
        .publishDone ⟨3, 2⟩] ∧
      ∀ event ∈ t.client.env.events, Earned t.received event ∨ t.client.env.SentOnce event := by
  have hrun : (run (next · 16) (new : Session 4 8 8) repeatedRun).map (·.client.env.events) =
      some [.publishDone ⟨1, 0⟩, .subscribeDone ⟨2, 1⟩ (.ok .atLeastOnce), .publishDone ⟨3, 2⟩] := by
    decide +kernel
  obtain ⟨t, ht, hevents⟩ := Option.map_eq_some_iff.mp hrun
  exact ⟨t, ht, hevents, completions_earned (by decide +kernel) ht⟩

end Session

end EmbeddedMqttc
