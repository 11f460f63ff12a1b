import EmbeddedMqttc.Flight
import EmbeddedMqttc.PidsInUse

/-!
# Publishes and a conforming broker

As long as no packet is written again while its acknowledgement is outstanding, each acknowledgement
is for the entry that waits for it, and so it is found there.
-/

namespace EmbeddedMqttc

open Prog EmbeddedMqttc.Comp Run Correspondence

variable {QUEUE BUFFER TOPIC : Nat}

namespace PublishesInner

/-- What the client waits for. -/
def pending (q : PublishesInner QUEUE BUFFER TOPIC) : List ((Ack × Pid) × Option UniqueID) :=
  q.awaitPuback.toList.map (fun e => ((.puback, e.pid), some e.publish.uniqueId)) ++
    (q.awaitPubrec.toList.map (fun e => ((.pubrec, e.pid), some e.publish.uniqueId)) ++
      q.awaitPubcomp.toList.map fun e => ((.pubcomp, e.pid), some e.uniqueId))

/-- The entries are queued under the pids of their publishes, and the broker has received the publish
of which it gets a PUBREL. -/
structure Tracked (received : List Written) (q : PublishesInner QUEUE BUFFER TOPIC) : Prop where
  named : ∀ e ∈ q.sendPubrel, ∀ u, e.uniqueId = some u → Ack.pubrec.Carried received (some u)
  released : ∀ e ∈ q.awaitPubcomp, Ack.pubrec.Carried received (some e.uniqueId)
  puback_qospid : ∀ e ∈ q.awaitPuback, e.publish.qospid = .atLeastOnce e.pid
  pubrec_qospid : ∀ e ∈ q.awaitPubrec, e.publish.qospid = .exactlyOnce e.pid

/-- The queues and the connection when no packet was written again while its acknowledgement was
outstanding. -/
structure Exchange (outgoing : List Written) (answers : List (Ack × Pid)) (received : List Written)
    (q : PublishesInner QUEUE BUFFER TOPIC) : Prop extends Tracked received q where
  flight : Sound q.pending (letters true outgoing) answers fun k => k.1.Carried received
  identified : ∀ e ∈ q.sendPubrel, e.uniqueId ≠ none

variable {outgoing : List Written} {answers : List (Ack × Pid)}
  {received received' : List Written} {q q' : PublishesInner QUEUE BUFFER TOPIC}
  {c c' : Ctx (PublishesInner QUEUE BUFFER TOPIC)}

theorem Tracked.mono (h : Tracked received q) (hsub : received ⊆ received') : Tracked received' q where
  named e he u hu := (h.named e he u hu).mono hsub
  released e he := (h.released e he).mono hsub
  puback_qospid := h.puback_qospid
  pubrec_qospid := h.pubrec_qospid

theorem Tracked.new : Tracked received (.new : PublishesInner QUEUE BUFFER TOPIC) where
  named := nofun
  released := nofun
  puback_qospid := nofun
  pubrec_qospid := nofun

/-! ## Send passes -/

/-- Whatever a send pass writes, the entries stay queued under the pids of their publishes. -/
theorem Tracked.move (h : Tracked received c.inner) (hmove : Move c c') : Tracked received c'.inner := by
  cases hmove with
  | asked | read | atMostOnce => exact { h with }
  | atLeastOnce hi hq hpush =>
    refine { h with puback_qospid := fun e he => ?_ }
    rcases (BoundedVec.mem_iff_of_push hpush).mp he with he | rfl
    · exact h.puback_qospid e he
    · exact hq
  | exactlyOnce hi hq hpush =>
    refine { h with pubrec_qospid := fun e he => ?_ }
    rcases (BoundedVec.mem_iff_of_push hpush).mp he with he | rfl
    · exact h.pubrec_qospid e he
    · exact hq
  | pubrel hi hu hpush =>
    refine
      { h with
        named := fun e he => h.named e (BoundedVec.mem_removeAt he)
        released := fun e he => ?_ }
    rcases (BoundedVec.mem_iff_of_push hpush).mp he with he | rfl
    · exact h.released e he
    · exact h.named _ (BoundedVec.mem_of_get? hi) _ hu
  | anonymous => exact { h with named := fun e he => h.named e (BoundedVec.mem_removeAt he) }
  | pubackResend hi =>
    refine { h with puback_qospid := fun e he => ?_ }
    rcases BoundedVec.mem_modifyAt he with he | ⟨a, ha, rfl⟩
    · exact h.puback_qospid e he
    · exact h.puback_qospid a (BoundedVec.mem_of_get? ha)
  | pubrecResend hi =>
    refine { h with pubrec_qospid := fun e he => ?_ }
    rcases BoundedVec.mem_modifyAt he with he | ⟨a, ha, rfl⟩
    · exact h.pubrec_qospid e he
    · exact h.pubrec_qospid a (BoundedVec.mem_of_get? ha)
  | pubcompResend hi =>
    refine { h with released := fun e he => ?_ }
    rcases BoundedVec.mem_modifyAt he with he | ⟨a, ha, rfl⟩
    · exact h.released e he
    · exact h.released a (BoundedVec.mem_of_get? ha)

/-- A pid that the client waits for is used by an entry that waits for an acknowledgement. -/
theorem uses_of_mem_pending {ack : Ack} {p : Pid} (h : (ack, p) ∈ q.pending.map Prod.fst) :
    1 ≤ q.awaitPuback.countKey (·.pid) p + q.awaitPubrec.countKey (·.pid) p +
      q.awaitPubcomp.countKey (·.pid) p := by
  simp only [pending, List.map_append, List.map_map, List.mem_append, List.mem_map,
    BoundedVec.mem_toList, Function.comp_def, Prod.mk.injEq] at h
  rcases h with ⟨e, he, -, rfl⟩ | ⟨e, he, -, rfl⟩ | ⟨e, he, -, rfl⟩
  · have : 0 < q.awaitPuback.countKey (·.pid) e.pid := BoundedVec.countKey_pos_iff.mpr ⟨e, he, rfl⟩
    omega
  · have : 0 < q.awaitPubrec.countKey (·.pid) e.pid := BoundedVec.countKey_pos_iff.mpr ⟨e, he, rfl⟩
    omega
  · have : 0 < q.awaitPubcomp.countKey (·.pid) e.pid :=
      BoundedVec.countKey_pos_iff.mpr ⟨e, he, rfl⟩
    omega

/-- The pid of a publish that is to be written is not waited for. -/
theorem sendPublish_fresh {i : Nat} {current : OwnedPublish BUFFER TOPIC} {ack : Ack} {p : Pid}
    (hpids : ∀ p, q.uses p ≤ 1) (hi : q.sendPublish.get? i = some current)
    (hp : current.qospid.pid = some p) : (ack, p) ∉ q.pending.map Prod.fst := by
  intro hmem
  have := uses_of_mem_pending hmem
  have hcount : 0 < q.sendPublish.countKey (·.qospid.pid) (some p) :=
    BoundedVec.countKey_pos_iff.mpr ⟨current, BoundedVec.mem_of_get? hi, hp⟩
  have := hpids p
  simp only [uses] at this
  omega

theorem sendPubrel_fresh {i : Nat} {current : SendPubrel} {ack : Ack}
    (hpids : ∀ p, q.uses p ≤ 1) (hi : q.sendPubrel.get? i = some current)
    (hu : current.uniqueId ≠ none) : (ack, current.pid) ∉ q.pending.map Prod.fst := by
  intro hmem
  have := uses_of_mem_pending hmem
  have hown : current.ownPid = some current.pid := by
    obtain ⟨u, hu⟩ := Option.ne_none_iff_exists'.mp hu
    simp [SendPubrel.ownPid, hu]
  have hcount : 0 < q.sendPubrel.countKey (·.ownPid) (some current.pid) :=
    BoundedVec.countKey_pos_iff.mpr ⟨current, BoundedVec.mem_of_get? hi, hown⟩
  have := hpids current.pid
  simp only [uses] at this
  omega

section

variable {α : Type} {as bs bs' cs cs' : List α} {a : α}

/-- Moving an element of one queue to the front of all that is waited for. -/
theorem perm_second (h : bs.Perm (a :: bs')) : (as ++ (bs ++ cs)).Perm (a :: (as ++ (bs' ++ cs))) :=
  ((h.append_right cs).append_left as).trans List.perm_middle

theorem perm_third (h : cs.Perm (a :: cs')) : (as ++ (bs ++ cs)).Perm (a :: (as ++ (bs ++ cs'))) := by
  rw [← List.append_assoc, ← List.append_assoc]
  exact (h.append_left _).trans List.perm_middle

end

theorem pending_puback {e : AwaitPuback BUFFER TOPIC}
    {v v' : BoundedVec (AwaitPuback BUFFER TOPIC) QUEUE} (h : v.toList.Perm (e :: v'.toList)) :
    (pending { q with awaitPuback := v }).Perm
      (((.puback, e.pid), some e.publish.uniqueId) :: pending { q with awaitPuback := v' }) :=
  (h.map _).append_right _

theorem pending_pubrec {e : AwaitPubrec BUFFER TOPIC}
    {v v' : BoundedVec (AwaitPubrec BUFFER TOPIC) QUEUE} (h : v.toList.Perm (e :: v'.toList)) :
    (pending { q with awaitPubrec := v }).Perm
      (((.pubrec, e.pid), some e.publish.uniqueId) :: pending { q with awaitPubrec := v' }) :=
  perm_second (h.map _)

theorem pending_pubcomp {e : AwaitPubcomp} {v v' : BoundedVec AwaitPubcomp QUEUE}
    (h : v.toList.Perm (e :: v'.toList)) :
    (pending { q with awaitPubcomp := v }).Perm
      (((.pubcomp, e.pid), some e.uniqueId) :: pending { q with awaitPubcomp := v' }) :=
  perm_third (h.map _)

theorem mem_pending_puback {e : AwaitPuback BUFFER TOPIC} (he : e ∈ q.awaitPuback) :
    ((.puback, e.pid), some e.publish.uniqueId) ∈ q.pending :=
  List.mem_append_left _ (List.mem_map_of_mem he)

theorem mem_pending_pubrec {e : AwaitPubrec BUFFER TOPIC} (he : e ∈ q.awaitPubrec) :
    ((.pubrec, e.pid), some e.publish.uniqueId) ∈ q.pending :=
  List.mem_append_right _ (List.mem_append_left _ (List.mem_map_of_mem he))

theorem mem_pending_pubcomp {e : AwaitPubcomp} (he : e ∈ q.awaitPubcomp) :
    ((.pubcomp, e.pid), some e.uniqueId) ∈ q.pending :=
  List.mem_append_right _ (List.mem_append_right _ (List.mem_map_of_mem he))

section

variable {current : OwnedPublish BUFFER TOPIC} {pid : Pid}

theorem asksOf_atMostOnce (hq : current.qospid = .atMostOnce) : current.borrow.asksOf true = none := by
  simp [OwnedPublish.borrow, Packet.asksOf, Packet.asks, hq]

theorem asksOf_atLeastOnce (hq : current.qospid = .atLeastOnce pid) :
    current.borrow.asksOf true = some (.puback, pid) := by
  simp [OwnedPublish.borrow, Packet.asksOf, Packet.asks, hq, Ack.ofPublish, Option.filter]

theorem asksOf_exactlyOnce (hq : current.qospid = .exactlyOnce pid) :
    current.borrow.asksOf true = some (.pubrec, pid) := by
  simp [OwnedPublish.borrow, Packet.asksOf, Packet.asks, hq, Ack.ofPublish, Option.filter]

end

namespace Exchange

/-- What is pending is written again while no answer to it is outstanding. -/
theorem rewrite {w : Written} {k : Ack × Pid} (h : Exchange outgoing answers received q)
    (hk : w.packet.asksOf true = some k) (hmem : (k, w.request) ∈ q.pending)
    (hnodup : (outstanding (letters true (outgoing ++ [w])) answers).Nodup) :
    Sound q.pending (letters true (outgoing ++ [w])) answers fun k => k.1.Carried received := by
  rw [letters_concat hk] at hnodup ⊢
  exact h.flight.rewrite hmem (List.nodup_cons.mp (outstanding_concat.nodup_iff.mp hnodup)).1

/-- A move of a send pass that writes nothing again whose acknowledgement is outstanding. -/
theorem move (h : Exchange c.env.outgoing answers received c.inner)
    (hpids : ∀ p, c.inner.uses p ≤ 1) (hmove : Move c c')
    (hnodup : (outstanding (letters true c'.env.outgoing) answers).Nodup) :
    Exchange c'.env.outgoing answers received c'.inner := by
  refine ⟨h.toTracked.move hmove, ?_, ?_⟩
  · cases hmove with
    | asked | read => exact h.flight
    | atMostOnce hi hq =>
      rw [Env.emitted_outgoing, Env.wrote_outgoing, letters_concat_of_none (asksOf_atMostOnce hq)]
      exact h.flight
    | atLeastOnce hi hq hpush =>
      have hfresh : (Ack.puback, _) ∉ _ := sendPublish_fresh hpids hi (by rw [hq]; rfl)
      rw [Env.read_outgoing, Env.wrote_outgoing, letters_concat (asksOf_atLeastOnce hq)]
      refine (h.flight.write hfresh).perm ?_ .rfl
      exact (pending_puback (BoundedVec.perm_push hpush)).symm
    | exactlyOnce hi hq hpush =>
      have hfresh : (Ack.pubrec, _) ∉ _ := sendPublish_fresh hpids hi (by rw [hq]; rfl)
      rw [Env.read_outgoing, Env.wrote_outgoing, letters_concat (asksOf_exactlyOnce hq)]
      refine (h.flight.write hfresh).perm ?_ .rfl
      exact (pending_pubrec (BoundedVec.perm_push hpush)).symm
    | pubrel hi hu hpush =>
      have hfresh : (Ack.pubcomp, _) ∉ _ := sendPubrel_fresh hpids hi (by rw [hu]; nofun)
      rw [Env.read_outgoing, Env.wrote_outgoing, letters_concat rfl]
      refine (h.flight.write hfresh).perm ?_ .rfl
      exact (pending_pubcomp (BoundedVec.perm_push hpush)).symm
    | anonymous _ hi hu => exact absurd hu (h.identified _ (BoundedVec.mem_of_get? hi))
    | pubackResend hi =>
      have he := BoundedVec.mem_of_get? hi
      have hasks := asksOf_atLeastOnce (h.puback_qospid _ he)
      refine (h.rewrite hasks (mem_pending_puback he) hnodup).perm (.of_eq ?_) .rfl
      simp [pending, BoundedVec.map_modifyAt]
    | pubrecResend hi =>
      have he := BoundedVec.mem_of_get? hi
      have hasks := asksOf_exactlyOnce (h.pubrec_qospid _ he)
      refine (h.rewrite hasks (mem_pending_pubrec he) hnodup).perm (.of_eq ?_) .rfl
      simp [pending, BoundedVec.map_modifyAt]
    | pubcompResend hi =>
      have he := BoundedVec.mem_of_get? hi
      refine (h.rewrite rfl (mem_pending_pubcomp he) hnodup).perm (.of_eq ?_) .rfl
      simp [pending, BoundedVec.map_modifyAt]
  · cases hmove with
    | pubrel | anonymous => exact fun e he => h.identified e (BoundedVec.mem_removeAt he)
    | _ => exact h.identified

end Exchange

/-- A move only adds to what is outstanding. -/
theorem outstanding_move (hmove : Move c c')
    (hnodup : (outstanding (letters true c'.env.outgoing) answers).Nodup) :
    (outstanding (letters true c.env.outgoing) answers).Nodup := by
  obtain ⟨ws, hws⟩ : ∃ ws, c'.env.outgoing = c.env.outgoing ++ ws := by
    cases hmove with
    | asked | read => exact ⟨[], (List.append_nil _).symm⟩
    | _ => exact ⟨_, rfl⟩
  rw [hws, letters, List.filterMap_append] at hnodup
  unfold outstanding at hnodup ⊢
  rw [List.map_append] at hnodup
  exact hnodup.sublist ((List.sublist_append_left ..).append_right _)

/-- A send pass keeps the exchanges and does not panic, unless it writes a packet again whose
acknowledgement is outstanding. -/
theorem sendPackets_exchange (h : Exchange c.env.outgoing answers received c.inner)
    (hpids : ∀ p, c.inner.uses p ≤ 1)
    (hnodup : (outstanding (letters true (sendPackets.exec c).2.env.outgoing) answers).Nodup) :
    Exchange (sendPackets.exec c).2.env.outgoing answers received (sendPackets.exec c).2.inner ∧
      (sendPackets.exec c).1 ≠ .error .panic := by
  let I (c : Ctx (PublishesInner QUEUE BUFFER TOPIC)) : Prop :=
    (∀ p, c.inner.uses p ≤ 1) ∧ ((outstanding (letters true c.env.outgoing) answers).Nodup →
      Exchange c.env.outgoing answers received c.inner)
  have hstep : ∀ c₁ c₂, Move c₁ c₂ → I c₁ → I c₂ := by
    rintro c₁ c₂ hmove ⟨hpids, h⟩
    refine ⟨fun p => hmove.uses p ▸ hpids p, fun hnodup => ?_⟩
    exact (h (outstanding_move hmove hnodup)).move hpids hmove hnodup
  have hc : I c := ⟨hpids, fun _ => h⟩
  refine ⟨(sendPackets_moves.invariant (I := I) hstep hc).2 hnodup, fun hpanic => ?_⟩
  obtain ⟨t, ⟨-, ht⟩, hstop⟩ :=
    (sendPackets_exits.invariant (I := I) (fun _ _ hmove => hstep _ _ hmove.move) hc).2 _ hpanic
  cases hstop with
  | panic hi hu hmove =>
    exact (ht (outstanding_move hmove hnodup)).identified _ (BoundedVec.mem_of_get? hi) hu

/-! ## Acknowledgements -/

/-- A PUBREL on its way is that of a publish which the broker has received. -/
theorem Exchange.carried_of_pubcomp {k : Ack × Pid} {r : Option UniqueID}
    (h : Exchange outgoing answers received q) (hmem : (k, r) ∈ letters true outgoing)
    (hk : k.1 = .pubcomp) : k.1.Carried received r := by
  have hpending := h.flight.of_sent hmem
  simp only [pending, List.mem_append, List.mem_map, BoundedVec.mem_toList, Prod.mk.injEq]
    at hpending
  rcases hpending with ⟨e, -, rfl, -⟩ | ⟨e, -, rfl, -⟩ | ⟨e, he, rfl, rfl⟩
  · cases hk
  · cases hk
  · exact h.released e he

theorem Tracked.processPuback (h : Tracked received c.inner) (pid : Pid) :
    Tracked received ((PublishesInner.processPuback pid).exec c).2.inner := by
  rcases processPuback_cases c pid with ⟨i, e, -, -, hexec⟩ | ⟨-, hexec⟩ <;> rw [hexec]
  · exact { h with puback_qospid := fun e he => h.puback_qospid e (BoundedVec.mem_removeAt he) }
  · exact h

theorem Tracked.processPubcomp (h : Tracked received c.inner) (pid : Pid) :
    Tracked received ((PublishesInner.processPubcomp pid).exec c).2.inner := by
  rcases processPubcomp_cases c pid with ⟨i, e, -, -, hexec⟩ | ⟨-, hexec⟩ <;> rw [hexec]
  · exact { h with released := fun e he => h.released e (BoundedVec.mem_removeAt he) }
  · exact h

theorem Tracked.pubrecResult {entry : SendPubrel} {r : Except (Stop MqttError) Unit}
    (h : Tracked received q)
    (hentry : ∀ u, entry.uniqueId = some u → Ack.pubrec.Carried received (some u))
    (hres : q.pubrecResult entry = (r, q')) : Tracked received q' := by
  unfold PublishesInner.pubrecResult at hres
  cases hpush : q.sendPubrel.push entry with
  | none =>
    rw [hpush] at hres
    cases hres
    exact h
  | some queue =>
    rw [hpush] at hres
    cases hres
    refine { h with named := fun e he => ?_ }
    rcases (BoundedVec.mem_iff_of_push hpush).mp he with he | rfl
    · exact h.named e he
    · exact hentry

/-- The entry that a PUBREC releases is that of a publish which the broker has received. -/
theorem Tracked.processPubrec {pid : Pid} (h : Tracked received c.inner)
    (hcarried : ∀ e ∈ c.inner.awaitPubrec, e.pid = pid →
      Ack.pubrec.Carried received (some e.publish.uniqueId)) :
    Tracked received ((PublishesInner.processPubrec pid).exec c).2.inner := by
  rcases processPubrec_cases c pid with ⟨i, e, r, inner, hi, hpid, hres, hexec⟩ |
    ⟨-, r, inner, hres, hexec⟩ <;> rw [hexec]
  · have hremoved : Tracked received
        { c.inner with awaitPubrec := c.inner.awaitPubrec.removeAt i } :=
      { h with pubrec_qospid := fun e he => h.pubrec_qospid e (BoundedVec.mem_removeAt he) }
    refine hremoved.pubrecResult (fun u hu => ?_) hres
    cases hu
    exact hcarried e (BoundedVec.mem_of_get? hi) hpid
  · exact h.pubrecResult (fun u hu => by cases hu) hres

namespace Exchange

variable {pid : Pid} {k : Ack × Pid} {packet : Packet}

/-- What is waited for. -/
theorem exists_pending (h : Exchange outgoing (k :: answers) received q) :
    ∃ r, (k, r) ∈ q.pending :=
  h.flight.exists_pending (List.mem_append_right _ List.mem_cons_self)

theorem processPuback
    (h : Exchange c.env.outgoing ((.puback, pid) :: answers) received c.inner) :
    ∃ c', (PublishesInner.processPuback pid).exec c = (.ok (), c') ∧
      c'.env.outgoing = c.env.outgoing ∧ Exchange c.env.outgoing answers received c'.inner := by
  have htracked := h.toTracked.processPuback pid
  rcases processPuback_cases c pid with ⟨i, e, hi, rfl, hexec⟩ | ⟨hnone, -⟩
  · have hremoved := pending_puback (q := c.inner) (BoundedVec.perm_removeAt hi).symm
    rw [hexec] at htracked
    exact ⟨_, hexec, rfl, htracked, (h.flight.perm hremoved .rfl).consume.2, h.identified⟩
  · obtain ⟨r, hr⟩ := h.exists_pending
    simp [pending] at hr
    obtain ⟨e, he, hpid, -⟩ := hr
    exact absurd hpid (hnone e he)

theorem processPubcomp
    (h : Exchange c.env.outgoing ((.pubcomp, pid) :: answers) received c.inner) :
    ∃ c', (PublishesInner.processPubcomp pid).exec c = (.ok (), c') ∧
      c'.env.outgoing = c.env.outgoing ∧ Exchange c.env.outgoing answers received c'.inner := by
  have htracked := h.toTracked.processPubcomp pid
  rcases processPubcomp_cases c pid with ⟨i, e, hi, rfl, hexec⟩ | ⟨hnone, -⟩
  · have hremoved := pending_pubcomp (q := c.inner) (BoundedVec.perm_removeAt hi).symm
    rw [hexec] at htracked
    exact ⟨_, hexec, rfl, htracked, (h.flight.perm hremoved .rfl).consume.2, h.identified⟩
  · obtain ⟨r, hr⟩ := h.exists_pending
    simp [pending] at hr
    obtain ⟨e, he, hpid, -⟩ := hr
    exact absurd hpid (hnone e he)

/-- A PUBREC is processed unless `send_pubrel` is full, which ends the exchange. -/
theorem processPubrec
    (h : Exchange c.env.outgoing ((.pubrec, pid) :: answers) received c.inner) :
    ∃ r c', (PublishesInner.processPubrec pid).exec c = (r, c') ∧
      c'.env.outgoing = c.env.outgoing ∧ Exchange c.env.outgoing answers received c'.inner ∧
      (c.inner.sendPubrel.isFull = false → r = .ok ()) := by
  have htracked : Tracked received ((PublishesInner.processPubrec pid).exec c).2.inner :=
    h.toTracked.processPubrec fun e he hpid => ?_
  · rcases processPubrec_cases c pid with ⟨i, e, r, inner, hi, rfl, hres, hexec⟩ | ⟨hnone, -⟩
    · have hremoved := pending_pubrec (q := c.inner) (BoundedVec.perm_removeAt hi).symm
      have hflight := (h.flight.perm hremoved .rfl).consume.2
      rw [hexec] at htracked
      unfold pubrecResult at hres
      cases hpush : c.inner.sendPubrel.push ⟨e.pid, some e.publish.uniqueId⟩ with
      | none =>
        rw [hpush] at hres
        cases hres
        refine ⟨_, _, hexec, rfl, ⟨htracked, hflight, h.identified⟩, fun hroom => ?_⟩
        rw [BoundedVec.push_eq_none_iff.mp hpush] at hroom
        cases hroom
      | some queue =>
        rw [hpush] at hres
        cases hres
        refine ⟨_, _, hexec, rfl, ⟨htracked, hflight, fun e' he' => ?_⟩, fun _ => rfl⟩
        rcases (BoundedVec.mem_iff_of_push hpush).mp he' with he' | rfl
        · exact h.identified e' he'
        · nofun
    · obtain ⟨r, hr⟩ := h.exists_pending
      simp [pending] at hr
      obtain ⟨e, he, hpid, -⟩ := hr
      exact absurd hpid (hnone e he)
  · obtain ⟨r, hr, hcarried⟩ := h.flight.of_answer _ List.mem_cons_self
    have hmem : ((.pubrec, pid), some e.publish.uniqueId) ∈ c.inner.pending :=
      hpid ▸ mem_pending_pubrec he
    rw [h.flight.eq_of_key hmem hr]
    exact hcarried

/-- Every acknowledgement that is due is processed without an error, unless it is a PUBREC for which
`send_pubrel` has no room. -/
theorem processIncomingPacket (hk : packet.acksOf true = some k)
    (h : Exchange c.env.outgoing (k :: answers) received c.inner) :
    ∃ r c', (Publishes.processIncomingPacket packet).exec c = (r, c') ∧
      c'.env.outgoing = c.env.outgoing ∧ Exchange c.env.outgoing answers received c'.inner ∧
      ((∀ pid, packet = .pubrec pid → c.inner.sendPubrel.isFull = false) → r = .ok ()) := by
  rw [Packet.acksOf_eq_some_iff] at hk
  obtain ⟨hk, hkind⟩ := hk
  cases packet with
  | puback pid =>
    cases hk
    obtain ⟨c', hexec, hout, hc'⟩ := h.processPuback
    exact ⟨_, c', hexec, hout, hc', fun _ => rfl⟩
  | pubrec pid =>
    cases hk
    obtain ⟨r, c', hexec, hout, hc', hok⟩ := h.processPubrec
    exact ⟨r, c', hexec, hout, hc', fun hroom => hok (hroom pid rfl)⟩
  | pubcomp pid =>
    cases hk
    obtain ⟨c', hexec, hout, hc'⟩ := h.processPubcomp
    exact ⟨_, c', hexec, hout, hc', fun _ => rfl⟩
  | suback response =>
    cases hk
    cases hkind
  | unsuback pid =>
    cases hk
    cases hkind
  | _ => cases hk

end Exchange

end PublishesInner

end EmbeddedMqttc
