import EmbeddedMqttc.ConformingBroker

/-!
# A broker that sends anything

No packet of a broker makes the client panic, now or in a later send pass, unless it is a CONNACK or
a PUBREC for a publish that the client does not wait for.
-/

namespace EmbeddedMqttc

open Prog EmbeddedMqttc.Comp Run

variable {QUEUE BUFFER TOPIC : Nat}

/-! ## The publishes -/

namespace PublishesInner

/-- Every entry of `send_pubrel` belongs to a request. -/
def Named (q : PublishesInner QUEUE BUFFER TOPIC) : Prop := ∀ e ∈ q.sendPubrel, e.uniqueId ≠ none

variable {c c' : Ctx (PublishesInner QUEUE BUFFER TOPIC)}

theorem Named.move (h : c.inner.Named) (hmove : Move c c') : c'.inner.Named := by
  cases hmove with
  | pubrel | anonymous => exact fun e he => h e (BoundedVec.mem_removeAt he)
  | _ => exact h

/-- A send pass without anonymous entries does not panic. -/
theorem Named.sendPackets (h : c.inner.Named) :
    (PublishesInner.sendPackets.exec c).2.inner.Named ∧
      (PublishesInner.sendPackets.exec c).1 ≠ .error .panic := by
  let I (c : Ctx (PublishesInner QUEUE BUFFER TOPIC)) : Prop := c.inner.Named
  have hstep : ∀ c₁ c₂, Move c₁ c₂ → I c₁ → I c₂ := fun _ _ hmove hc => hc.move hmove
  refine ⟨sendPackets_moves.invariant (I := I) hstep h, fun hpanic => ?_⟩
  obtain ⟨t, ht, hstop⟩ :=
    (sendPackets_exits.invariant (I := I) (fun _ _ hmove => hstep _ _ hmove.move) h).2 _ hpanic
  cases hstop with
  | panic hi hu => exact ht _ (BoundedVec.mem_of_get? hi) hu

theorem Named.processPuback (h : c.inner.Named) (pid : Pid) :
    ((PublishesInner.processPuback pid).exec c).2.inner.Named ∧
      ((PublishesInner.processPuback pid).exec c).1 ≠ .error .panic := by
  rcases processPuback_cases c pid with ⟨i, e, -, -, hexec⟩ | ⟨-, hexec⟩
  · rw [hexec]
    exact ⟨h, nofun⟩
  · rw [hexec]
    exact ⟨h, nofun⟩

theorem Named.processPubcomp (h : c.inner.Named) (pid : Pid) :
    ((PublishesInner.processPubcomp pid).exec c).2.inner.Named ∧
      ((PublishesInner.processPubcomp pid).exec c).1 ≠ .error .panic := by
  rcases processPubcomp_cases c pid with ⟨i, e, -, -, hexec⟩ | ⟨-, hexec⟩
  · rw [hexec]
    exact ⟨h, nofun⟩
  · rw [hexec]
    exact ⟨h, nofun⟩

/-- A PUBREC that is waited for, or that finds `send_pubrel` full, leaves no anonymous entry. -/
theorem Named.processPubrec (h : c.inner.Named) {pid : Pid}
    (hpid : (∃ e ∈ c.inner.awaitPubrec, e.pid = pid) ∨ c.inner.sendPubrel.isFull = true) :
    ((PublishesInner.processPubrec pid).exec c).2.inner.Named ∧
      ((PublishesInner.processPubrec pid).exec c).1 ≠ .error .panic := by
  rcases processPubrec_cases c pid with ⟨i, e, r, inner, -, -, hres, hexec⟩ |
    ⟨hnone, r, inner, hres, hexec⟩
  · rw [hexec]
    unfold pubrecResult at hres
    cases hpush : c.inner.sendPubrel.push ⟨pid, some e.publish.uniqueId⟩ with
    | none =>
      rw [hpush] at hres
      cases hres
      exact ⟨h, nofun⟩
    | some queue =>
      rw [hpush] at hres
      cases hres
      refine ⟨fun e' he' => ?_, nofun⟩
      rcases (BoundedVec.mem_iff_of_push hpush).mp he' with he' | rfl
      · exact h e' he'
      · exact Option.some_ne_none _
  · rw [hexec]
    have hfull : c.inner.sendPubrel.isFull = true :=
      hpid.resolve_left fun ⟨e, he, heq⟩ => hnone e he heq
    rw [pubrecResult, BoundedVec.push_eq_none_iff.mpr hfull] at hres
    cases hres
    exact ⟨h, nofun⟩

end PublishesInner

/-! ## Received publishes -/

namespace Receives

variable (c : Ctx (Receives BUFFER TOPIC QUEUE))

theorem deliver_ne_panic (message : Publish) : ((deliver message).exec c).1 ≠ .error .panic := by
  rcases deliver_cases c message with ⟨m, -, h⟩ | ⟨e, -, h⟩
  · rw [h]
    nofun
  · rw [h]
    nofun

theorem onPublish_ne_panic (message : Publish) :
    ((onPublish message).exec c).1 ≠ .error .panic := by
  unfold onPublish
  cases hqos : message.qospid with
  | atMostOnce => exact deliver_ne_panic c message
  | atLeastOnce pid =>
    dsimp only
    rcases deliver_cases c message with ⟨m, -, h⟩ | ⟨e, -, h⟩
    · rw [exec_bind_ok h, exec_get_bind]
      split
      · intro hpanic
        cases hpanic
      · intro hpanic
        cases hpanic
    · rw [exec_bind_error h]
      intro hpanic
      cases hpanic
  | exactlyOnce pid =>
    dsimp only
    unfold onQos2Publish
    rw [hqos, QosPid.pid, exec_unwrap_some_bind, exec_get_bind]
    split
    · intro hpanic
      cases hpanic
    · rw [modifyInner_bind_exec]
      split
      · exact deliver_ne_panic _ message
      · intro hpanic
        cases hpanic

theorem onPubrel_ne_panic (pid : Pid) : ((onPubrel pid).exec c).1 ≠ .error .panic := by
  unfold onPubrel
  rw [exec_get_bind]
  split
  · nofun
  · rw [modifyInner_bind_exec]
    split
    · nofun
    · nofun

end Receives

/-! ## The client -/

namespace Client

/-- A packet that is no CONNACK, and, if it is a PUBREC, one that is waited for or finds `send_pubrel`
full. -/
def Expected (s : Client QUEUE BUFFER TOPIC) : Label → Prop
  | .receive (.connack _) => False
  | .receive (.pubrec pid) =>
    (∃ e ∈ s.publishes.awaitPubrec, e.pid = pid) ∨ s.publishes.sendPubrel.isFull = true
  | _ => True

/-- A packet is processed, and a send pass made, without a panic. -/
def NoPanic (topicPathCapacity : Nat) (s : Client QUEUE BUFFER TOPIC) (l : Label) : Prop :=
  l.isRequest = false → (s.outcome topicPathCapacity l).1 ≠ .error .panic

variable {s : Client QUEUE BUFFER TOPIC} {topicPathCapacity : Nat} {l : Label}

theorem named_step (h : s.publishes.Named) (hl : s.Expected l) :
    (s.outcome topicPathCapacity l).2.publishes.Named := by
  cases hconcerns : l.concerns true with
  | false =>
    have hother : (∃ sendPublish, (s.outcome topicPathCapacity l).2.publishes = _) ∧ _ :=
      outcome_publishes hconcerns
    obtain ⟨⟨sendPublish, hpublishes⟩, -⟩ := hother
    rw [hpublishes]
    exact h
  | true =>
    have hc : (⟨s.publishes, s.env⟩ : Ctx _).inner.Named := h
    cases l with
    | sendPublishes answers ticks =>
      have hscripted : (⟨s.publishes, (s.scripted answers ticks).env⟩ : Ctx _).inner.Named := h
      exact hscripted.sendPackets.1
    | receive packet =>
      cases packet with
      | puback pid => exact (hc.processPuback pid).1
      | pubrec pid => exact (hc.processPubrec hl).1
      | pubcomp pid => exact (hc.processPubcomp pid).1
      | _ => cases hconcerns
    | _ => cases hconcerns

theorem noPanic_of_named (h : s.publishes.Named) (hl : s.Expected l) :
    s.NoPanic topicPathCapacity l := by
  intro hrequest
  have hc : (⟨s.publishes, s.env⟩ : Ctx _).inner.Named := h
  cases l with
  | sendPublishes answers ticks =>
    have hscripted : (⟨s.publishes, (s.scripted answers ticks).env⟩ : Ctx _).inner.Named := h
    exact fun hpanic => hscripted.sendPackets.2 (sent_error_iff.mp hpanic)
  | sendReceives answers =>
    intro hpanic
    obtain ⟨c, -, -, e, he⟩ := Receives.sendPackets_exits.2 _ (sent_error_iff.mp hpanic)
    cases he
  | sendSubscribes answers ticks =>
    intro hpanic
    obtain ⟨c, -, -, e, he⟩ := SubsInner.send_exits.2 _ (sent_error_iff.mp hpanic)
    cases he
  | sendPing answers ticks =>
    intro hpanic
    obtain ⟨c, -, -, e, he⟩ := PingStateInner.send_exits.2 _ (sent_error_iff.mp hpanic)
    cases he
  | receive packet =>
    cases packet with
    | connack => exact hl.elim
    | publish message => exact Receives.onPublish_ne_panic _ message
    | puback pid => exact (hc.processPuback pid).2
    | pubrec pid => exact (hc.processPubrec hl).2
    | pubrel pid => exact Receives.onPubrel_ne_panic _ pid
    | pubcomp pid => exact (hc.processPubcomp pid).2
    | suback response =>
      simp only [outcome, processPacket, callSubscribes]
      rcases SubsInner.onSuback_cases response ⟨s.subscribes, s.env⟩ with
        hexec | ⟨i, e, qos, result, -, -, -, hexec⟩
      · rw [hexec]
        intro hpanic
        cases hpanic
      · rw [hexec]
        intro hpanic
        cases hpanic
    | unsuback pid =>
      simp only [outcome, processPacket, callSubscribes]
      rcases SubsInner.onUnsuback_cases pid ⟨s.subscribes, s.env⟩ with
        hexec | ⟨i, e, -, -, -, hexec⟩
      · rw [hexec]
        intro hpanic
        cases hpanic
      · rw [hexec]
        intro hpanic
        cases hpanic
    | _ =>
      intro hpanic
      cases hpanic
  | wait d =>
    intro hpanic
    cases hpanic
  | _ => cases hrequest

/-- No broker makes the client panic, if it sends no CONNACK and no PUBREC that leaves an anonymous
entry in `send_pubrel`. -/
theorem broker_cannot_crash {ls : List Label}
    (hG : AllSteps (next · topicPathCapacity) Expected (new : Client QUEUE BUFFER TOPIC) ls) :
    AllSteps (next · topicPathCapacity) (NoPanic topicPathCapacity)
      (new : Client QUEUE BUFFER TOPIC) ls := by
  let I (s : Client QUEUE BUFFER TOPIC) : Prop := s.publishes.Named
  have hstep : ∀ s l s', I s → s.Expected l → s.next topicPathCapacity l = some s' → I s' := by
    intro s l s' h hl hnext
    cases hnext
    exact named_step h hl
  exact hG.of_invariant (I := I) hstep (fun s l h hl => noPanic_of_named h hl) nofun

instance (l : Label) : Decidable (s.Expected l) := by
  unfold Expected
  split
  · infer_instance
  · exact inferInstanceAs (Decidable ((∃ e ∈ s.publishes.awaitPubrec.toList, _) ∨ _))
  · infer_instance

instance (l : Label) : Decidable (s.NoPanic topicPathCapacity l) :=
  inferInstanceAs (Decidable (_ → _))

/-- A PUBREC that nobody waits for, and the next send pass. -/
def strayPubrecRun : List Label :=
  [.receive (.pubrec ⟨1, Nat.one_pos, Pid.one_lt⟩), .sendPublishes [.ok true] []]

theorem strayPubrecRun_panics :
    ¬AllSteps (next · 16) (NoPanic 16) (new : Client 4 8 8) strayPubrecRun ∧
      ¬AllSteps (next · 16) (NoPanic 16) (new : Client 4 8 8)
        [.receive (.connack ⟨false, .accepted⟩)] := by
  refine ⟨?_, ?_⟩ <;> decide +kernel

theorem broker_cannot_crash_on_repeated_puback :
    AllSteps (next · 16) (NoPanic 16) (new : Client 4 8 8)
      [ .publish [116] [7] .atLeastOnce false 1, .poll 0, .sendPublishes [.ok true] [],
        .receive (.puback ⟨1, by decide, by decide⟩),
        .receive (.puback ⟨1, by decide, by decide⟩) ] :=
  broker_cannot_crash (by decide +kernel)

end Client

end EmbeddedMqttc
