import EmbeddedMqttc.PublishExchange

/-!
# Runs with a conforming broker

The exchanges of the publishes over a whole run, whose send passes write no packet again while its
acknowledgement is outstanding: every acknowledgement finds its entry.
-/

namespace EmbeddedMqttc

open Prog EmbeddedMqttc.Comp Run Correspondence

variable {QUEUE BUFFER TOPIC : Nat}

/-! ## What a send pass of the publishes reports -/

/-- A publish of QoS 0 is done when the connection has accepted it. -/
def Env.SentOnce (e : Env) (event : MqttEvent) : Prop :=
  ∃ u message, event = .publishDone u ∧ message.qospid = .atMostOnce ∧
    ⟨.publish message, some u⟩ ∈ e.written

theorem Env.SentOnce.mono {e e' : Env} {event : MqttEvent} (h : e.SentOnce event)
    (hwritten : e.written ⊆ e'.written) : e'.SentOnce event := by
  obtain ⟨u, message, hu, hqos, hmem⟩ := h
  exact ⟨u, message, hu, hqos, hwritten hmem⟩

namespace PublishesInner

variable {c c' : Ctx (PublishesInner QUEUE BUFFER TOPIC)}

theorem asksOf_borrow_false {current : OwnedPublish BUFFER TOPIC} :
    current.borrow.asksOf false = none := by
  obtain ⟨dup, qospid, retain, topicName, payload, uniqueId⟩ := current
  cases qospid <;> rfl

theorem Move.asksNone (hmove : Move c c') : c.env.AsksNone false c'.env := by
  cases hmove with
  | asked => exact .of_eq rfl rfl (Nat.le_refl _)
  | read => exact .read
  | atMostOnce => exact .trans (.wrote asksOf_borrow_false) (.of_eq rfl rfl (Nat.le_refl _))
  | atLeastOnce | exactlyOnce => exact .trans (.wrote asksOf_borrow_false) .read
  | pubrel | anonymous => exact .trans (.wrote rfl) .read
  | pubackResend | pubrecResend => exact .wrote asksOf_borrow_false
  | pubcompResend => exact .wrote rfl

theorem Move.events (hmove : Move c c') {event : MqttEvent} (h : event ∈ c'.env.events) :
    event ∈ c.env.events ∨ c'.env.SentOnce event := by
  cases hmove with
  | atMostOnce hi hq =>
    refine (List.mem_append.mp h).imp_right fun h => ?_
    exact ⟨_, _, List.mem_singleton.mp h, hq, List.mem_append_right _ (List.mem_singleton_self _)⟩
  | _ => exact .inl h

/-- A send pass of the publishes asks for nothing that is of the subscriptions, and it reports
publishes of QoS 0 only. -/
theorem sendPackets_asksNone (c : Ctx (PublishesInner QUEUE BUFFER TOPIC)) :
    c.env.AsksNone false (sendPackets.exec c).2.env ∧
      ∀ event ∈ (sendPackets.exec c).2.env.events, event ∈ c.env.events ∨
        (sendPackets.exec c).2.env.SentOnce event := by
  let I (c' : Ctx (PublishesInner QUEUE BUFFER TOPIC)) : Prop :=
    c.env.AsksNone false c'.env ∧
      ∀ event ∈ c'.env.events, event ∈ c.env.events ∨ c'.env.SentOnce event
  have hstep : ∀ c₁ c₂, Move c₁ c₂ → I c₁ → I c₂ := by
    rintro c₁ c₂ hmove ⟨h, hevents⟩
    refine ⟨h.trans hmove.asksNone, fun event hevent => ?_⟩
    rcases hmove.events hevent with hold | hnew
    · exact (hevents event hold).imp_right (·.mono hmove.asksNone.written_subset)
    · exact .inr hnew
  exact sendPackets_moves.invariant (I := I) hstep ⟨.refl, fun event h => .inl h⟩

end PublishesInner

/-! ## Steps of the client that are about other exchanges -/

namespace Client

/-- Whether a step is a send pass of the publishes, or of the subscriptions, or the arrival of an
acknowledgement for one. -/
def Label.concerns (ofPublish : Bool) : Label → Bool
  | .sendPublishes .. => ofPublish
  | .sendSubscribes .. => !ofPublish
  | .receive packet => (packet.acksOf ofPublish).isSome
  | _ => false

variable {s : Client QUEUE BUFFER TOPIC} {topicPathCapacity : Nat} {l : Label}

theorem scripted_asksNone {ofPublish : Bool} (answers : List (Except MqttError Bool))
    (ticks : List Duration) : s.env.AsksNone ofPublish (s.scripted answers ticks).env :=
  .of_eq rfl rfl (Nat.le_refl _)

variable (s topicPathCapacity) in
/-- A packet is processed without a write. -/
theorem receive_unwritten (packet : Packet) :
    (s.outcome topicPathCapacity (.receive packet)).2.env.outgoing = s.env.outgoing ∧
      (s.outcome topicPathCapacity (.receive packet)).2.env.written = s.env.written ∧
      s.env.now ≤ (s.outcome topicPathCapacity (.receive packet)).2.env.now := by
  cases packet with
  | publish message =>
    have henv : (s.outcome topicPathCapacity (.receive (.publish message))).2.env = s.env :=
      Receives.onPublish_env ⟨s.receives, s.env⟩ message
    rw [henv]
    exact ⟨rfl, rfl, Nat.le_refl _⟩
  | pubrel pid =>
    have henv : (s.outcome topicPathCapacity (.receive (.pubrel pid))).2.env = s.env :=
      Receives.onPubrel_env ⟨s.receives, s.env⟩ pid
    rw [henv]
    exact ⟨rfl, rfl, Nat.le_refl _⟩
  | puback pid =>
    simp only [outcome, processPacket, callPublishes, Publishes.processIncomingPacket]
    rcases PublishesInner.processPuback_cases ⟨s.publishes, s.env⟩ pid with
      ⟨i, e, -, -, h⟩ | ⟨-, h⟩ <;> rw [h] <;> exact ⟨rfl, rfl, Nat.le_refl _⟩
  | pubcomp pid =>
    simp only [outcome, processPacket, callPublishes, Publishes.processIncomingPacket]
    rcases PublishesInner.processPubcomp_cases ⟨s.publishes, s.env⟩ pid with
      ⟨i, e, -, -, h⟩ | ⟨-, h⟩ <;> rw [h] <;> exact ⟨rfl, rfl, Nat.le_refl _⟩
  | pubrec pid =>
    simp only [outcome, processPacket, callPublishes, Publishes.processIncomingPacket]
    rcases PublishesInner.processPubrec_cases ⟨s.publishes, s.env⟩ pid with
      ⟨i, e, r, inner, -, -, -, h⟩ | ⟨-, r, inner, -, h⟩ <;> rw [h] <;>
      exact ⟨rfl, rfl, Nat.le_refl _⟩
  | suback response =>
    simp only [outcome, processPacket, callSubscribes]
    rcases SubsInner.onSuback_cases response ⟨s.subscribes, s.env⟩ with
      h | ⟨i, e, qos, result, -, -, -, h⟩ <;> rw [h] <;> exact ⟨rfl, rfl, Nat.le_refl _⟩
  | unsuback pid =>
    simp only [outcome, processPacket, callSubscribes]
    rcases SubsInner.onUnsuback_cases pid ⟨s.subscribes, s.env⟩ with
      h | ⟨i, e, -, -, -, h⟩ <;> rw [h] <;> exact ⟨rfl, rfl, Nat.le_refl _⟩
  | pingresp => exact ⟨rfl, rfl, s.env.now_le_read⟩
  | _ => exact ⟨rfl, rfl, Nat.le_refl _⟩

theorem receive_asksNone {ofPublish : Bool} (packet : Packet) :
    s.env.AsksNone ofPublish (s.outcome topicPathCapacity (.receive packet)).2.env := by
  have hquiet := s.receive_unwritten topicPathCapacity packet
  exact .of_eq hquiet.1 hquiet.2.1 hquiet.2.2

/-- A step that is not about the publishes only queues one, and asks for none of their
acknowledgements. -/
theorem outcome_publishes (hl : l.concerns true = false) :
    (∃ sendPublish, (s.outcome topicPathCapacity l).2.publishes = { s.publishes with sendPublish }) ∧
      s.env.AsksNone true (s.outcome topicPathCapacity l).2.env := by
  by_cases hrequest : l.isRequest = true
  · obtain ⟨sendPublish, sendRequest, pool, waiting, autoSubscribe, issued, h⟩ :=
      s.outcome_request topicPathCapacity hrequest
    rw [h]
    exact ⟨⟨sendPublish, rfl⟩, .of_eq rfl rfl (Nat.le_refl _)⟩
  · cases l with
    | sendPublishes => cases hl
    | sendReceives answers =>
      have hpass := Receives.sendPackets_asksNone true ⟨s.receives, (s.scripted answers []).env⟩
      exact ⟨⟨_, rfl⟩, (scripted_asksNone answers []).trans hpass.1⟩
    | sendSubscribes answers ticks =>
      have hpass := SubsInner.send_asksNone topicPathCapacity
        ⟨s.subscribes, (s.scripted answers ticks).env⟩
      exact ⟨⟨_, rfl⟩, (scripted_asksNone answers ticks).trans hpass.1⟩
    | sendPing answers ticks =>
      have hpass := PingStateInner.send_asksNone true ⟨s.ping, (s.scripted answers ticks).env⟩
      exact ⟨⟨_, rfl⟩, (scripted_asksNone answers ticks).trans hpass.1⟩
    | receive packet =>
      refine ⟨?_, receive_asksNone packet⟩
      cases packet with
      | puback | pubrec | pubcomp => cases hl
      | _ => exact ⟨_, rfl⟩
    | wait d => exact ⟨⟨_, rfl⟩, .of_eq rfl rfl (Nat.le_add_right ..)⟩
    | _ => exact absurd rfl hrequest

/-- As `outcome_publishes`, for the subscriptions. -/
theorem outcome_subscribes (hl : l.concerns false = false) :
    (∃ sendRequest, (s.outcome topicPathCapacity l).2.subscribes =
        { s.subscribes with sendRequest }) ∧
      s.env.AsksNone false (s.outcome topicPathCapacity l).2.env := by
  by_cases hrequest : l.isRequest = true
  · obtain ⟨sendPublish, sendRequest, pool, waiting, autoSubscribe, issued, h⟩ :=
      s.outcome_request topicPathCapacity hrequest
    rw [h]
    exact ⟨⟨sendRequest, rfl⟩, .of_eq rfl rfl (Nat.le_refl _)⟩
  · cases l with
    | sendPublishes answers ticks =>
      have hpass := PublishesInner.sendPackets_asksNone
        ⟨s.publishes, (s.scripted answers ticks).env⟩
      exact ⟨⟨_, rfl⟩, (scripted_asksNone answers ticks).trans hpass.1⟩
    | sendReceives answers =>
      have hpass := Receives.sendPackets_asksNone false ⟨s.receives, (s.scripted answers []).env⟩
      exact ⟨⟨_, rfl⟩, (scripted_asksNone answers []).trans hpass.1⟩
    | sendSubscribes => cases hl
    | sendPing answers ticks =>
      have hpass := PingStateInner.send_asksNone false ⟨s.ping, (s.scripted answers ticks).env⟩
      exact ⟨⟨_, rfl⟩, (scripted_asksNone answers ticks).trans hpass.1⟩
    | receive packet =>
      refine ⟨?_, receive_asksNone packet⟩
      cases packet with
      | suback | unsuback => cases hl
      | _ => exact ⟨_, rfl⟩
    | wait d => exact ⟨⟨_, rfl⟩, .of_eq rfl rfl (Nat.le_add_right ..)⟩
    | _ => exact absurd rfl hrequest

/-- Every step is about one kind of exchanges at most. -/
theorem outcome_asksNone :
    ∃ ofPublish, s.env.AsksNone ofPublish (s.outcome topicPathCapacity l).2.env := by
  cases hl : l.concerns true with
  | false => exact ⟨true, (outcome_publishes hl).2⟩
  | true =>
    refine ⟨false, (outcome_subscribes ?_).2⟩
    cases l with
    | receive packet =>
      cases packet with
      | puback | pubrec | pubcomp => rfl
      | _ => cases hl
    | sendPublishes => rfl
    | _ => cases hl

theorem now_le_outcome : s.env.now ≤ (s.outcome topicPathCapacity l).2.env.now :=
  outcome_asksNone.elim fun _ h => h.now

theorem written_subset_outcome :
    s.env.written ⊆ (s.outcome topicPathCapacity l).2.env.written :=
  outcome_asksNone.elim fun _ h => h.written_subset

/-- Apart from acknowledgements, only the send pass of the publishes reports anything. -/
theorem outcome_events (hl : ∀ packet, l = .receive packet → packet.acks = none)
    {event : MqttEvent} (h : event ∈ (s.outcome topicPathCapacity l).2.env.events) :
    event ∈ s.env.events ∨ (s.outcome topicPathCapacity l).2.env.SentOnce event := by
  by_cases hrequest : l.isRequest = true
  · obtain ⟨sendPublish, sendRequest, pool, waiting, autoSubscribe, issued, heq⟩ :=
      s.outcome_request topicPathCapacity hrequest
    rw [heq] at h
    exact .inl h
  · cases l with
    | sendPublishes answers ticks =>
      have hpass := PublishesInner.sendPackets_asksNone
        ⟨s.publishes, (s.scripted answers ticks).env⟩
      exact hpass.2 event h
    | sendReceives answers =>
      have hpass := Receives.sendPackets_asksNone true ⟨s.receives, (s.scripted answers []).env⟩
      exact .inl (hpass.2 ▸ h)
    | sendSubscribes answers ticks =>
      have hpass := SubsInner.send_asksNone topicPathCapacity
        ⟨s.subscribes, (s.scripted answers ticks).env⟩
      exact .inl (hpass.2 ▸ h)
    | sendPing answers ticks =>
      have hpass := PingStateInner.send_asksNone true ⟨s.ping, (s.scripted answers ticks).env⟩
      exact .inl (hpass.2 ▸ h)
    | receive packet =>
      have hacks := hl packet rfl
      cases packet with
      | publish message =>
        have henv : (s.outcome topicPathCapacity (.receive (.publish message))).2.env = s.env :=
          Receives.onPublish_env ⟨s.receives, s.env⟩ message
        exact .inl (henv ▸ h)
      | pubrel pid =>
        have henv : (s.outcome topicPathCapacity (.receive (.pubrel pid))).2.env = s.env :=
          Receives.onPubrel_env ⟨s.receives, s.env⟩ pid
        exact .inl (henv ▸ h)
      | puback | pubrec | pubcomp | suback | unsuback => cases hacks
      | _ => exact .inl h
    | wait d => exact .inl h
    | _ => exact absurd rfl hrequest

end Client

/-! ## Steps of the session -/

namespace Session

/-- In all runs no pid has two users. -/
structure Sane (s : Session QUEUE BUFFER TOPIC) : Prop where
  pids : s.client.env.pool.Sound s.client.uses

/-- The acknowledgements that the client has not read: those that the packets on the way to the
broker ask for, those that it owes, and those on the way to the client. -/
def outstanding (s : Session QUEUE BUFFER TOPIC) : List (Ack × Pid) :=
  s.client.env.outgoing.filterMap (·.packet.asks) ++ (s.owed ++ s.toClient).filterMap Packet.acks

/-- The exchanges of the publishes. -/
def Publishing (s : Session QUEUE BUFFER TOPIC) : Prop :=
  s.client.publishes.Exchange s.client.env.outgoing (acknowledgements true (s.owed ++ s.toClient))
    s.received

/-- A send pass of the publishes writes no packet again while its acknowledgement is outstanding. -/
def RepeatsNone (topicPathCapacity : Nat) (s : Session QUEUE BUFFER TOPIC) : Label → Prop
  | .client (.sendPublishes answers ticks) =>
    let client := (s.client.outcome topicPathCapacity (.sendPublishes answers ticks)).2
    (outstanding { s with client } |>.filter (·.1.ofPublish)).Nodup
  | _ => True

variable {s s' : Session QUEUE BUFFER TOPIC} {topicPathCapacity : Nat} {l : Label}

/-! ### Every step -/

theorem client_next_eq {l : Client.Label}
    (hnext : s.next topicPathCapacity (.client l) = some s') :
    s' = { s with client := (s.client.outcome topicPathCapacity l).2 } := by
  cases l with
  | receive packet => cases hnext
  | _ => exact (Option.some.inj hnext).symm

theorem clientReceive_next_eq (hnext : s.next topicPathCapacity .clientReceive = some s') :
    ∃ packet toClient, s.toClient = packet :: toClient ∧
      s' = { s with client := (s.client.outcome topicPathCapacity (.receive packet)).2, toClient } := by
  cases hin : s.toClient with
  | nil => simp [next, hin] at hnext
  | cons packet toClient =>
    simp only [next, hin] at hnext
    exact ⟨packet, toClient, rfl, (Option.some.inj hnext).symm⟩

theorem brokerReceive_next_eq {returnCodes : List SubscribeReturnCodes}
    (hnext : s.next topicPathCapacity (.brokerReceive returnCodes) = some s') :
    ∃ w outgoing, s.client.env.outgoing = w :: outgoing ∧
      s' =
        { s with
          client := s.withOutgoing outgoing
          owed := s.owed ++ (w.packet.answer returnCodes).toList
          broker := s.broker.receive w
          received := s.received ++ [w] } := by
  cases hout : s.client.env.outgoing with
  | nil => simp [next, hout] at hnext
  | cons w outgoing =>
    simp only [next, hout] at hnext
    exact ⟨w, outgoing, rfl, (Option.some.inj hnext).symm⟩

theorem brokerAnswer_next_eq {i : Nat}
    (hnext : s.next topicPathCapacity (.brokerAnswer i) = some s') :
    ∃ packet, s.owed[i]? = some packet ∧
      s' = { s with owed := s.owed.eraseIdx i, toClient := s.toClient ++ [packet] } := by
  obtain ⟨packet, hi, heq⟩ := Option.map_eq_some_iff.mp hnext
  exact ⟨packet, hi, heq.symm⟩

theorem brokerSend_next_eq {packet : Packet}
    (hnext : s.next topicPathCapacity (.brokerSend packet) = some s') :
    packet.acks = none ∧ s' = { s with toClient := s.toClient ++ [packet] } := by
  cases hacks : packet.acks with
  | none =>
    simp only [next, hacks] at hnext
    exact ⟨rfl, (Option.some.inj hnext).symm⟩
  | some k => simp [next, hacks] at hnext

theorem Sane.step (h : s.Sane) (hnext : s.next topicPathCapacity l = some s') : s'.Sane := by
  cases l with
  | client l =>
    rw [client_next_eq hnext]
    exact ⟨Client.sound_step l h.pids⟩
  | clientReceive =>
    obtain ⟨packet, toClient, -, rfl⟩ := clientReceive_next_eq hnext
    exact ⟨Client.sound_step (.receive packet) h.pids⟩
  | brokerReceive =>
    obtain ⟨w, outgoing, -, rfl⟩ := brokerReceive_next_eq hnext
    exact ⟨h.pids⟩
  | brokerAnswer =>
    obtain ⟨packet, -, rfl⟩ := brokerAnswer_next_eq hnext
    exact ⟨h.pids⟩
  | brokerSend =>
    obtain ⟨-, rfl⟩ := brokerSend_next_eq hnext
    exact ⟨h.pids⟩
  | reconnect d =>
    cases hnext
    exact ⟨h.pids⟩

theorem Sane.publishes_uses_le (h : s.Sane) (p : Pid) : s.client.publishes.uses p ≤ 1 := by
  have := h.pids.used_le_one p
  simp only [Client.uses] at this
  omega

/-! ### The publishes -/

variable (s) in
theorem filter_outstanding :
    s.outstanding.filter (·.1.ofPublish) =
      Correspondence.outstanding (letters true s.client.env.outgoing)
        (acknowledgements true (s.owed ++ s.toClient)) := by
  simp only [outstanding, Correspondence.outstanding, letters, acknowledgements, List.filter_append,
    List.filter_filterMap, List.map_filterMap, Option.map_map, Function.comp_def, Option.map_id']
  congr 1
  · exact List.filterMap_congr fun w _ => by simp [Packet.asksOf]
  · exact List.filterMap_congr fun p _ => by simp [Packet.acksOf]

theorem processPacket_ack {packet : Packet} {k : Ack × Pid} (hk : packet.acksOf true = some k) :
    s.client.outcome topicPathCapacity (.receive packet) =
      s.client.callPublishes (Publishes.processIncomingPacket packet) := by
  cases packet with
  | puback | pubrec | pubcomp => rfl
  | _ => cases hk

variable (topicPathCapacity) in
/-- An acknowledgement of a publish is processed. -/
theorem Publishing.receive {packet : Packet} {k : Ack × Pid} {toClient : List Packet}
    (h : s.Publishing) (hin : s.toClient = packet :: toClient)
    (hk : packet.acksOf true = some k) :
    ∃ r, ∃ c' : Ctx (PublishesInner QUEUE BUFFER TOPIC),
      s.client.outcome topicPathCapacity (.receive packet) =
        (r, { s.client with publishes := c'.inner, env := c'.env }) ∧
      c'.env.outgoing = s.client.env.outgoing ∧
      c'.inner.Exchange s.client.env.outgoing (acknowledgements true (s.owed ++ toClient))
        s.received ∧
      ((∀ pid, packet = .pubrec pid → s.client.publishes.sendPubrel.isFull = false) →
        r = .ok ()) := by
  have hflight : Flight true _ _ (s.owed ++ packet :: toClient) _ := hin ▸ h.flight
  have hexchange := { h with flight := hflight.read hk }
  obtain ⟨r, c', hexec, hprocessed⟩ := hexchange.processIncomingPacket
    (c := ⟨s.client.publishes, s.client.env⟩) hk
  refine ⟨r, c', ?_, hprocessed⟩
  rw [processPacket_ack hk, Client.callPublishes, hexec]

variable (topicPathCapacity) in
theorem Publishing.other {l : Client.Label} (h : s.Publishing) (hl : l.concerns true = false) :
    Publishing { s with client := (s.client.outcome topicPathCapacity l).2 } := by
  have hother : (∃ sendPublish, (s.client.outcome topicPathCapacity l).2.publishes = _) ∧ _ :=
    Client.outcome_publishes hl
  obtain ⟨⟨sendPublish, hpublishes⟩, hnone⟩ := hother
  unfold Publishing
  rw [hpublishes]
  exact { h with flight := hnone.letters_eq ▸ h.flight }

variable (topicPathCapacity) in
/-- A send pass of the publishes that writes nothing again whose acknowledgement is outstanding. -/
theorem Publishing.sendPublishes {answers : List (Except MqttError Bool)} {ticks : List Duration}
    (h : s.Publishing) (hs : s.Sane)
    (hl : s.RepeatsNone topicPathCapacity (.client (.sendPublishes answers ticks))) :
    Publishing
        { s with client := (s.client.outcome topicPathCapacity (.sendPublishes answers ticks)).2 } ∧
      (s.client.outcome topicPathCapacity (.sendPublishes answers ticks)).1 ≠ .error .panic := by
  simp only [RepeatsNone, filter_outstanding] at hl
  obtain ⟨hexchange, hpanic⟩ := PublishesInner.sendPackets_exchange
    (c := ⟨s.client.publishes, (s.client.scripted answers ticks).env⟩) h hs.publishes_uses_le hl
  exact ⟨hexchange, fun hstop => hpanic (Client.sent_error_iff.mp hstop)⟩

theorem Publishing.step (h : s.Publishing) (hs : s.Sane) (hl : s.RepeatsNone topicPathCapacity l)
    (hnext : s.next topicPathCapacity l = some s') : s'.Publishing := by
  cases l with
  | client l =>
    rw [client_next_eq hnext]
    cases hconcerns : l.concerns true with
    | false => exact h.other topicPathCapacity hconcerns
    | true =>
      cases l with
      | sendPublishes answers ticks => exact (h.sendPublishes topicPathCapacity hs hl).1
      | receive packet => cases hnext
      | _ => cases hconcerns
  | clientReceive =>
    obtain ⟨packet, toClient, hin, rfl⟩ := clientReceive_next_eq hnext
    cases hk : packet.acksOf true with
    | some k =>
      obtain ⟨r, c', houtcome, hout, hexchange, -⟩ := h.receive topicPathCapacity hin hk
      rw [houtcome]
      rw [← hout] at hexchange
      exact hexchange
    | none =>
      have hother : Publishing { s with client := _ } :=
        h.other topicPathCapacity (l := .receive packet)
          (by rw [Client.Label.concerns, hk]; rfl)
      unfold Publishing at hother ⊢
      rw [hin, acknowledgements_middle_of_none hk] at hother
      exact hother
  | brokerReceive returnCodes =>
    obtain ⟨w, outgoing, hout, rfl⟩ := brokerReceive_next_eq hnext
    have hflight : Flight true _ (w :: outgoing) _ _ := hout ▸ h.flight
    refine ⟨h.toTracked.mono (List.subset_append_left ..), ?_, h.identified⟩
    exact hflight.arrive (fun k r hmem hk => h.carried_of_pubcomp (hout ▸ hmem) hk) returnCodes
  | brokerAnswer i =>
    obtain ⟨packet, hi, rfl⟩ := brokerAnswer_next_eq hnext
    exact { h with flight := Flight.answer h.flight hi }
  | brokerSend packet =>
    obtain ⟨hacks, rfl⟩ := brokerSend_next_eq hnext
    unfold Publishing
    dsimp only
    rw [← List.append_assoc, acknowledgements_concat_of_none hacks]
    exact h
  | reconnect d =>
    cases hnext
    exact { h with flight := h.flight.lose }

/-! ## No acknowledgement is punished -/

/-- A PUBREC that is read finds room in `send_pubrel`. -/
def PubrecRoom (s : Session QUEUE BUFFER TOPIC) : Label → Prop
  | .clientReceive =>
    match s.toClient with
    | .pubrec _ :: _ => s.client.publishes.sendPubrel.isFull = false
    | _ => True
  | _ => True

/-- An acknowledgement of a publish is processed without an error, and a send pass does not panic. -/
def Unpunished (topicPathCapacity : Nat) (s : Session QUEUE BUFFER TOPIC) : Label → Prop
  | .clientReceive => ∀ packet ∈ s.toClient.head?, (packet.acksOf true).isSome →
      (s.client.outcome topicPathCapacity (.receive packet)).1 = .ok ()
  | .client (.sendPublishes answers ticks) =>
    (s.client.outcome topicPathCapacity (.sendPublishes answers ticks)).1 ≠ .error .panic
  | _ => True

theorem Publishing.unpunished (h : s.Publishing) (hs : s.Sane)
    (hl : s.RepeatsNone topicPathCapacity l) (hroom : s.PubrecRoom l) :
    s.Unpunished topicPathCapacity l := by
  cases l with
  | client l =>
    cases l with
    | sendPublishes answers ticks => exact (h.sendPublishes topicPathCapacity hs hl).2
    | _ => exact trivial
  | clientReceive =>
    intro packet hpacket hk
    obtain ⟨k, hk⟩ := Option.isSome_iff_exists.mp hk
    cases hin : s.toClient with
    | nil => simp [hin] at hpacket
    | cons first toClient =>
      rw [hin] at hpacket
      cases hpacket
      obtain ⟨r, c', houtcome, -, -, hok⟩ := h.receive topicPathCapacity hin hk
      rw [houtcome]
      refine hok fun pid heq => ?_
      subst heq
      simpa only [PubrecRoom, hin] using hroom
  | _ => exact trivial

theorem new_sane : (new : Session QUEUE BUFFER TOPIC).Sane := ⟨PidPool.new_sound⟩

theorem new_publishing : (new : Session QUEUE BUFFER TOPIC).Publishing where
  toTracked := .new
  flight := .nil
  identified := nofun

/-- Unless a packet is written again while its acknowledgement is outstanding, or a PUBREC finds
`send_pubrel` full, a conforming broker is never punished. -/
theorem broker_unpunished {ls : List Label}
    (hG : AllSteps (next · topicPathCapacity)
      (fun s l => s.RepeatsNone topicPathCapacity l ∧ s.PubrecRoom l)
      (new : Session QUEUE BUFFER TOPIC) ls) :
    AllSteps (next · topicPathCapacity) (Unpunished topicPathCapacity)
      (new : Session QUEUE BUFFER TOPIC) ls := by
  let I (s : Session QUEUE BUFFER TOPIC) : Prop := s.Sane ∧ s.Publishing
  have hstep : ∀ s l s', I s → s.RepeatsNone topicPathCapacity l ∧ s.PubrecRoom l →
      s.next topicPathCapacity l = some s' → I s' := by
    rintro s l s' ⟨hs, h⟩ ⟨hl, -⟩ hnext
    exact ⟨hs.step hnext, h.step hs hl hnext⟩
  refine hG.of_invariant (I := I) hstep ?_ ⟨new_sane, new_publishing⟩
  rintro s l ⟨hs, h⟩ ⟨hl, hroom⟩
  exact h.unpunished hs hl hroom

instance (l : Label) : Decidable (s.RepeatsNone topicPathCapacity l) := by
  unfold RepeatsNone
  split <;> infer_instance

instance (l : Label) : Decidable (s.PubrecRoom l) := by
  unfold PubrecRoom
  split
  · split <;> infer_instance
  · infer_instance

instance (l : Label) : Decidable (s.Unpunished topicPathCapacity l) := by
  unfold Unpunished
  split <;> infer_instance

/-- One publish is written and carried to the broker. -/
def publishRun (qos : QoS) : List Label :=
  [ .client (.publish [116] [7] qos false 1), .client (.poll 0),
    .client (.sendPublishes [.ok true] []), .brokerReceive [] ]

/-- The broker takes six seconds, so that the packet is written twice and answered twice. -/
def lateAnswerRun (qos : QoS) : List Label :=
  publishRun qos ++
    [ .client (.wait (.fromSecs 6)), .client (.sendPublishes [.ok true] []), .brokerReceive [],
      .brokerAnswer 0, .brokerAnswer 0, .clientReceive, .clientReceive ]

theorem lateAnswerRun_punished :
    ¬AllSteps (next · 16) (Unpunished 16) (new : Session 4 8 8) (lateAnswerRun .atLeastOnce) ∧
      ¬AllSteps (next · 16) (Unpunished 16) (new : Session 4 8 8)
        (lateAnswerRun .exactlyOnce ++ [.client (.sendPublishes [.ok true, .ok true] [])]) := by
  refine ⟨?_, ?_⟩ <;> decide +kernel

/-- A publish of QoS 2 is written again only on the next connection. On the first one that is
refused, in a pass that writes another publish. -/
def refusedAgainRun : List Label :=
  publishRun .exactlyOnce ++
    [ .client (.wait (.fromSecs 6)), .client (.publish [116] [8] .atLeastOnce false 2),
      .client (.poll 0), .client (.sendPublishes [.ok true, .ok false] []), .reconnect 0,
      .client (.sendPublishes [.ok true] []), .brokerReceive [], .brokerAnswer 0, .clientReceive,
      .client (.sendPublishes [.ok true] []), .brokerReceive [], .brokerAnswer 0, .clientReceive ]

theorem broker_unpunished_on_refusedAgainRun :
    AllSteps (next · 16) (Unpunished 16) (new : Session 4 8 8) refusedAgainRun :=
  broker_unpunished (by decide +kernel)

end Session

end EmbeddedMqttc
