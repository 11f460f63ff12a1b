import EmbeddedMqttc.Session
import EmbeddedMqttc.Library.Correspondence

/-!
# What is on the connection

PUBLISH, PUBREL, SUBSCRIBE and UNSUBSCRIBE ask for an acknowledgement with their pid. The packets
that ask and the acknowledgements on the way are the letters and answers of a `Correspondence`: one
for the publishes and one for the subscriptions.
-/

namespace EmbeddedMqttc

open Prog Correspondence

/-- Whether it acknowledges a packet of `Publishes`, and not one of `Subs`. -/
def Ack.ofPublish : Ack → Bool
  | puback | pubrec | pubcomp => true
  | suback | unsuback => false

namespace Packet

/-- The acknowledgement that a packet asks for. -/
def asks : Packet → Option (Ack × Pid)
  | .publish message =>
    match message.qospid with
    | .atMostOnce => none
    | .atLeastOnce pid => some (.puback, pid)
    | .exactlyOnce pid => some (.pubrec, pid)
  | .pubrel pid => some (.pubcomp, pid)
  | .subscribe request => some (.suback, request.pid)
  | .unsubscribe request => some (.unsuback, request.pid)
  | _ => none

/-- `asks`, for the packets of `Publishes` or of `Subs` only. -/
def asksOf (ofPublish : Bool) (p : Packet) : Option (Ack × Pid) :=
  p.asks.filter fun k => k.1.ofPublish == ofPublish

def acksOf (ofPublish : Bool) (p : Packet) : Option (Ack × Pid) :=
  p.acks.filter fun k => k.1.ofPublish == ofPublish

variable {ofPublish : Bool} {p : Packet} {k : Ack × Pid}

/-- The broker gives the acknowledgement that it was asked for. -/
theorem acksOf_answer (returnCodes : List SubscribeReturnCodes) :
    (p.answer returnCodes).bind (acksOf ofPublish) = p.asksOf ofPublish := by
  cases p with
  | publish message =>
    obtain ⟨dup, qospid, retain, topicName, payload⟩ := message
    cases qospid <;> rfl
  | _ => rfl

theorem asksOf_eq_some_iff :
    p.asksOf ofPublish = some k ↔ p.asks = some k ∧ k.1.ofPublish = ofPublish := by
  simp [asksOf, Option.filter_eq_some_iff]

theorem acksOf_eq_some_iff :
    p.acksOf ofPublish = some k ↔ p.acks = some k ∧ k.1.ofPublish = ofPublish := by
  simp [acksOf, Option.filter_eq_some_iff]

end Packet

/-- Among the packets is one that carries the request, of the kind that such an acknowledgement
completes. -/
def Ack.Carried (received : List Written) : Ack → Option UniqueID → Prop
  | puback, r | pubrec, r | pubcomp, r => ∃ message, ⟨.publish message, r⟩ ∈ received
  | suback, r => ∃ request, ⟨.subscribe request, r⟩ ∈ received
  | unsuback, r => ∃ request, ⟨.unsubscribe request, r⟩ ∈ received

variable {received received' : List Written} {ack : Ack} {r : Option UniqueID}

theorem Ack.Carried.mono (h : ack.Carried received r) (hsub : received ⊆ received') :
    ack.Carried received' r := by
  cases ack <;> exact h.imp fun _ hmem => hsub hmem

/-- Apart from PUBREL, a packet that asks for an acknowledgement carries the request. -/
theorem Ack.Carried.of_asks {w : Written} {pid : Pid} (h : w.packet.asks = some (ack, pid))
    (hw : w ∈ received) (hne : ack ≠ .pubcomp) : ack.Carried received w.request := by
  obtain ⟨packet, request⟩ := w
  cases packet with
  | publish message =>
    obtain ⟨dup, qospid, retain, topicName, payload⟩ := message
    cases qospid <;> cases h <;> exact ⟨_, hw⟩
  | pubrel => cases h; exact absurd rfl hne
  | subscribe | unsubscribe => cases h; exact ⟨_, hw⟩
  | _ => cases h

/-! ## Letters and answers -/

def letters (ofPublish : Bool) (ws : List Written) : List ((Ack × Pid) × Option UniqueID) :=
  ws.filterMap fun w => (w.packet.asksOf ofPublish).map (·, w.request)

def acknowledgements (ofPublish : Bool) (ps : List Packet) : List (Ack × Pid) :=
  ps.filterMap (Packet.acksOf ofPublish)

section

variable {ofPublish : Bool} {w : Written} {ws : List Written} {k : Ack × Pid} {p : Packet}
  {ps qs : List Packet}

theorem letters_concat (hk : w.packet.asksOf ofPublish = some k) :
    letters ofPublish (ws ++ [w]) = letters ofPublish ws ++ [(k, w.request)] := by
  simp [letters, hk]

theorem letters_concat_of_none (hk : w.packet.asksOf ofPublish = none) :
    letters ofPublish (ws ++ [w]) = letters ofPublish ws := by
  simp [letters, hk]

theorem acknowledgements_append :
    acknowledgements ofPublish (ps ++ qs) =
      acknowledgements ofPublish ps ++ acknowledgements ofPublish qs := List.filterMap_append

theorem acknowledgements_concat_of_none (hp : p.acks = none) :
    acknowledgements ofPublish (ps ++ [p]) = acknowledgements ofPublish ps := by
  simp [acknowledgements, Packet.acksOf, hp]

/-- A packet that acknowledges nothing of this kind is read. -/
theorem acknowledgements_middle_of_none (hp : p.acksOf ofPublish = none) :
    acknowledgements ofPublish (ps ++ p :: qs) = acknowledgements ofPublish (ps ++ qs) := by
  simp [acknowledgements, hp]

theorem acknowledgements_toList (o : Option Packet) :
    acknowledgements ofPublish o.toList = (o.bind (Packet.acksOf ofPublish)).toList := by
  cases o with
  | none => rfl
  | some p => cases h : p.acksOf ofPublish <;> simp [acknowledgements, h]

end

/-! ## The connection -/

/-- The packets on the present connection are a sound correspondence with what the client waits
for. -/
def Flight (ofPublish : Bool) (pending : List ((Ack × Pid) × Option UniqueID))
    (outgoing : List Written) (answers : List Packet) (received : List Written) : Prop :=
  Sound pending (letters ofPublish outgoing) (acknowledgements ofPublish answers)
    fun k => k.1.Carried received

namespace Flight

variable {ofPublish : Bool} {pending : List ((Ack × Pid) × Option UniqueID)}
  {outgoing : List Written} {owed toClient answers answers' : List Packet} {w : Written}
  {packet : Packet} {k : Ack × Pid} {i : Nat}

theorem arrive (h : Flight ofPublish pending (w :: outgoing) (owed ++ toClient) received)
    (hrel : ∀ k r, (k, r) ∈ letters ofPublish (w :: outgoing) → k.1 = .pubcomp →
      k.1.Carried received r) (returnCodes : List SubscribeReturnCodes) :
    Flight ofPublish pending outgoing
      (owed ++ (w.packet.answer returnCodes).toList ++ toClient) (received ++ [w]) := by
  have hmono : Flight ofPublish pending (w :: outgoing) (owed ++ toClient) (received ++ [w]) :=
    Sound.mono h fun _ _ hc => hc.mono (List.subset_append_left ..)
  unfold Flight at hmono ⊢
  rw [acknowledgements_append] at hmono
  rw [acknowledgements_append, acknowledgements_append, acknowledgements_toList,
    Packet.acksOf_answer, List.append_assoc]
  cases hk : w.packet.asksOf ofPublish with
  | none => simpa [letters, hk] using hmono
  | some k =>
    have hletters : letters ofPublish (w :: outgoing) =
        (k, w.request) :: letters ofPublish outgoing := by simp [letters, hk]
    have hcarried : k.1.Carried (received ++ [w]) w.request := by
      obtain ⟨ack, pid⟩ := k
      by_cases hcomp : ack = .pubcomp
      · exact (hrel _ _ (hletters ▸ List.mem_cons_self) hcomp).mono (List.subset_append_left ..)
      · have hw : w ∈ received ++ [w] := List.mem_append_right _ (List.mem_singleton_self w)
        exact .of_asks (Packet.asksOf_eq_some_iff.mp hk).1 hw hcomp
    rw [hletters] at hmono
    exact (hmono.arrive hcarried).perm .rfl List.perm_middle.symm

/-- The broker sends an answer that it owes. -/
theorem answer (h : Flight ofPublish pending outgoing (owed ++ toClient) received)
    (hi : owed[i]? = some packet) :
    Flight ofPublish pending outgoing (owed.eraseIdx i ++ (toClient ++ [packet])) received := by
  obtain ⟨hlt, rfl⟩ := List.getElem?_eq_some_iff.mp hi
  have hperm : (owed ++ toClient).Perm (owed.eraseIdx i ++ (toClient ++ [owed[i]])) := by
    calc owed ++ toClient
      _ |>.Perm (owed[i] :: owed.eraseIdx i ++ toClient) :=
        (List.getElem_cons_eraseIdx_perm hlt).symm.append_right _
      _ |>.Perm (owed.eraseIdx i ++ (toClient ++ [owed[i]])) := by
        rw [← List.append_assoc]
        exact List.perm_append_singleton .. |>.symm
  exact Sound.perm h .rfl (hperm.filterMap _)

theorem read (h : Flight ofPublish pending outgoing (owed ++ packet :: toClient) received)
    (hk : packet.acksOf ofPublish = some k) :
    Sound pending (letters ofPublish outgoing)
      (k :: acknowledgements ofPublish (owed ++ toClient)) fun k => k.1.Carried received := by
  have hmiddle : (owed ++ packet :: toClient).Perm (packet :: (owed ++ toClient)) :=
    List.perm_middle
  have hperm := hmiddle.filterMap (Packet.acksOf ofPublish)
  rw [List.filterMap_cons_some hk] at hperm
  exact Sound.perm h .rfl hperm

end Flight

/-! ## Calls that ask for nothing of one kind -/

/-- What was written asks for no acknowledgement of the given kind, and time has passed. -/
structure Env.AsksNone (ofPublish : Bool) (e e' : Env) : Prop where
  packets : ∃ ws, (∀ w ∈ ws, w.packet.asksOf ofPublish = none) ∧ e'.outgoing = e.outgoing ++ ws ∧
    e'.written = e.written ++ ws
  now : e.now ≤ e'.now

namespace Env.AsksNone

variable {ofPublish : Bool} {e e' e'' : Env} {w : Written}

theorem of_eq (houtgoing : e'.outgoing = e.outgoing) (hwritten : e'.written = e.written)
    (hnow : e.now ≤ e'.now) : AsksNone ofPublish e e' where
  packets := ⟨[], nofun, by simpa using houtgoing, by simpa using hwritten⟩
  now := hnow

theorem refl : AsksNone ofPublish e e := of_eq rfl rfl (Nat.le_refl _)

theorem trans (h : AsksNone ofPublish e e') (h' : AsksNone ofPublish e' e'') :
    AsksNone ofPublish e e'' := by
  obtain ⟨ws, hws, houtgoing, hwritten⟩ := h.packets
  obtain ⟨ws', hws', houtgoing', hwritten'⟩ := h'.packets
  refine ⟨⟨ws ++ ws', fun w hw => ?_, ?_, ?_⟩, h.now.trans h'.now⟩
  · exact (List.mem_append.mp hw).elim (hws w) (hws' w)
  · rw [houtgoing', houtgoing, List.append_assoc]
  · rw [hwritten', hwritten, List.append_assoc]

theorem wrote (hw : w.packet.asksOf ofPublish = none) : AsksNone ofPublish e (e.wrote w) where
  packets := ⟨[w], fun _ hv => List.mem_singleton.mp hv ▸ hw, rfl, rfl⟩
  now := Nat.le_refl _

theorem read : AsksNone ofPublish e e.read := of_eq rfl rfl (now_le_read e)

theorem letters_eq (h : AsksNone ofPublish e e') :
    letters ofPublish e'.outgoing = letters ofPublish e.outgoing := by
  obtain ⟨ws, hws, houtgoing, -⟩ := h.packets
  have hnil : letters ofPublish ws = [] := by
    apply List.filterMap_eq_nil_iff.mpr
    intro w hw
    rw [hws w hw]
    rfl
  have happend : letters ofPublish (e.outgoing ++ ws) =
      letters ofPublish e.outgoing ++ letters ofPublish ws := List.filterMap_append
  rw [houtgoing, happend, hnil, List.append_nil]

theorem written_subset (h : AsksNone ofPublish e e') : e.written ⊆ e'.written := by
  obtain ⟨ws, -, -, hwritten⟩ := h.packets
  rw [hwritten]
  exact List.subset_append_left ..

end Env.AsksNone

variable {QUEUE BUFFER TOPIC : Nat}

/-- The acknowledgement that a request waits for. -/
def SubRequest.awaited (r : SubRequest TOPIC) : Ack × Pid :=
  match r.requestType with
  | .subscribe _ => (.suback, r.pid)
  | .unsubscribe => (.unsuback, r.pid)

theorem SubRequest.asks_createPacket {topicPathCapacity : Nat} {r : SubRequest TOPIC}
    {packet : Packet} (h : r.createPacket topicPathCapacity = .ok packet) :
    packet.asks = some r.awaited := by
  unfold createPacket at h
  unfold awaited
  cases htype : r.requestType with
  | subscribe qos =>
    rw [htype] at h
    cases htopics : r.topics.toList.mapM (createSubscribeTopic topicPathCapacity qos) with
    | error e => simp [htopics, Except.map] at h
    | ok topics =>
      simp only [htopics, Except.map] at h
      cases h
      rfl
  | unsubscribe =>
    rw [htype] at h
    cases htopics : r.topics.toList.mapM (codecTopic topicPathCapacity) with
    | error e => simp [htopics, Except.map] at h
    | ok topics =>
      simp only [htopics, Except.map] at h
      cases h
      rfl

theorem SubRequest.ofPublish_awaited (r : SubRequest TOPIC) : r.awaited.1.ofPublish = false := by
  unfold awaited
  cases r.requestType <;> rfl

theorem SubRequest.asksOf_createPacket {topicPathCapacity : Nat} {r : SubRequest TOPIC}
    {packet : Packet} (h : r.createPacket topicPathCapacity = .ok packet) :
    packet.asksOf true = none := by
  simp [Packet.asksOf, asks_createPacket h, ofPublish_awaited]

theorem SubsInner.now_le_move {topicPathCapacity : Nat} {c c' : Ctx (SubsInner TOPIC QUEUE)}
    (hmove : Move topicPathCapacity c c') : c.env.now ≤ c'.env.now := by
  cases hmove with
  | asked => exact Nat.le_refl _
  | read => exact Env.now_le_read _
  | request | resend => exact Env.now_le_read (c.env.wrote _)

/-- A send pass of the subscriptions asks for nothing that is of the publishes, and reports
nothing. -/
theorem SubsInner.send_asksNone (topicPathCapacity : Nat) (c : Ctx (SubsInner TOPIC QUEUE)) :
    c.env.AsksNone true ((send topicPathCapacity).exec c).2.env ∧
      ((send topicPathCapacity).exec c).2.env.events = c.env.events := by
  let I (c' : Ctx (SubsInner TOPIC QUEUE)) : Prop :=
    c.env.AsksNone true c'.env ∧ c'.env.events = c.env.events
  have hstep : ∀ c₁ c₂, Move topicPathCapacity c₁ c₂ → I c₁ → I c₂ := by
    rintro c₁ c₂ hmove ⟨h, hevents⟩
    refine ⟨h.trans ?_, by cases hmove <;> exact hevents⟩
    cases hmove with
    | asked => exact .of_eq rfl rfl (Nat.le_refl _)
    | read => exact .read
    | request hpop hpacket hpush => exact .trans (.wrote (SubRequest.asksOf_createPacket hpacket)) .read
    | resend hi hdue hpacket => exact .trans (.wrote (SubRequest.asksOf_createPacket hpacket)) .read
  exact send_moves.invariant (I := I) hstep ⟨.refl, rfl⟩

theorem Receives.sendPackets_asksNone (ofPublish : Bool) (c : Ctx (Receives BUFFER TOPIC QUEUE)) :
    c.env.AsksNone ofPublish (sendPackets.exec c).2.env ∧
      (sendPackets.exec c).2.env.events = c.env.events := by
  let I (c' : Ctx (Receives BUFFER TOPIC QUEUE)) : Prop :=
    c.env.AsksNone ofPublish c'.env ∧ c'.env.events = c.env.events
  have hstep : ∀ c₁ c₂, Move c₁ c₂ → I c₁ → I c₂ := by
    rintro c₁ c₂ hmove ⟨h, hevents⟩
    refine ⟨h.trans ?_, by cases hmove <;> exact hevents⟩
    cases hmove with
    | asked => exact .of_eq rfl rfl (Nat.le_refl _)
    | puback | pubrec | pubcomp => exact .wrote rfl
  exact sendPackets_moves.invariant (I := I) hstep ⟨.refl, rfl⟩

theorem PingStateInner.send_asksNone (ofPublish : Bool) (c : Ctx PingStateInner) :
    c.env.AsksNone ofPublish (send.exec c).2.env ∧ (send.exec c).2.env.events = c.env.events := by
  let I (c' : Ctx PingStateInner) : Prop :=
    c.env.AsksNone ofPublish c'.env ∧ c'.env.events = c.env.events
  have hstep : ∀ c₁ c₂, Move c₁ c₂ → I c₁ → I c₂ := by
    rintro c₁ c₂ hmove ⟨h, hevents⟩
    refine ⟨h.trans ?_, by cases hmove <;> exact hevents⟩
    cases hmove with
    | asked => exact .of_eq rfl rfl (Nat.le_refl _)
    | read => exact .read
    | request => exact .wrote rfl
  exact send_moves.invariant (I := I) hstep ⟨.refl, rfl⟩

end EmbeddedMqttc
