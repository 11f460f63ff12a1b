import EmbeddedMqttc.TakenOver
import EmbeddedMqttc.Library.Retransmission

/-!
# Every PUBLISH of a message is a copy of it

What a client writes for a call of `publish` carries the topic, the payload, the retain flag, the QoS
and the pid of the call. The first PUBLISH has no `dup` flag, the later ones have it, and after the
PUBACK or PUBREC that was matched with the entry there is none. The queues are those of a
`Retransmission.Sender`.
-/

namespace EmbeddedMqttc

open Prog EmbeddedMqttc.Comp Run Retransmission

variable {QUEUE BUFFER TOPIC : Nat}

/-! ## The packets of a message -/

/-- A PUBLISH without its mark. -/
def Publish.content (message : Publish) : Publish := { message with dup := false }

def Packet.message? : Packet → Option Publish
  | .publish message => some message
  | _ => none

/-- A PUBLISH that was written for a request, as a mark and a message. -/
def Written.copy? (w : Written) : Option (UniqueID × Bool × Publish) :=
  w.packet.message?.bind fun message => w.request.map (·, message.dup, message.content)

/-- A message that waits, under the id of its request. -/
def OwnedPublish.kept (self : OwnedPublish BUFFER TOPIC) : UniqueID × Publish :=
  (self.uniqueId,
    { dup := false
      qospid := self.qospid
      retain := self.retain
      topicName := self.topicName.toList
      payload := self.payload.toList })

theorem copy?_borrow (e : OwnedPublish BUFFER TOPIC) :
    Written.copy? ⟨e.borrow, some e.uniqueId⟩ = some (e.kept.1, e.dup, e.kept.2) := rfl

theorem OwnedPublish.kept_of_newFromPublish {message : Publish} {u : UniqueID}
    {e : OwnedPublish BUFFER TOPIC} (h : newFromPublish message u = .ok e) :
    e.kept = (u, message.content) ∧ e.dup = message.dup := by
  unfold newFromPublish at h
  split at h
  · cases h
  · rename_i topicName htopic
    split at h
    · cases h
    · rename_i payload hpayload
      cases h
      rw [BoundedVec.ofList?_eq_some_iff] at htopic hpayload
      simp [kept, Publish.content, htopic, hpayload]

/-- A call makes a message without a mark. -/
theorem State.newPublish_ok {σ : Type} {c c' : Ctx σ} {topic payload : List UInt8} {qos : QoS}
    {retain : Bool} {message : Publish}
    (h : (newPublish topic payload qos retain).exec c = (.ok message, c')) :
    message.qospid.qos = qos ∧ message =
      { dup := false, qospid := message.qospid, retain, topicName := topic, payload } := by
  obtain ⟨qospid, c₁, hqospid, h⟩ := exec_bind_eq_ok h
  cases h
  refine ⟨?_, rfl⟩
  rcases newQosPid_cases c qos with hexec | ⟨qospid', hqos, ⟨-, hexec⟩ | ⟨_, _, -, -, hexec⟩⟩
  · cases hexec.symm.trans hqospid
  · cases hexec.symm.trans hqospid
    exact hqos
  · cases hexec.symm.trans hqospid
    exact hqos

/-! ## Calls that write no PUBLISH -/

/-- No PUBLISH has been written. -/
def Env.NoPublish (e e' : Env) : Prop :=
  ∃ ws, (∀ w ∈ ws, w.packet.message? = none) ∧ e'.written = e.written ++ ws

namespace Env.NoPublish

variable {e e' e'' : Env} {w : Written}

theorem of_eq (h : e'.written = e.written) : NoPublish e e' := ⟨[], nofun, by simpa using h⟩

theorem refl : NoPublish e e := of_eq rfl

theorem trans (h : NoPublish e e') (h' : NoPublish e' e'') : NoPublish e e'' := by
  obtain ⟨ws, hws, hwritten⟩ := h
  obtain ⟨ws', hws', hwritten'⟩ := h'
  refine ⟨ws ++ ws', fun w hw => ?_, by rw [hwritten', hwritten, List.append_assoc]⟩
  exact (List.mem_append.mp hw).elim (hws w) (hws' w)

theorem wrote (hw : w.packet.message? = none) : NoPublish e (e.wrote w) :=
  ⟨[w], fun _ hv => List.mem_singleton.mp hv ▸ hw, rfl⟩

end Env.NoPublish

theorem SubRequest.message?_createPacket {topicPathCapacity : Nat} {r : SubRequest TOPIC}
    {packet : Packet} (h : r.createPacket topicPathCapacity = .ok packet) :
    packet.message? = none := by
  have hasks := asks_createPacket h
  have hkind := r.ofPublish_awaited
  cases packet with
  | publish message =>
    obtain ⟨dup, qospid, retain, topicName, payload⟩ := message
    cases qospid with
    | atMostOnce => cases hasks
    | atLeastOnce | exactlyOnce =>
      rw [← Option.some.inj hasks] at hkind
      cases hkind
  | _ => rfl

theorem SubsInner.send_noPublish (topicPathCapacity : Nat) (c : Ctx (SubsInner TOPIC QUEUE)) :
    c.env.NoPublish ((send topicPathCapacity).exec c).2.env := by
  let I (c' : Ctx (SubsInner TOPIC QUEUE)) : Prop := c.env.NoPublish c'.env
  have hstep : ∀ c₁ c₂, Move topicPathCapacity c₁ c₂ → I c₁ → I c₂ := by
    intro c₁ c₂ hmove h
    refine h.trans ?_
    cases hmove with
    | asked | read => exact .of_eq rfl
    | request _ hpacket _ => exact .wrote (SubRequest.message?_createPacket hpacket)
    | resend _ _ hpacket => exact .wrote (SubRequest.message?_createPacket hpacket)
  exact send_moves.invariant (I := I) hstep .refl

theorem Receives.sendPackets_noPublish (c : Ctx (Receives BUFFER TOPIC QUEUE)) :
    c.env.NoPublish (sendPackets.exec c).2.env := by
  let I (c' : Ctx (Receives BUFFER TOPIC QUEUE)) : Prop := c.env.NoPublish c'.env
  have hstep : ∀ c₁ c₂, Move c₁ c₂ → I c₁ → I c₂ := by
    intro c₁ c₂ hmove h
    refine h.trans ?_
    cases hmove with
    | asked => exact .of_eq rfl
    | puback | pubrec | pubcomp => exact .wrote rfl
  exact sendPackets_moves.invariant (I := I) hstep .refl

theorem PingStateInner.send_noPublish (c : Ctx PingStateInner) :
    c.env.NoPublish (send.exec c).2.env := by
  let I (c' : Ctx PingStateInner) : Prop := c.env.NoPublish c'.env
  have hstep : ∀ c₁ c₂, Move c₁ c₂ → I c₁ → I c₂ := by
    intro c₁ c₂ hmove h
    refine h.trans ?_
    cases hmove with
    | asked | read => exact .of_eq rfl
    | request => exact .wrote rfl
  exact send_moves.invariant (I := I) hstep .refl

namespace Client

variable {s : Client QUEUE BUFFER TOPIC} {topicPathCapacity : Nat} {l : Label}

/-- Only the send pass of the publishes writes a PUBLISH. -/
theorem outcome_noPublish (hl : ∀ answers ticks, l ≠ .sendPublishes answers ticks) :
    s.env.NoPublish (s.outcome topicPathCapacity l).2.env := by
  by_cases hrequest : l.isRequest = true
  · obtain ⟨sendPublish, sendRequest, pool, waiting, autoSubscribe, issued, h⟩ :=
      s.outcome_request topicPathCapacity hrequest
    rw [h]
    exact .of_eq rfl
  · cases l with
    | sendPublishes answers ticks => exact absurd rfl (hl answers ticks)
    | sendReceives answers =>
      exact Receives.sendPackets_noPublish ⟨s.receives, (s.scripted answers []).env⟩
    | sendSubscribes answers ticks =>
      exact SubsInner.send_noPublish topicPathCapacity
        ⟨s.subscribes, (s.scripted answers ticks).env⟩
    | sendPing answers ticks =>
      exact PingStateInner.send_noPublish ⟨s.ping, (s.scripted answers ticks).env⟩
    | receive packet => exact .of_eq (s.receive_unwritten topicPathCapacity packet).2.1
    | wait d => exact .of_eq rfl
    | _ => exact absurd rfl hrequest

end Client

/-! ## The queues -/

namespace PublishesInner

/-- The messages of QoS 1 and 2 that have been written and wait for their acknowledgement. -/
def unanswered (q : PublishesInner QUEUE BUFFER TOPIC) : List (UniqueID × Publish) :=
  q.awaitPuback.toList.map (·.publish.kept) ++ q.awaitPubrec.toList.map (·.publish.kept)

/-- The flag is set when a message goes to the queue of those that wait for an acknowledgement. -/
structure Flagged (q : PublishesInner QUEUE BUFFER TOPIC) : Prop where
  sendPublish : ∀ e ∈ q.sendPublish, e.dup = false
  awaitPuback : ∀ e ∈ q.awaitPuback, e.publish.dup = true
  awaitPubrec : ∀ e ∈ q.awaitPubrec, e.publish.dup = true

/-- The queues as those of a sender, with the history of a client. `waiting` are the calls that wait
for room. -/
def sender (accepted : List (UniqueID × Publish)) (answered : List (UniqueID × Nat))
    (waiting : List (Publish × UniqueID)) (q : PublishesInner QUEUE BUFFER TOPIC)
    (written : List Written) : Sender UniqueID Publish where
  pending := waiting.map (fun v => (v.2, v.1.content)) ++ q.sendPublish.toList.map (·.kept)
  unanswered := q.unanswered
  accepted := accepted
  written := written.map Written.copy?
  answered := answered

variable {c c' : Ctx (PublishesInner QUEUE BUFFER TOPIC)} {i : Nat}

theorem perm_sendPublish {current : OwnedPublish BUFFER TOPIC} (waiting : List (UniqueID × Publish))
    (hi : c.inner.sendPublish.get? i = some current) :
    (waiting ++ c.inner.sendPublish.toList.map (·.kept)).Perm
      (current.kept :: (waiting ++ (c.inner.sendPublish.removeAt i).toList.map (·.kept))) := by
  have hperm := (BoundedVec.perm_removeAt hi).symm.map OwnedPublish.kept
  exact (hperm.append_left waiting).trans List.perm_middle

/-- Writing a message again changes only when it was written. -/
theorem unanswered_pubackAgain (q : PublishesInner QUEUE BUFFER TOPIC) (now : Instant) :
    ({ q with awaitPuback := q.awaitPuback.modifyAt i fun e => { e with publishSent := now } } :
      PublishesInner ..).unanswered = q.unanswered := by
  have hqueue : (q.awaitPuback.modifyAt i fun e => { e with publishSent := now }).toList.map
      (·.publish.kept) = q.awaitPuback.toList.map (·.publish.kept) :=
    BoundedVec.map_modifyAt fun _ => rfl
  exact congrArg (· ++ q.awaitPubrec.toList.map (·.publish.kept)) hqueue

theorem unanswered_pubrecAgain (q : PublishesInner QUEUE BUFFER TOPIC) (now : Instant) :
    ({ q with awaitPubrec := q.awaitPubrec.modifyAt i fun e => { e with publishSent := now } } :
      PublishesInner ..).unanswered = q.unanswered := by
  have hqueue : (q.awaitPubrec.modifyAt i fun e => { e with publishSent := now }).toList.map
      (·.publish.kept) = q.awaitPubrec.toList.map (·.publish.kept) :=
    BoundedVec.map_modifyAt fun _ => rfl
  exact congrArg (q.awaitPuback.toList.map (·.publish.kept) ++ ·) hqueue

theorem Flagged.move (h : c.inner.Flagged) (hmove : Move c c') : c'.inner.Flagged := by
  cases hmove with
  | asked | read | pubrel | anonymous | pubcompResend => exact ⟨h.1, h.2, h.3⟩
  | atMostOnce =>
    exact ⟨fun e he => h.sendPublish e (BoundedVec.mem_removeAt he), h.awaitPuback, h.awaitPubrec⟩
  | atLeastOnce hi hq hpush =>
    refine ⟨fun e he => h.sendPublish e (BoundedVec.mem_removeAt he), fun e he => ?_,
      h.awaitPubrec⟩
    rcases (BoundedVec.mem_iff_of_push hpush).mp he with he | rfl
    · exact h.awaitPuback e he
    · rfl
  | exactlyOnce hi hq hpush =>
    refine ⟨fun e he => h.sendPublish e (BoundedVec.mem_removeAt he), h.awaitPuback,
      fun e he => ?_⟩
    rcases (BoundedVec.mem_iff_of_push hpush).mp he with he | rfl
    · exact h.awaitPubrec e he
    · rfl
  | pubackResend hi =>
    refine ⟨h.sendPublish, fun e he => ?_, h.awaitPubrec⟩
    rcases BoundedVec.mem_modifyAt he with he | ⟨e, hget, rfl⟩
    · exact h.awaitPuback e he
    · exact h.awaitPuback e (BoundedVec.mem_of_get? hget)
  | pubrecResend hi =>
    refine ⟨h.sendPublish, h.awaitPuback, fun e he => ?_⟩
    rcases BoundedVec.mem_modifyAt he with he | ⟨e, hget, rfl⟩
    · exact h.awaitPubrec e he
    · exact h.awaitPubrec e (BoundedVec.mem_of_get? hget)

/-- A move of a send pass is at most one step of the sender. -/
theorem sender_move (h : c.inner.Flagged) (hmove : Move c c')
    (accepted : List (UniqueID × Publish)) (answered : List (UniqueID × Nat))
    (waiting : List (Publish × UniqueID)) :
    Relation.ReflTransGen Retransmission.Step (c.inner.sender accepted answered waiting c.env.written)
      (c'.inner.sender accepted answered waiting c'.env.written) := by
  have hwrote (w : Written) : (c.env.written ++ [w]).map Written.copy? =
      c.env.written.map Written.copy? ++ [w.copy?] := by simp
  have hfirst {current : OwnedPublish BUFFER TOPIC} {i : Nat}
      (hi : c.inner.sendPublish.get? i = some current) :
      Written.copy? ⟨current.borrow, some current.uniqueId⟩ =
        some (current.kept.1, false, current.kept.2) := by
    rw [copy?_borrow, h.sendPublish _ (BoundedVec.mem_of_get? hi)]
  cases hmove with
  | asked | read => exact .refl
  | atMostOnce hi hq =>
    refine .single ?_
    simp only [sender, Env.emitted_written, Env.wrote_written, hwrote, hfirst hi]
    exact .once (perm_sendPublish _ hi)
  | atLeastOnce hi hq hpush =>
    refine .single ?_
    simp only [sender, Env.read_written, Env.wrote_written, hwrote, hfirst hi]
    refine .first (perm_sendPublish _ hi) ?_
    have hqueue := (BoundedVec.perm_push hpush).map (·.publish.kept)
    exact hqueue.append_right _
  | exactlyOnce hi hq hpush =>
    refine .single ?_
    simp only [sender, Env.read_written, Env.wrote_written, hwrote, hfirst hi]
    refine .first (perm_sendPublish _ hi) ?_
    have hqueue := (BoundedVec.perm_push hpush).map (·.publish.kept)
    exact (hqueue.append_left _).trans List.perm_middle
  | pubrel | anonymous | pubcompResend =>
    refine .single ?_
    simp only [sender, Env.read_written, Env.wrote_written, hwrote]
    exact .other
  | pubackResend hi hdue =>
    have hmem := BoundedVec.mem_of_get? hi
    refine .single ?_
    simp only [sender, Env.wrote_written, hwrote, copy?_borrow, h.awaitPuback _ hmem]
    rw [unanswered_pubackAgain]
    exact .again (List.mem_append_left _ (List.mem_map.mpr ⟨_, hmem, rfl⟩))
  | pubrecResend hi hdue =>
    have hmem := BoundedVec.mem_of_get? hi
    refine .single ?_
    simp only [sender, Env.wrote_written, hwrote, copy?_borrow, h.awaitPubrec _ hmem]
    rw [unanswered_pubrecAgain]
    exact .again (List.mem_append_right _ (List.mem_map.mpr ⟨_, hmem, rfl⟩))

theorem sendPackets_sender (h : c.inner.Flagged) (accepted : List (UniqueID × Publish))
    (answered : List (UniqueID × Nat)) (waiting : List (Publish × UniqueID)) :
    (sendPackets.exec c).2.inner.Flagged ∧
      Relation.ReflTransGen Retransmission.Step (c.inner.sender accepted answered waiting c.env.written)
        ((sendPackets.exec c).2.inner.sender accepted answered waiting
          (sendPackets.exec c).2.env.written) := by
  let I (c' : Ctx (PublishesInner QUEUE BUFFER TOPIC)) : Prop := c'.inner.Flagged ∧
    Relation.ReflTransGen Retransmission.Step (c.inner.sender accepted answered waiting c.env.written)
      (c'.inner.sender accepted answered waiting c'.env.written)
  have hstep : ∀ c₁ c₂, Move c₁ c₂ → I c₁ → I c₂ := by
    intro c₁ c₂ hmove hc
    exact ⟨hc.1.move hmove, hc.2.trans (sender_move hc.1 hmove accepted answered waiting)⟩
  exact sendPackets_moves.invariant (I := I) hstep ⟨h, .refl⟩

end PublishesInner

/-! ## A client and what it was given -/

/-- What a call of `publish` was given, and the pid that it got. -/
structure Accepted where
  uniqueId : UniqueID
  topic : List UInt8
  payload : List UInt8
  qos : QoS
  retain : Bool
  qospid : QosPid
  deriving DecidableEq, Repr

def Accepted.message (a : Accepted) : UniqueID × Publish :=
  (a.uniqueId,
    { dup := false
      qospid := a.qospid
      retain := a.retain
      topicName := a.topic
      payload := a.payload })

namespace Client

variable (s : Client QUEUE BUFFER TOPIC)

/-- The call that is accepted in a step, after which `issued` has its pid. -/
def accepts (issued : List (Option QosPid)) : Label → List Accepted
  | .publish topic payload qos retain id =>
    match issued[s.issued.length]? with
    | some (some qospid) =>
      [{ uniqueId := ⟨id, s.issued.length⟩, topic, payload, qos, retain, qospid }]
    | _ => []
  | _ => []

/-- The request of the entry that an acknowledgement is matched with. -/
def acknowledges : Label → Option UniqueID
  | .receive (.puback pid) =>
    (s.publishes.awaitPuback.position (·.pid == pid)).bind fun i =>
      (s.publishes.awaitPuback.get? i).map (·.publish.uniqueId)
  | .receive (.pubrec pid) =>
    (s.publishes.awaitPubrec.position (·.pid == pid)).bind fun i =>
      (s.publishes.awaitPubrec.get? i).map (·.publish.uniqueId)
  | _ => none

end Client

/-- `accepted` are the calls of `publish`. `answered` are the requests for which a PUBACK or PUBREC
was processed, with how much had been written by then. Both are history. -/
structure Story (QUEUE BUFFER TOPIC : Nat) where
  client : Client QUEUE BUFFER TOPIC
  accepted : List Accepted
  answered : List (UniqueID × Nat)

namespace Story

def new : Story QUEUE BUFFER TOPIC where
  client := .new
  accepted := []
  answered := []

variable (t : Story QUEUE BUFFER TOPIC)

def next (topicPathCapacity : Nat) (l : Client.Label) : Option (Story QUEUE BUFFER TOPIC) :=
  let client := (t.client.outcome topicPathCapacity l).2
  some
    { client
      accepted := t.accepted ++ t.client.accepts client.issued l
      answered :=
        t.answered ++ (t.client.acknowledges l).toList.map (·, t.client.env.written.length) }

/-- The client as a sender. -/
def sender : Sender UniqueID Publish :=
  t.client.publishes.sender (t.accepted.map (·.message)) t.answered t.client.waiting
    t.client.env.written

structure Sound : Prop where
  faithful : t.sender.Faithful
  flagged : t.client.publishes.Flagged
  waiting : ∀ v ∈ t.client.waiting, v.1.dup = false
  numbered : ∀ a ∈ t.accepted, a.uniqueId.request < t.client.issued.length
  qos : ∀ a ∈ t.accepted, a.qospid.qos = a.qos

variable {t} {t' : Story QUEUE BUFFER TOPIC} {topicPathCapacity : Nat} {l : Client.Label}

theorem new_sound : (new : Story QUEUE BUFFER TOPIC).Sound :=
  ⟨.new, ⟨nofun, nofun, nofun⟩, nofun, nofun, nofun⟩

theorem Sound.rest (h : t.Sound) (hl : l.ofPublish = false)
    (hnext : t.next topicPathCapacity l = some t') : t'.Sound := by
  cases hnext
  have hsend (answers : List (Except MqttError Bool)) (ticks : List Duration) :
      l ≠ .sendPublishes answers ticks := by
    rintro rfl
    cases hl
  obtain ⟨ws, hws, hwritten⟩ :=
    @Client.outcome_noPublish _ _ _ t.client topicPathCapacity l hsend
  obtain ⟨hpublishes, hwaiting, ⟨more, hissued⟩, -⟩ :=
    @Client.outcome_rest _ _ _ t.client topicPathCapacity l hl
  have haccepts (issued : List (Option QosPid)) : t.client.accepts issued l = [] := by
    cases l with
    | publish => cases hl
    | _ => rfl
  have hacknowledges : t.client.acknowledges l = none := by
    cases l with
    | receive packet =>
      cases packet with
      | puback | pubrec => cases hl
      | _ => rfl
    | _ => rfl
  simp only [haccepts, hacknowledges, List.append_nil, Option.toList_none, List.map_nil]
  refine ⟨?_, hpublishes ▸ h.flagged, hwaiting ▸ h.waiting, fun a ha => ?_, h.qos⟩
  · unfold sender
    rw [hpublishes, hwaiting, hwritten, PublishesInner.sender, List.map_append]
    refine h.faithful.steps (Retransmission.Step.others fun o ho => ?_)
    obtain ⟨w, hw, rfl⟩ := List.mem_map.mp ho
    rw [Written.copy?, hws w hw]
    rfl
  · rw [hissued, List.length_append]
    exact Nat.lt_add_right _ (h.numbered a ha)

/-- A call of `publish` gets the next number. -/
theorem Sound.publish (h : t.Sound) {topic payload : List UInt8} {qos : QoS} {retain : Bool}
    {id : Nat} (hnext : t.next topicPathCapacity (.publish topic payload qos retain id) = some t') :
    t'.Sound := by
  have hnone (issued : List (Option QosPid)) (hissued : issued = t.client.issued) :
      t.client.accepts issued (.publish topic payload qos retain id) = [] := by
    rw [hissued, Client.accepts, List.getElem?_eq_none (Nat.le_refl _)]
  have hissue (message : Publish) (env : Env)
      (hmessage : message.qospid.qos = qos ∧ message =
        { dup := false, qospid := message.qospid, retain, topicName := topic, payload })
      (hwritten : env.written = t.client.env.written) :
      Sound
        { client :=
            { t.client with
              env
              waiting := t.client.waiting ++ [(message, ⟨id, t.client.issued.length⟩)]
              issued := t.client.issued ++ [some message.qospid] }
          accepted := t.accepted ++
            [{ uniqueId := ⟨id, t.client.issued.length⟩, topic, payload, qos, retain,
               qospid := message.qospid }]
          answered := t.answered } := by
    obtain ⟨hqos, hmessage⟩ := hmessage
    refine ⟨?_, h.flagged, fun v hv => ?_, fun a ha => ?_, fun a ha => ?_⟩
    · unfold sender
      rw [hwritten, PublishesInner.sender, List.map_append, List.map_append]
      have hfresh (m : Publish) : (⟨id, t.client.issued.length⟩, m) ∉ t.sender.accepted := by
        intro hm
        obtain ⟨a, ha, heq⟩ := List.mem_map.mp hm
        have hid : a.uniqueId = ⟨id, t.client.issued.length⟩ := congrArg Prod.fst heq
        have hlt := h.numbered a ha
        rw [hid] at hlt
        exact Nat.lt_irrefl _ hlt
      refine h.faithful.step (.accept hfresh ?_)
      rw [hmessage, List.append_assoc]
      exact List.perm_middle
    · rcases List.mem_append.mp hv with hv | hv
      · exact h.waiting v hv
      · cases List.mem_singleton.mp hv
        rw [hmessage]
    · rw [List.length_append, List.length_singleton]
      rcases List.mem_append.mp ha with ha | ha
      · exact Nat.lt_succ_of_lt (h.numbered a ha)
      · cases List.mem_singleton.mp ha
        exact Nat.lt_succ_self _
    · rcases List.mem_append.mp ha with ha | ha
      · exact h.qos a ha
      · cases List.mem_singleton.mp ha
        exact hqos
  cases hnext
  simp only [Client.outcome, Client.publish, Client.callPublishes, Client.acknowledges,
    Option.toList_none, List.map_nil, List.append_nil]
  rcases State.newPublish_cases ⟨t.client.publishes, t.client.env⟩ topic payload qos retain with
    hexec | ⟨message, -, -, -, ⟨-, hexec⟩ | ⟨pid, pool, -, -, hexec⟩⟩
  · rw [hexec, hnone _ rfl, List.append_nil]
    exact h
  · have hmessage := State.newPublish_ok hexec
    rw [hexec]
    simp only [Client.accepts, List.getElem?_concat_length]
    exact hissue message _ hmessage rfl
  · have hmessage := State.newPublish_ok hexec
    rw [hexec]
    simp only [Client.accepts, List.getElem?_concat_length]
    exact hissue message _ hmessage rfl

/-- The calls and the queues have changed, and nothing is accepted or acknowledged. -/
theorem Sound.change (h : t.Sound) {publishes : PublishesInner QUEUE BUFFER TOPIC} {env : Env}
    {waiting : List (Publish × UniqueID)} (hflagged : publishes.Flagged)
    (hwaiting : ∀ v ∈ waiting, v ∈ t.client.waiting)
    (hsteps : Relation.ReflTransGen Retransmission.Step t.sender
      (publishes.sender (t.accepted.map (·.message)) t.answered waiting env.written)) :
    Sound { t with client := { t.client with publishes, env, waiting } } where
  faithful := h.faithful.steps hsteps
  flagged := hflagged
  waiting v hv := h.waiting v (hwaiting v hv)
  numbered := h.numbered
  qos := h.qos

theorem perm_eraseIdx {i : Nat} {v : Publish × UniqueID} {waiting : List (Publish × UniqueID)}
    (hi : waiting[i]? = some v) (rest : List (UniqueID × Publish)) :
    (waiting.map (fun v => (v.2, v.1.content)) ++ rest).Perm
      ((v.2, v.1.content) ::
        ((waiting.eraseIdx i).map (fun v => (v.2, v.1.content)) ++ rest)) := by
  obtain ⟨hlt, rfl⟩ := List.getElem?_eq_some_iff.mp hi
  have hperm := (List.getElem_cons_eraseIdx_perm hlt).symm.map
    fun v : Publish × UniqueID => (v.2, v.1.content)
  exact hperm.append_right rest

/-- A call that waits is dropped, or panics. -/
theorem Sound.erase (h : t.Sound) (i : Nat) :
    Sound
      { t with client := { t.client with waiting := t.client.waiting.eraseIdx i } } := by
  refine h.change h.flagged (fun v hv => List.mem_of_mem_eraseIdx hv) ?_
  cases hi : t.client.waiting[i]? with
  | none =>
    rw [List.eraseIdx_of_length_le (List.getElem?_eq_none_iff.mp hi)]
    exact .refl
  | some v => exact .single (.forget (perm_eraseIdx hi _))

theorem Sound.poll (h : t.Sound) {i : Nat} (hnext : t.next topicPathCapacity (.poll i) = some t') :
    t'.Sound := by
  cases hnext
  simp only [Client.outcome, Client.poll, Client.callPublishes, Client.accepts,
    Client.acknowledges, Option.toList_none, List.map_nil, List.append_nil]
  cases hi : t.client.waiting[i]? with
  | none => exact h
  | some v =>
    obtain ⟨message, u⟩ := v
    dsimp only
    rcases Publishes.publish_cases ⟨t.client.publishes, t.client.env⟩ message u with
      hexec | ⟨e, -, hexec⟩ | ⟨entry, queue, hentry, hpush, hexec⟩
    · rw [hexec]
      exact h
    · rw [hexec]
      exact h.erase i
    · rw [hexec]
      obtain ⟨hkept, hdup⟩ := OwnedPublish.kept_of_newFromPublish hentry
      refine h.change ⟨fun e he => ?_, h.flagged.2, h.flagged.3⟩
        (fun v hv => List.mem_of_mem_eraseIdx hv) (.single (.rearrange ?_ (.refl _)))
      · rcases (BoundedVec.mem_iff_of_push hpush).mp he with he | rfl
        · exact h.flagged.sendPublish e he
        · rw [hdup]
          exact h.waiting _ (List.mem_of_getElem? hi)
      · have hqueue := (BoundedVec.perm_push hpush).map OwnedPublish.kept
        rw [List.map_cons, hkept] at hqueue
        refine (perm_eraseIdx hi _).trans (List.perm_middle.symm.trans ?_)
        exact hqueue.symm.append_left _

/-- An entry that waits for a PUBACK or a PUBREC is matched with it. -/
theorem Sound.answer (h : t.Sound) {publishes : PublishesInner QUEUE BUFFER TOPIC} {env : Env}
    {e : OwnedPublish BUFFER TOPIC} (hflagged : publishes.Flagged)
    (hsend : publishes.sendPublish = t.client.publishes.sendPublish)
    (hperm : t.client.publishes.unanswered.Perm (e.kept :: publishes.unanswered))
    (hwritten : env.written = t.client.env.written) :
    Sound
      { t with
        client := { t.client with publishes, env }
        answered := t.answered ++ [(e.uniqueId, t.client.env.written.length)] } := by
  refine ⟨?_, hflagged, h.waiting, h.numbered, h.qos⟩
  have hstep : Retransmission.Step t.sender _ := .answer hperm
  unfold sender PublishesInner.sender at hstep ⊢
  rw [hsend, hwritten]
  rw [List.length_map] at hstep
  exact h.faithful.step hstep

theorem Sound.puback (h : t.Sound) {pid : Pid}
    (hnext : t.next topicPathCapacity (.receive (.puback pid)) = some t') : t'.Sound := by
  cases hnext
  simp only [Client.outcome, Client.processPacket, Client.callPublishes, Client.accepts,
    Client.acknowledges, Publishes.processIncomingPacket, List.append_nil]
  cases hpos : t.client.publishes.awaitPuback.position (·.pid == pid) with
  | none =>
    rw [PublishesInner.processPuback_unknown (c := ⟨t.client.publishes, t.client.env⟩) hpos,
      Option.bind_none, Option.toList_none, List.map_nil, List.append_nil]
    exact h
  | some i =>
    obtain ⟨e, hi, -⟩ := BoundedVec.get?_of_position hpos
    rw [PublishesInner.processPuback_found (c := ⟨t.client.publishes, t.client.env⟩) hpos hi,
      Option.bind_some, hi]
    have hqueue := (BoundedVec.perm_removeAt hi).symm.map (·.publish.kept)
    exact h.answer
      ⟨h.flagged.1, fun e he => h.flagged.2 e (BoundedVec.mem_removeAt he), h.flagged.3⟩ rfl
      (hqueue.append_right _) rfl

/-- The entry is taken out also when there is no room for the PUBREL. -/
theorem Sound.pubrec (h : t.Sound) {pid : Pid}
    (hnext : t.next topicPathCapacity (.receive (.pubrec pid)) = some t') : t'.Sound := by
  cases hnext
  simp only [Client.outcome, Client.processPacket, Client.callPublishes, Client.accepts,
    Client.acknowledges, Publishes.processIncomingPacket, List.append_nil]
  cases hpos : t.client.publishes.awaitPubrec.position (·.pid == pid) with
  | none =>
    obtain ⟨r, inner, hres, hexec⟩ :=
      PublishesInner.processPubrec_unknown (c := ⟨t.client.publishes, t.client.env⟩) hpos
    obtain ⟨sendPubrel, rfl⟩ := PublishesInner.pubrecResult_rest hres
    rw [hexec, Option.bind_none, Option.toList_none, List.map_nil, List.append_nil]
    exact h.change ⟨h.flagged.1, h.flagged.2, h.flagged.3⟩ (fun _ hv => hv) .refl
  | some i =>
    obtain ⟨e, hi, -⟩ := BoundedVec.get?_of_position hpos
    obtain ⟨r, inner, hres, hexec⟩ :=
      PublishesInner.processPubrec_found (c := ⟨t.client.publishes, t.client.env⟩) hpos hi
    obtain ⟨sendPubrel, rfl⟩ := PublishesInner.pubrecResult_rest hres
    rw [hexec, Option.bind_some, hi]
    have hqueue := (BoundedVec.perm_removeAt hi).symm.map (·.publish.kept)
    exact h.answer
      ⟨h.flagged.1, h.flagged.2, fun e he => h.flagged.3 e (BoundedVec.mem_removeAt he)⟩ rfl
      ((hqueue.append_left _).trans List.perm_middle) rfl

theorem Sound.pubcomp (h : t.Sound) {pid : Pid}
    (hnext : t.next topicPathCapacity (.receive (.pubcomp pid)) = some t') : t'.Sound := by
  cases hnext
  simp only [Client.outcome, Client.processPacket, Client.callPublishes, Client.accepts,
    Client.acknowledges, Publishes.processIncomingPacket, List.append_nil, Option.toList_none,
    List.map_nil]
  rcases PublishesInner.processPubcomp_cases ⟨t.client.publishes, t.client.env⟩ pid with
    ⟨i, e, -, -, hexec⟩ | ⟨-, hexec⟩
  · rw [hexec]
    exact h.change ⟨h.flagged.1, h.flagged.2, h.flagged.3⟩ (fun _ hv => hv) .refl
  · rw [hexec]
    exact h

theorem Sound.sendPublishes (h : t.Sound) {answers : List (Except MqttError Bool)}
    {ticks : List Duration}
    (hnext : t.next topicPathCapacity (.sendPublishes answers ticks) = some t') : t'.Sound := by
  cases hnext
  simp only [Client.accepts, Client.acknowledges, List.append_nil, Option.toList_none,
    List.map_nil]
  obtain ⟨hflagged, hsteps⟩ := PublishesInner.sendPackets_sender
    (c := ⟨t.client.publishes, (t.client.scripted answers ticks).env⟩) h.flagged
    (t.accepted.map (·.message)) t.answered t.client.waiting
  exact h.change hflagged (fun _ hv => hv) hsteps

theorem Sound.step (h : t.Sound) (hnext : t.next topicPathCapacity l = some t') : t'.Sound := by
  cases l with
  | publish => exact h.publish hnext
  | poll => exact h.poll hnext
  | drop i =>
    cases hnext
    simp only [Client.accepts, Client.acknowledges, List.append_nil, Option.toList_none,
      List.map_nil]
    exact h.erase i
  | sendPublishes => exact h.sendPublishes hnext
  | receive packet =>
    cases packet with
    | puback => exact h.puback hnext
    | pubrec => exact h.pubrec hnext
    | pubcomp => exact h.pubcomp hnext
    | _ => exact h.rest rfl hnext
  | _ => exact h.rest rfl hnext

end Story

/-- The flag of a PUBLISH that was written for a request. -/
def Written.dup? (u : UniqueID) (w : Written) : Option Bool :=
  if w.request = some u then w.packet.message?.map (·.dup) else none

theorem map_fst_copies (u : UniqueID) (ws : List Written) :
    (copies u (ws.map Written.copy?)).map Prod.fst = ws.filterMap (·.dup? u) := by
  unfold copies
  rw [List.filterMap_map, List.map_filterMap]
  congr 1
  funext w
  obtain ⟨packet, request⟩ := w
  cases request with
  | none => cases hm : packet.message? <;> simp [Written.copy?, Written.dup?, hm]
  | some u' =>
    cases hm : packet.message? with
    | none => simp [Written.copy?, Written.dup?, hm]
    | some message => by_cases hu : u' = u <;> simp [Written.copy?, Written.dup?, hm, hu]

theorem mem_copies {u : UniqueID} {ws : List Written} {w : Written} {message : Publish}
    (hw : w ∈ ws) (hpacket : w.packet = .publish message) (hrequest : w.request = some u) :
    (message.dup, message.content) ∈ copies u (ws.map Written.copy?) := by
  refine List.mem_filterMap.mpr ⟨w.copy?, List.mem_map_of_mem hw, ?_⟩
  simp [Written.copy?, hpacket, hrequest, Packet.message?]

namespace Story

variable {t : Story QUEUE BUFFER TOPIC} {topicPathCapacity : Nat} {ls : List Client.Label}

theorem sound_of_run (hr : run (next · topicPathCapacity) new ls = some t) : t.Sound :=
  invariant (fun _ _ _ h hnext => h.step hnext) new_sound hr

/-- The history is kept beside the client. -/
theorem exists_of_run {s : Client QUEUE BUFFER TOPIC} (t : Story QUEUE BUFFER TOPIC)
    (hr : run (Client.next · topicPathCapacity) t.client ls = some s) :
    ∃ t', run (next · topicPathCapacity) t ls = some t' ∧ t'.client = s := by
  induction ls generalizing t with
  | nil =>
    cases hr
    exact ⟨t, rfl, rfl⟩
  | cons l ls ih =>
    obtain ⟨s₁, h₁, hr⟩ := run_cons_iff.mp hr
    obtain ⟨t₁, hnext, rfl⟩ : ∃ t₁, t.next topicPathCapacity l = some t₁ ∧ t₁.client = s₁ :=
      ⟨_, rfl, Option.some.inj h₁⟩
    obtain ⟨t', hrun, hclient⟩ := ih t₁ hr
    exact ⟨t', run_cons_iff.mpr ⟨t₁, hnext, hrun⟩, hclient⟩

theorem retransmissions_faithful (hr : run (next · topicPathCapacity) new ls = some t)
    {a : Accepted} (ha : a ∈ t.accepted) :
    (∀ w ∈ t.client.env.written, ∀ message, w.packet = .publish message →
      w.request = some a.uniqueId →
      message.topicName = a.topic ∧ message.payload = a.payload ∧ message.retain = a.retain ∧
        message.qospid.qos = a.qos ∧ message.qospid = a.qospid) ∧
    (t.client.env.written.filterMap (·.dup? a.uniqueId) = [] ∨
      ∃ n, t.client.env.written.filterMap (·.dup? a.uniqueId) = false :: List.replicate n true) ∧
    ∀ n, (a.uniqueId, n) ∈ t.answered →
      (t.client.env.written.drop n).filterMap (·.dup? a.uniqueId) = [] := by
  have h := sound_of_run hr
  have haccepted : a.message ∈ t.sender.accepted := List.mem_map_of_mem ha
  refine ⟨fun w hw message hpacket hrequest => ?_, ?_, fun n hn => ?_⟩
  · have hmem := h.faithful.written _ _ (mem_copies hw hpacket hrequest)
    have hcontent : message.content = a.message.2 :=
      h.faithful.accepted _ _ _ hmem haccepted
    have hqospid : message.qospid = a.qospid := congrArg Publish.qospid hcontent
    exact ⟨congrArg Publish.topicName hcontent, congrArg Publish.payload hcontent,
      congrArg Publish.retain hcontent, hqospid ▸ h.qos a ha, hqospid⟩
  · rw [← map_fst_copies]
    exact (h.faithful.marked a.uniqueId).imp_left fun hnil => by
      rw [show copies a.uniqueId (t.client.env.written.map Written.copy?) = [] from hnil]
      rfl
  · rw [← map_fst_copies, List.map_eq_nil_iff, List.map_drop]
    exact (h.faithful.answered _ hn).2.2

/-- A publish of QoS 1 that is written three times before its PUBACK comes. -/
def resentRun : List Client.Label :=
  [ .publish [116] [7] .atLeastOnce true 3, .poll 0, .sendPublishes [.ok true] [],
    .wait (.fromSecs 6), .sendPublishes [.ok true] [], .wait (.fromSecs 6),
    .sendPublishes [.ok true] [], .receive (.puback ⟨1, Nat.one_pos, Pid.one_lt⟩),
    .wait (.fromSecs 6), .sendPublishes [.ok true] [] ]

theorem retransmissions_faithful_on_resentRun : ∃ t : Story 4 8 8, ∃ a ∈ t.accepted,
    run (next · 16) new resentRun = some t ∧ a.topic = [116] ∧ a.payload = [7] ∧
    (a.uniqueId, 3) ∈ t.answered ∧
    t.client.env.written.filterMap (·.dup? a.uniqueId) = [false, true, true] ∧
    (t.client.env.written.drop 3).filterMap (·.dup? a.uniqueId) = [] ∧
    ∀ w ∈ t.client.env.written, ∀ message, w.packet = .publish message →
      w.request = some a.uniqueId → message.topicName = a.topic ∧ message.payload = a.payload ∧
        message.retain = a.retain ∧ message.qospid.qos = a.qos ∧ message.qospid = a.qospid := by
  let a : Accepted :=
    { uniqueId := ⟨3, 0⟩, topic := [116], payload := [7], qos := .atLeastOnce, retain := true,
      qospid := .atLeastOnce ⟨1, by decide, by decide⟩ }
  have hrun : (run (next · 16) (new : Story 4 8 8) resentRun).any (fun t =>
      decide (a ∈ t.accepted ∧ (a.uniqueId, 3) ∈ t.answered ∧
        t.client.env.written.filterMap (·.dup? a.uniqueId) = [false, true, true])) = true := by
    decide +kernel
  obtain ⟨t, hr, ht⟩ := (Option.any_eq_true _ _).mp hrun
  obtain ⟨ha, hanswered, hflags⟩ := of_decide_eq_true ht
  obtain ⟨hcarried, -, hafter⟩ := retransmissions_faithful hr ha
  exact ⟨t, a, ha, hr, rfl, rfl, hanswered, hflags, hafter 3 hanswered, hcarried⟩

end Story

end EmbeddedMqttc
