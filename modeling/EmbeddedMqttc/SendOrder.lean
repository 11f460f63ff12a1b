import EmbeddedMqttc.SendLine

/-!
# In which order publishes are sent on a connection

Nothing of the queues depends on the connection, so that a message from before a reconnect is sent
again only when it is due. On one connection two messages of the same QoS are first sent in the order
in which they were accepted, unless the earlier one was waiting for its acknowledgement when the
connection began and the later one was not, or was written before it.
-/

namespace EmbeddedMqttc

open Prog EmbeddedMqttc.Comp Run SendingLine

variable {QUEUE BUFFER TOPIC : Nat}

/-- The publish for which there is room in a step, with its QoS. -/
def Client.admits (s : Client QUEUE BUFFER TOPIC) : Client.Label → Option (UniqueID × QoS)
  | .poll i =>
    match s.waiting[i]? with
    | none => none
    | some (message, uniqueId) =>
      match (s.callPublishes (Publishes.publish message uniqueId)).1 with
      | .ok _ => some (uniqueId, message.qospid.qos)
      | .error _ => none
  | _ => none

/-- `accepted` are the publishes in the order in which they got into `send_publish`. The present
connection begins after `since` packets, when the queues were `before`. All three are history. -/
structure Dispatch (QUEUE BUFFER TOPIC : Nat) where
  client : Client QUEUE BUFFER TOPIC
  accepted : List (UniqueID × QoS)
  since : Nat
  before : PublishesInner QUEUE BUFFER TOPIC
  deriving DecidableEq

namespace Dispatch

inductive Label where
  | client (l : Client.Label)
  /-- The connection is lost with the packets that it holds, and there is a new one. -/
  | reconnect

def new : Dispatch QUEUE BUFFER TOPIC where
  client := .new
  accepted := []
  since := 0
  before := .new

variable (t : Dispatch QUEUE BUFFER TOPIC)

def reconnect : Dispatch QUEUE BUFFER TOPIC :=
  { t with
    client := { t.client with env := { t.client.env with outgoing := [] } }
    since := t.client.env.written.length
    before := t.client.publishes }

def next (topicPathCapacity : Nat) : Label → Option (Dispatch QUEUE BUFFER TOPIC)
  | .client l =>
    some
      { t with
        client := (t.client.outcome topicPathCapacity l).2
        accepted := t.accepted ++ (t.client.admits l).toList }
  | .reconnect => some t.reconnect

/-- The PUBLISHes of a QoS on the present connection, among the other packets. -/
def sent (qos : QoS) : List (Option UniqueID) :=
  (t.client.env.written.drop t.since).map (·.publishOf qos)

/-! ## The line of a QoS over a run -/

def sender (qos : QoS) : Sender UniqueID where
  toQueue := t.client.publishes.line qos t.client.env.written
  taken := (t.accepted.filter (·.2 = qos)).map Prod.fst
  since := t.since
  old := t.before.awaiting qos

/-- The requests that wait for room and those that have got it. -/
def numbered : List UniqueID := t.client.waiting.map Prod.snd ++ t.accepted.map Prod.fst

structure InOrder (qos : QoS) : Prop where
  line : InLine (t.sender qos)
  divided : t.client.publishes.Divided
  nodup : (t.numbered.map (·.request)).Nodup
  issued : ∀ u ∈ t.numbered, u.request < t.client.issued.length

variable {t} {t' : Dispatch QUEUE BUFFER TOPIC} {topicPathCapacity : Nat} {l : Client.Label}
  {qos : QoS}

theorem new_inOrder : (new : Dispatch QUEUE BUFFER TOPIC).InOrder qos where
  line := by
    have hsender : (new : Dispatch QUEUE BUFFER TOPIC).sender qos = ⟨⟨[], [], []⟩, [], 0, []⟩ := by
      cases qos <;> rfl
    rw [hsender]
    exact .start
  divided := ⟨nofun, nofun⟩
  nodup := .nil
  issued := nofun

/-- The client has moved, and nothing has got room. -/
theorem InOrder.change (h : t.InOrder qos) {client : Client QUEUE BUFFER TOPIC}
    (hsteps : Relation.ReflTransGen (SendingLine.Step RESEND_DURATION) (t.sender qos)
      (sender { t with client } qos))
    (hdivided : client.publishes.Divided) (hwaiting : client.waiting.Sublist t.client.waiting)
    (hissued : t.client.issued.length ≤ client.issued.length) : InOrder { t with client } qos := by
  have hsublist : (numbered { t with client }).Sublist t.numbered :=
    (hwaiting.map Prod.snd).append_right _
  exact
    { line := h.line.steps hsteps
      divided := hdivided
      nodup := h.nodup.sublist (hsublist.map _)
      issued := fun u hu => Nat.lt_of_lt_of_le (h.issued u (hsublist.subset hu)) hissued }

/-- The line and the requests that wait for room are as before. -/
theorem InOrder.same (h : t.InOrder qos) {client : Client QUEUE BUFFER TOPIC}
    (hline : client.publishes.line qos client.env.written =
      t.client.publishes.line qos t.client.env.written)
    (hdivided : client.publishes.Divided) (hwaiting : client.waiting.Sublist t.client.waiting)
    (hissued : t.client.issued.length ≤ client.issued.length) :
    InOrder { t with client } qos := by
  have hsender : sender { t with client } qos = t.sender qos := by
    unfold sender
    rw [hline]
  exact h.change (hsender ▸ .refl) hdivided hwaiting hissued

theorem InOrder.rest (h : t.InOrder qos) (hl : l.ofPublish = false) :
    InOrder { t with client := (t.client.outcome topicPathCapacity l).2 } qos := by
  have hsend (answers : List (Except MqttError Bool)) (ticks : List Duration) :
      l ≠ .sendPublishes answers ticks := by
    rintro rfl
    cases hl
  obtain ⟨ws, hws, hwritten⟩ :=
    @Client.outcome_noPublish _ _ _ t.client topicPathCapacity l hsend
  obtain ⟨hpublishes, hwaiting, ⟨more, hissued⟩, -⟩ :=
    @Client.outcome_rest _ _ _ t.client topicPathCapacity l hl
  refine h.change ?_ (hpublishes ▸ h.divided) (hwaiting ▸ .refl _) ?_
  · unfold sender
    rw [hpublishes, hwritten]
    refine SendingLine.Step.sends ?_
    unfold PublishesInner.line
    rw [List.map_append]
    refine Queue.Step.others fun o ho => ?_
    obtain ⟨w, hw, rfl⟩ := List.mem_map.mp ho
    rw [Written.publishOf, hws w hw]
  · rw [hissued, List.length_append]
    exact Nat.le_add_right ..

/-- A call gets the next number and waits for room. -/
theorem InOrder.publish (h : t.InOrder qos) (topic payload : List UInt8) (qos' : QoS)
    (retain : Bool) (id : Nat) :
    InOrder { t with client := (t.client.publish topic payload qos' retain id).2 } qos := by
  have hissue (message : Publish) (env : Env) (hwritten : env.written = t.client.env.written) :
      InOrder
        { t with
          client :=
            { t.client with
              env
              waiting := t.client.waiting ++ [(message, ⟨id, t.client.issued.length⟩)]
              issued := t.client.issued ++ [some message.qospid] } } qos := by
    have hperm : (numbered
        { t with
          client :=
            { t.client with
              env
              waiting := t.client.waiting ++ [(message, ⟨id, t.client.issued.length⟩)]
              issued := t.client.issued ++ [some message.qospid] } }).Perm
        (⟨id, t.client.issued.length⟩ :: t.numbered) := by
      simp only [numbered, List.map_append, List.map_singleton, List.append_assoc]
      exact List.perm_middle
    refine ⟨?_, h.divided, ?_, fun u hu => ?_⟩
    · unfold sender
      rw [hwritten]
      exact h.line
    · refine (hperm.map _).nodup_iff.mpr (List.nodup_cons.mpr ⟨fun hmem => ?_, h.nodup⟩)
      obtain ⟨u, hu, heq⟩ := List.mem_map.mp hmem
      have hlt := h.issued u hu
      rw [heq] at hlt
      exact Nat.lt_irrefl _ hlt
    · rw [List.length_append, List.length_singleton]
      rcases List.mem_cons.mp (hperm.subset hu) with rfl | hu
      · exact Nat.lt_succ_self _
      · exact Nat.lt_succ_of_lt (h.issued u hu)
  simp only [Client.publish, Client.callPublishes]
  rcases State.newPublish_cases ⟨t.client.publishes, t.client.env⟩ topic payload qos' retain with
    hexec | ⟨message, -, -, -, ⟨-, hexec⟩ | ⟨pid, pool, -, -, hexec⟩⟩ <;> rw [hexec]
  · exact h
  · exact hissue message _ rfl
  · exact hissue message _ rfl

theorem InOrder.erase (h : t.InOrder qos) (i : Nat) :
    InOrder { t with client := { t.client with waiting := t.client.waiting.eraseIdx i } } qos :=
  h.same rfl h.divided (List.eraseIdx_sublist ..) (Nat.le_refl _)

/-- A call gets room: its message goes to the end of the line. -/
theorem InOrder.admit (h : t.InOrder qos) {i : Nat} {message : Publish} {u : UniqueID}
    {entry : OwnedPublish BUFFER TOPIC} {queue : BoundedVec (OwnedPublish BUFFER TOPIC) QUEUE}
    (hi : t.client.waiting[i]? = some (message, u))
    (hentry : OwnedPublish.newFromPublish message u = .ok entry)
    (hpush : t.client.publishes.sendPublish.push entry = some queue) :
    InOrder
      { t with
        client :=
          { t.client with
            publishes := { t.client.publishes with sendPublish := queue }
            waiting := t.client.waiting.eraseIdx i }
        accepted := t.accepted ++ [(u, message.qospid.qos)] } qos := by
  obtain ⟨hid, -, hqospid⟩ := OwnedPublish.newFromPublish_ok hentry
  have hperm : (numbered
      { t with
        client :=
          { t.client with
            publishes := { t.client.publishes with sendPublish := queue }
            waiting := t.client.waiting.eraseIdx i }
        accepted := t.accepted ++ [(u, message.qospid.qos)] }).Perm t.numbered := by
    obtain ⟨hlt, hget⟩ := List.getElem?_eq_some_iff.mp hi
    have hcons := (List.getElem_cons_eraseIdx_perm hlt).map Prod.snd
    rw [hget] at hcons
    have hrest := hcons.append_right (t.accepted.map Prod.fst)
    simp only [numbered, List.map_append, List.map_singleton, ← List.append_assoc]
    exact List.perm_append_comm.trans hrest
  have hnumber (v : UniqueID × QoS) (hv : v ∈ t.accepted) : v.1 ≠ u := by
    rintro rfl
    have hnodup := (hperm.symm.map (·.request)).nodup_iff.mp h.nodup
    simp only [numbered, List.map_append, List.map_singleton] at hnodup
    exact List.disjoint_of_nodup_append hnodup.of_append_right
      (List.mem_map_of_mem (List.mem_map_of_mem hv)) (List.mem_singleton_self _)
  refine ⟨?_, ⟨h.divided.awaitPuback, h.divided.awaitPubrec⟩,
    (hperm.map _).nodup_iff.mpr h.nodup, fun v hv => h.issued v (hperm.subset hv)⟩
  have hawaiting : ({ t.client.publishes with sendPublish := queue } : PublishesInner ..).awaiting qos =
      t.client.publishes.awaiting qos := by cases qos <;> rfl
  have htaken : ((t.accepted ++ [(u, message.qospid.qos)]).filter (·.2 = qos)).map Prod.fst =
      (t.accepted.filter (·.2 = qos)).map Prod.fst ++
        if message.qospid.qos = qos then [u] else [] := by
    rw [List.filter_append, List.map_append]
    by_cases hq : message.qospid.qos = qos <;> simp [hq]
  unfold sender PublishesInner.line
  rw [hawaiting, htaken, PublishesInner.unsent_push hpush, hid, hqospid]
  by_cases hq : message.qospid.qos = qos
  · rw [if_pos hq]
    refine h.line.take fun hmem => ?_
    obtain ⟨v, hv, heq⟩ := List.mem_map.mp hmem
    exact hnumber v (List.mem_of_mem_filter hv) heq
  · rw [if_neg hq, List.append_nil, List.append_nil]
    exact h.line

theorem InOrder.poll (h : t.InOrder qos) (i : Nat) :
    InOrder
      { t with
        client := (t.client.poll i).2
        accepted := t.accepted ++ (t.client.admits (.poll i)).toList } qos := by
  simp only [Client.poll, Client.admits, Client.callPublishes]
  cases hi : t.client.waiting[i]? with
  | none =>
    rw [Option.toList_none, List.append_nil]
    exact h
  | some v =>
    obtain ⟨message, u⟩ := v
    dsimp only
    rcases Publishes.publish_cases ⟨t.client.publishes, t.client.env⟩ message u with
      hexec | ⟨e, -, hexec⟩ | ⟨entry, queue, hentry, hpush, hexec⟩ <;> rw [hexec]
    · rw [Option.toList_none, List.append_nil]
      exact h
    · rw [Option.toList_none, List.append_nil]
      exact h.erase i
    · exact h.admit hi hentry hpush

theorem InOrder.sendPublishes (h : t.InOrder qos) (hqos : qos ≠ .atMostOnce)
    (answers : List (Except MqttError Bool)) (ticks : List Duration) :
    InOrder
      { t with
        client := ((t.client.scripted answers ticks).callPublishes Publishes.sendPackets).2 } qos := by
  let c : Ctx (PublishesInner QUEUE BUFFER TOPIC) :=
    ⟨t.client.publishes, (t.client.scripted answers ticks).env⟩
  have hpass : PublishesInner.Advanced qos c (PublishesInner.sendPackets.exec c).2 :=
    (PublishesInner.sendPackets_advanced hqos).exits (.refl h.divided)
  exact h.change (SendingLine.Step.sends hpass.steps) hpass.divided (.refl _) (Nat.le_refl _)

/-- An entry leaves the line in which it waits for its acknowledgement. -/
theorem InOrder.answer (h : t.InOrder qos) {publishes : PublishesInner QUEUE BUFFER TOPIC}
    {env : Env} {e : UniqueID × Nat} {before after : List (UniqueID × Nat)}
    (hqueue : t.client.publishes.awaiting qos = before ++ e :: after)
    (hrest : publishes.awaiting qos = before ++ after)
    (hsend : publishes.sendPublish = t.client.publishes.sendPublish)
    (hwritten : env.written = t.client.env.written) (hdivided : publishes.Divided) :
    InOrder { t with client := { t.client with publishes, env } } qos := by
  refine h.change ?_ hdivided (.refl _) (Nat.le_refl _)
  have hunsent : publishes.unsent qos = t.client.publishes.unsent qos := by
    rw [PublishesInner.unsent, hsend, PublishesInner.unsent]
  unfold sender PublishesInner.line
  rw [hwritten, hunsent, hrest, hqueue]
  exact .single (.answer rfl)

/-- The line of another QoS. -/
theorem InOrder.elsewhere (h : t.InOrder qos) {publishes : PublishesInner QUEUE BUFFER TOPIC}
    {env : Env} (hawaiting : publishes.awaiting qos = t.client.publishes.awaiting qos)
    (hsend : publishes.sendPublish = t.client.publishes.sendPublish)
    (hwritten : env.written = t.client.env.written) (hdivided : publishes.Divided) :
    InOrder { t with client := { t.client with publishes, env } } qos := by
  refine h.same ?_ hdivided (.refl _) (Nat.le_refl _)
  unfold PublishesInner.line PublishesInner.unsent
  rw [hawaiting, hsend, hwritten]

theorem InOrder.puback (h : t.InOrder qos) (pid : Pid) :
    InOrder
      { t with
        client := (t.client.callPublishes (Publishes.processIncomingPacket (.puback pid))).2 } qos := by
  simp only [Client.callPublishes, Publishes.processIncomingPacket]
  rcases PublishesInner.processPuback_cases ⟨t.client.publishes, t.client.env⟩ pid with
    ⟨i, e, hi, -, hexec⟩ | ⟨-, hexec⟩ <;> rw [hexec]
  · have hdivided : ({ t.client.publishes with
        awaitPuback := t.client.publishes.awaitPuback.removeAt i } : PublishesInner ..).Divided :=
      ⟨fun e he => h.divided.awaitPuback e (BoundedVec.mem_removeAt he), h.divided.awaitPubrec⟩
    cases qos with
    | atMostOnce | exactlyOnce => exact h.elsewhere rfl rfl rfl hdivided
    | atLeastOnce =>
      let key (e : AwaitPuback BUFFER TOPIC) : UniqueID × Nat := (e.publish.uniqueId, e.publishSent)
      exact h.answer (BoundedVec.map_toList hi key) (BoundedVec.map_removeAt _ i key) rfl rfl hdivided
  · exact h

/-- The entry is taken out also when there is no room for the PUBREL. -/
theorem InOrder.pubrec (h : t.InOrder qos) (pid : Pid) :
    InOrder
      { t with
        client := (t.client.callPublishes (Publishes.processIncomingPacket (.pubrec pid))).2 } qos := by
  simp only [Client.callPublishes, Publishes.processIncomingPacket]
  rcases PublishesInner.processPubrec_cases ⟨t.client.publishes, t.client.env⟩ pid with
    ⟨i, e, r, inner, hi, -, hres, hexec⟩ | ⟨-, r, inner, hres, hexec⟩ <;> rw [hexec] <;>
    obtain ⟨sendPubrel, rfl⟩ := PublishesInner.pubrecResult_rest hres
  · have hdivided : ({ t.client.publishes with
        awaitPubrec := t.client.publishes.awaitPubrec.removeAt i
        sendPubrel } : PublishesInner ..).Divided :=
      ⟨h.divided.awaitPuback, fun e he => h.divided.awaitPubrec e (BoundedVec.mem_removeAt he)⟩
    cases qos with
    | atMostOnce | atLeastOnce => exact h.elsewhere rfl rfl rfl hdivided
    | exactlyOnce =>
      let key (e : AwaitPubrec BUFFER TOPIC) : UniqueID × Nat := (e.publish.uniqueId, e.publishSent)
      exact h.answer (BoundedVec.map_toList hi key) (BoundedVec.map_removeAt _ i key) rfl rfl hdivided
  · have hdivided : ({ t.client.publishes with sendPubrel } : PublishesInner ..).Divided :=
      ⟨h.divided.awaitPuback, h.divided.awaitPubrec⟩
    exact h.elsewhere (by cases qos <;> rfl) rfl rfl hdivided

theorem InOrder.pubcomp (h : t.InOrder qos) (pid : Pid) :
    InOrder
      { t with
        client := (t.client.callPublishes (Publishes.processIncomingPacket (.pubcomp pid))).2 } qos := by
  simp only [Client.callPublishes, Publishes.processIncomingPacket]
  rcases PublishesInner.processPubcomp_cases ⟨t.client.publishes, t.client.env⟩ pid with
    ⟨i, e, -, -, hexec⟩ | ⟨-, hexec⟩ <;> rw [hexec]
  · exact h.elsewhere (by cases qos <;> rfl) rfl rfl ⟨h.divided.awaitPuback, h.divided.awaitPubrec⟩
  · exact h

theorem InOrder.reconnect (h : t.InOrder qos) : t.reconnect.InOrder qos := by
  have hline := h.line.connect
  have hlength : (t.sender qos).written.length = t.client.env.written.length := List.length_map ..
  rw [hlength] at hline
  exact ⟨hline, h.divided, h.nodup, h.issued⟩

theorem InOrder.client (h : t.InOrder qos) (hqos : qos ≠ .atMostOnce) (l : Client.Label) :
    InOrder
      { t with
        client := (t.client.outcome topicPathCapacity l).2
        accepted := t.accepted ++ (t.client.admits l).toList } qos := by
  have hnone (hl : t.client.admits l = none)
      (hchange : InOrder { t with client := (t.client.outcome topicPathCapacity l).2 } qos) :
      InOrder
        { t with
          client := (t.client.outcome topicPathCapacity l).2
          accepted := t.accepted ++ (t.client.admits l).toList } qos := by
    rw [hl, Option.toList_none, List.append_nil]
    exact hchange
  cases l with
  | publish topic payload qos' retain id => exact hnone rfl (h.publish topic payload qos' retain id)
  | poll i => exact h.poll i
  | drop i => exact hnone rfl (h.erase i)
  | sendPublishes answers ticks => exact hnone rfl (h.sendPublishes hqos answers ticks)
  | receive packet =>
    cases packet with
    | puback pid => exact hnone rfl (h.puback pid)
    | pubrec pid => exact hnone rfl (h.pubrec pid)
    | pubcomp pid => exact hnone rfl (h.pubcomp pid)
    | _ => exact hnone rfl (h.rest rfl)
  | _ => exact hnone rfl (h.rest rfl)

theorem InOrder.next (h : t.InOrder qos) (hqos : qos ≠ .atMostOnce) {l : Label}
    (hnext : t.next topicPathCapacity l = some t') : t'.InOrder qos := by
  cases l with
  | client l =>
    cases hnext
    exact h.client hqos l
  | reconnect =>
    cases hnext
    exact h.reconnect

theorem inOrder_of_run (hqos : qos ≠ .atMostOnce) {ls : List Label}
    (hr : run (Dispatch.next · topicPathCapacity) new ls = some t) : t.InOrder qos :=
  invariant (I := (InOrder · qos)) (fun _ _ _ h hnext => h.next hqos hnext) new_inOrder hr

/-- On every connection, with whatever packets, answers, losses and readings of the clock. -/
theorem sent_in_order {ls : List Label} (hr : run (Dispatch.next · topicPathCapacity) new ls = some t)
    (hqos : qos ≠ .atMostOnce) {m₁ m₂ : UniqueID}
    (haccepted : [(m₁, qos), (m₂, qos)].Sublist t.accepted)
    (hfair : Fair (t.before.awaiting qos) m₁ m₂) (h₁ : some m₁ ∈ t.sent qos)
    (h₂ : some m₂ ∈ t.sent qos) : Precedes m₁ m₂ (t.sent qos) := by
  have h := inOrder_of_run hqos hr
  have htaken : [m₁, m₂].Sublist (t.sender qos).taken := by
    have hfilter := (haccepted.filter (·.2 = qos)).map Prod.fst
    rwa [List.filter_eq_self.mpr (by simp)] at hfilter
  have hsent : (t.sender qos).sent = t.sent qos := List.map_drop.symm
  rw [← hsent] at h₁ h₂ ⊢
  exact h.line.precedes htaken hfair h₁ h₂

/-- Two messages are accepted and written on a first connection and, eight seconds later, on a second
one. -/
def bothRun : List Label :=
  let publish : List Label :=
    [.client (.publish [116] [7] .atLeastOnce false 1), .client (.poll 0),
      .client (.sendPublishes [.ok true] [])]
  publish ++ [.client (.wait (.fromSecs 1))] ++ publish ++
    [ .reconnect, .client (.wait (.fromSecs 8)),
      .client (.sendPublishes [.ok true, .ok true] []) ]

theorem sent_in_order_on_bothRun : ∃ t : Dispatch 4 8 8,
    run (Dispatch.next · 16) new bothRun = some t ∧
    t.sent .atLeastOnce = [some ⟨1, 0⟩, some ⟨1, 1⟩] ∧
    Precedes ⟨1, 0⟩ ⟨1, 1⟩ (t.sent .atLeastOnce) := by
  have hrun : (run (Dispatch.next · 16) (new : Dispatch 4 8 8) bothRun).any (fun t =>
      decide (t.accepted = [(⟨1, 0⟩, .atLeastOnce), (⟨1, 1⟩, .atLeastOnce)] ∧
        t.before.awaiting .atLeastOnce = [(⟨1, 0⟩, 0), (⟨1, 1⟩, Duration.fromSecs 1)] ∧
        t.sent .atLeastOnce = [some ⟨1, 0⟩, some ⟨1, 1⟩])) = true := by decide +kernel
  obtain ⟨t, hr, ht⟩ := (Option.any_eq_true _ _).mp hrun
  obtain ⟨haccepted, hbefore, hsent⟩ := of_decide_eq_true ht
  have hfair : Fair (t.before.awaiting .atLeastOnce) (⟨1, 0⟩ : UniqueID) ⟨1, 1⟩ := by
    rw [hbefore]
    intro u hu
    refine ⟨Duration.fromSecs 1, by simp, ?_⟩
    have hu : u = 0 := by simpa using hu
    rw [hu]
    exact Nat.zero_le _
  have hsublist : [((⟨1, 0⟩ : UniqueID), QoS.atLeastOnce), (⟨1, 1⟩, .atLeastOnce)].Sublist t.accepted := by
    rw [haccepted]
  exact ⟨t, hr, hsent, sent_in_order hr (by decide) hsublist hfair (by simp [hsent])
    (by simp [hsent])⟩

/-- Two messages whose first PUBLISHes on the connection have another order. -/
def Overtaken (t : Dispatch QUEUE BUFFER TOPIC) (qos : QoS) (m₁ m₂ : UniqueID) : Prop :=
  [(m₁, qos), (m₂, qos)].Sublist t.accepted ∧ some m₁ ∈ t.sent qos ∧ some m₂ ∈ t.sent qos ∧
    ¬Precedes m₁ m₂ (t.sent qos)

instance (t : Dispatch QUEUE BUFFER TOPIC) (qos : QoS) (m₁ m₂ : UniqueID) :
    Decidable (t.Overtaken qos m₁ m₂) := inferInstanceAs (Decidable (_ ∧ _ ∧ _ ∧ _))

/-- A message waits for its acknowledgement when the connection is lost, and a new one is accepted
after it. -/
def newerRun : List Label :=
  [ .client (.publish [116] [7] .atLeastOnce false 1), .client (.poll 0),
    .client (.sendPublishes [.ok true] []), .reconnect,
    .client (.publish [116] [8] .atLeastOnce false 2), .client (.poll 0),
    .client (.wait (.fromSecs 6)), .client (.sendPublishes [.ok true, .ok true] []) ]

/-- Two messages wait when the connection is lost, and the earlier one has just been written again. -/
def repeatedRun : List Label :=
  let pass : List Label := [.client (.wait (.fromSecs 3)), .client (.sendPublishes [.ok true] [])]
  [ .client (.publish [116] [7] .exactlyOnce false 1), .client (.poll 0),
    .client (.sendPublishes [.ok true] []), .client (.publish [116] [8] .exactlyOnce false 2),
    .client (.poll 0) ] ++ pass ++ pass ++ [.reconnect] ++ pass ++ pass

theorem overtaken_after_reconnect :
    (∃ t : Dispatch 4 8 8, run (Dispatch.next · 16) new newerRun = some t ∧
      t.Overtaken .atLeastOnce ⟨1, 0⟩ ⟨2, 1⟩) ∧
    ∃ t : Dispatch 4 8 8, run (Dispatch.next · 16) new repeatedRun = some t ∧
      t.Overtaken .exactlyOnce ⟨1, 0⟩ ⟨2, 1⟩ := by
  have hnewer : (run (Dispatch.next · 16) (new : Dispatch 4 8 8) newerRun).any (fun t =>
      decide (t.Overtaken .atLeastOnce ⟨1, 0⟩ ⟨2, 1⟩)) = true := by decide +kernel
  have hrepeated : (run (Dispatch.next · 16) (new : Dispatch 4 8 8) repeatedRun).any (fun t =>
      decide (t.Overtaken .exactlyOnce ⟨1, 0⟩ ⟨2, 1⟩)) = true := by decide +kernel
  obtain ⟨t, hr, ht⟩ := (Option.any_eq_true _ _).mp hnewer
  obtain ⟨t', hr', ht'⟩ := (Option.any_eq_true _ _).mp hrepeated
  exact ⟨⟨t, hr, of_decide_eq_true ht⟩, t', hr', of_decide_eq_true ht'⟩

end Dispatch

end EmbeddedMqttc
