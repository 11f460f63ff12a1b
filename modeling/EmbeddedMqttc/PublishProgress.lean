import EmbeddedMqttc.SendPass
import EmbeddedMqttc.PublishAccounting
import EmbeddedMqttc.Library.Progress

/-!
# Every accepted publish is delivered in the end

A link that loses packets, but not all copies of a packet that is written again and again, and a peer
that answers what reaches it. When send passes again and again leave nothing to be sent, the
retransmissions carry every publish through its acknowledgements: a message in `send_publish` is
written when there is room for it, and room comes back because what waits is answered.

A PUBREC is only awaited for a publish in `await_pubrec` and with room in `send_pubrel`: one that
comes a second time makes the next pass panic.
-/

namespace EmbeddedMqttc

open Prog EmbeddedMqttc.Comp Run Filter

variable {QUEUE BUFFER TOPIC : Nat}

/-- The pid and the request of a publish that goes to the queue for `ack`. -/
def OwnedPublish.ticket (ack : Ack) (e : OwnedPublish BUFFER TOPIC) : Option (Pid × UniqueID) :=
  match ack, e.qospid with
  | .puback, .atLeastOnce pid => some (pid, e.uniqueId)
  | .pubrec, .exactlyOnce pid => some (pid, e.uniqueId)
  | _, _ => none

theorem OwnedPublish.ticket_atMostOnce {e : OwnedPublish BUFFER TOPIC} (hq : e.qospid = .atMostOnce)
    (ack : Ack) : e.ticket ack = none := by
  cases ack <;> simp [ticket, hq]

theorem OwnedPublish.ticket_atLeastOnce {e : OwnedPublish BUFFER TOPIC} {pid : Pid}
    (hq : e.qospid = .atLeastOnce pid) :
    e.ticket .puback = some (pid, e.uniqueId) ∧ ∀ ack, ack ≠ .puback → e.ticket ack = none := by
  refine ⟨by simp [ticket, hq], fun ack hack => ?_⟩
  cases ack <;> simp_all [ticket]

theorem OwnedPublish.ticket_exactlyOnce {e : OwnedPublish BUFFER TOPIC} {pid : Pid}
    (hq : e.qospid = .exactlyOnce pid) :
    e.ticket .pubrec = some (pid, e.uniqueId) ∧ ∀ ack, ack ≠ .pubrec → e.ticket ack = none := by
  refine ⟨by simp [ticket, hq], fun ack hack => ?_⟩
  cases ack <;> simp_all [ticket]

/-- The request of a publish of QoS 0, which asks for no acknowledgement. -/
def OwnedPublish.unconfirmed (e : OwnedPublish BUFFER TOPIC) : Option UniqueID :=
  if e.qospid = .atMostOnce then some e.uniqueId else none

def SendPubrel.ticket (e : SendPubrel) : Option (Pid × UniqueID) := e.uniqueId.map (e.pid, ·)

/-- The publishes that have been reported as done. -/
def Env.reported (e : Env) : List UniqueID :=
  e.events.filterMap fun event => match event with
    | .publishDone u => some u
    | _ => none

namespace PublishesInner

/-! ## The queues for an acknowledgement -/

/-- What waits for an acknowledgement, and when it was written the last time. -/
def waits (q : PublishesInner QUEUE BUFFER TOPIC) : Ack → List ((Pid × UniqueID) × Instant)
  | .puback => q.awaitPuback.toList.map fun e => ((e.pid, e.publish.uniqueId), e.publishSent)
  | .pubrec => q.awaitPubrec.toList.map fun e => ((e.pid, e.publish.uniqueId), e.publishSent)
  | .pubcomp => q.awaitPubcomp.toList.map fun e => ((e.pid, e.uniqueId), e.pubrelSent)
  | .suback | .unsuback => []

def outstanding (q : PublishesInner QUEUE BUFFER TOPIC) (ack : Ack) : List (Pid × UniqueID) :=
  (q.waits ack).map (·.1)

/-- What has still to be written before it waits for an acknowledgement. -/
def departing (q : PublishesInner QUEUE BUFFER TOPIC) : Ack → List (Pid × UniqueID)
  | .pubcomp => q.sendPubrel.toList.filterMap SendPubrel.ticket
  | ack => q.sendPublish.toList.filterMap (OwnedPublish.ticket ack)

/-- The requests of QoS 0 that have still to be written. -/
def unconfirmed (q : PublishesInner QUEUE BUFFER TOPIC) : List UniqueID :=
  q.sendPublish.toList.filterMap OwnedPublish.unconfirmed

variable {q : PublishesInner QUEUE BUFFER TOPIC} {c c' c'' : Ctx (PublishesInner QUEUE BUFFER TOPIC)}
  {ack : Ack}

theorem length_outstanding_le (q : PublishesInner QUEUE BUFFER TOPIC) (ack : Ack) :
    (q.outstanding ack).length ≤ QUEUE := by
  unfold outstanding waits
  cases ack with
  | puback => simpa using q.awaitPuback.length_le
  | pubrec => simpa using q.awaitPubrec.length_le
  | pubcomp => simpa using q.awaitPubcomp.length_le
  | suback | unsuback => exact Nat.zero_le _

theorem mem_waits_of_mem_outstanding {a : Pid × UniqueID} (h : a ∈ q.outstanding ack) :
    ∃ t, (a, t) ∈ q.waits ack := by
  obtain ⟨w, hw, rfl⟩ := List.mem_map.mp h
  exact ⟨w.2, hw⟩

/-- What left one list has come to the end of the other. -/
def Handed {τ : Type} (before after : Ctx (PublishesInner QUEUE BUFFER TOPIC) → List τ)
    (c c' : Ctx (PublishesInner QUEUE BUFFER TOPIC)) : Prop :=
  ∃ new, after c' = after c ++ new ∧ (new ++ before c').Perm (before c)

section

variable {τ : Type} {before after : Ctx (PublishesInner QUEUE BUFFER TOPIC) → List τ}

theorem Handed.of_eq (hbefore : (before c').Perm (before c)) (hafter : after c' = after c) :
    Handed before after c c' := ⟨[], by simp [hafter], by simpa using hbefore⟩

theorem Handed.trans (h : Handed before after c c') (h' : Handed before after c' c'') :
    Handed before after c c'' := by
  obtain ⟨new, hafter, hbefore⟩ := h
  obtain ⟨new', hafter', hbefore'⟩ := h'
  refine ⟨new ++ new', by rw [hafter', hafter, List.append_assoc], ?_⟩
  rw [List.append_assoc]
  exact (hbefore'.append_left new).trans hbefore

end

theorem perm_filterMap_of_none {α τ : Type} {v : BoundedVec α QUEUE} {i : Nat} {a : α}
    {f : α → Option τ} (hi : v.get? i = some a) (ha : f a = none) :
    ((v.removeAt i).toList.filterMap f).Perm (v.toList.filterMap f) := by
  have hperm := BoundedVec.perm_filterMap_removeAt hi f
  rw [ha] at hperm
  exact hperm.symm

theorem perm_filterMap_of_some {α τ : Type} {v : BoundedVec α QUEUE} {i : Nat} {a : α} {t : τ}
    {f : α → Option τ} (hi : v.get? i = some a) (ha : f a = some t) :
    ([t] ++ (v.removeAt i).toList.filterMap f).Perm (v.toList.filterMap f) := by
  have hperm := BoundedVec.perm_filterMap_removeAt hi f
  rw [ha] at hperm
  exact hperm.symm

/-- A move takes what it writes to the queue for the acknowledgement. -/
theorem handed_move {panics : Prop} (hmove : MoveOr panics c c') (ack : Ack) :
    Handed (·.inner.departing ack) (·.inner.outstanding ack) c c' := by
  cases hmove with
  | asked | read => exact .of_eq .rfl rfl
  | atMostOnce hi hq =>
    have hnone := OwnedPublish.ticket_atMostOnce hq ack
    cases ack with
    | pubcomp => exact .of_eq .rfl rfl
    | _ => exact .of_eq (perm_filterMap_of_none hi hnone) rfl
  | atLeastOnce hi hq hpush =>
    obtain ⟨hsome, hnone⟩ := OwnedPublish.ticket_atLeastOnce hq
    cases ack with
    | puback =>
      refine ⟨_, ?_, perm_filterMap_of_some hi hsome⟩
      simp [outstanding, waits, (BoundedVec.push_eq_some_iff.mp hpush).2]
    | pubcomp => exact .of_eq .rfl rfl
    | _ => exact .of_eq (perm_filterMap_of_none hi (hnone _ nofun)) rfl
  | exactlyOnce hi hq hpush =>
    obtain ⟨hsome, hnone⟩ := OwnedPublish.ticket_exactlyOnce hq
    cases ack with
    | pubrec =>
      refine ⟨_, ?_, perm_filterMap_of_some hi hsome⟩
      simp [outstanding, waits, (BoundedVec.push_eq_some_iff.mp hpush).2]
    | pubcomp => exact .of_eq .rfl rfl
    | _ => exact .of_eq (perm_filterMap_of_none hi (hnone _ nofun)) rfl
  | pubrel hi hu hpush =>
    cases ack with
    | pubcomp =>
      refine ⟨_, ?_, perm_filterMap_of_some hi (congrArg (Option.map _) hu)⟩
      simp [outstanding, waits, (BoundedVec.push_eq_some_iff.mp hpush).2]
    | _ => exact .of_eq .rfl rfl
  | anonymous _ hi hu =>
    cases ack with
    | pubcomp => exact .of_eq (perm_filterMap_of_none hi (congrArg (Option.map _) hu)) rfl
    | _ => exact .of_eq .rfl rfl
  | pubackResend | pubrecResend | pubcompResend =>
    cases ack <;> exact .of_eq .rfl (by simp [outstanding, waits, BoundedVec.map_modifyAt])

/-- A publish of QoS 0 is reported when it is written. -/
theorem reported_move {panics : Prop} (hmove : MoveOr panics c c') :
    Handed (·.inner.unconfirmed) (·.env.reported) c c' := by
  cases hmove with
  | atMostOnce hi hq => exact ⟨_, by simp [Env.reported], perm_filterMap_of_some hi (if_pos hq)⟩
  | atLeastOnce hi hq hpush =>
    exact .of_eq (perm_filterMap_of_none hi (by simp [OwnedPublish.unconfirmed, hq])) rfl
  | exactlyOnce hi hq hpush =>
    exact .of_eq (perm_filterMap_of_none hi (by simp [OwnedPublish.unconfirmed, hq])) rfl
  | _ => exact .of_eq .rfl rfl

/-- An entry that waits carries what is to be written again. -/
structure Orderly (q : PublishesInner QUEUE BUFFER TOPIC) : Prop where
  awaitPuback : ∀ e ∈ q.awaitPuback, e.publish.qospid = .atLeastOnce e.pid
  awaitPubrec : ∀ e ∈ q.awaitPubrec, e.publish.qospid = .exactlyOnce e.pid

theorem Orderly.move {panics : Prop} (h : c.inner.Orderly) (hmove : MoveOr panics c c') :
    c'.inner.Orderly := by
  cases hmove with
  | asked | read | atMostOnce | pubrel | anonymous | pubcompResend =>
    exact ⟨h.awaitPuback, h.awaitPubrec⟩
  | atLeastOnce hi hq hpush =>
    refine ⟨fun e he => ?_, h.awaitPubrec⟩
    rcases (BoundedVec.mem_iff_of_push hpush).mp he with he | rfl
    · exact h.awaitPuback e he
    · exact hq
  | exactlyOnce hi hq hpush =>
    refine ⟨h.awaitPuback, fun e he => ?_⟩
    rcases (BoundedVec.mem_iff_of_push hpush).mp he with he | rfl
    · exact h.awaitPubrec e he
    · exact hq
  | pubackResend =>
    refine ⟨fun e he => ?_, h.awaitPubrec⟩
    rcases BoundedVec.mem_modifyAt he with he | ⟨a, ha, rfl⟩
    · exact h.awaitPuback e he
    · exact h.awaitPuback a (BoundedVec.mem_of_get? ha)
  | pubrecResend =>
    refine ⟨h.awaitPuback, fun e he => ?_⟩
    rcases BoundedVec.mem_modifyAt he with he | ⟨a, ha, rfl⟩
    · exact h.awaitPubrec e he
    · exact h.awaitPubrec a (BoundedVec.mem_of_get? ha)

theorem asks_borrow (e : OwnedPublish BUFFER TOPIC) :
    e.borrow.asks = match e.qospid with
      | .atMostOnce => none
      | .atLeastOnce pid => some (.puback, pid)
      | .exactlyOnce pid => some (.pubrec, pid) := rfl

/-- What waits is as it was, or its packet is among those that have been written. -/
def Renewed (ack : Ack) (c c' : Ctx (PublishesInner QUEUE BUFFER TOPIC)) : Prop :=
  ∃ ws, c'.env.written = c.env.written ++ ws ∧ ∀ e ∈ c'.inner.waits ack,
    e ∈ c.inner.waits ack ∨ ∃ w ∈ ws, w.packet.asks = some (ack, e.1.1)

theorem Renewed.refl : Renewed ack c c := ⟨[], by simp, fun _ he => .inl he⟩

theorem Renewed.trans (h : Renewed ack c c') (h' : Renewed ack c' c'') : Renewed ack c c'' := by
  obtain ⟨ws, hwritten, hws⟩ := h
  obtain ⟨ws', hwritten', hws'⟩ := h'
  refine ⟨ws ++ ws', by rw [hwritten', hwritten, List.append_assoc], fun e he => ?_⟩
  rcases hws' e he with he | ⟨w, hw, hasks⟩
  · refine (hws e he).imp_right ?_
    rintro ⟨w, hw, hasks⟩
    exact ⟨w, List.mem_append_left _ hw, hasks⟩
  · exact .inr ⟨w, List.mem_append_right _ hw, hasks⟩

theorem Renewed.wrote {w : Written} (hwritten : c'.env.written = c.env.written ++ [w])
    (h : ∀ e ∈ c'.inner.waits ack, e ∈ c.inner.waits ack ∨ w.packet.asks = some (ack, e.1.1)) :
    Renewed ack c c' :=
  ⟨[w], hwritten, fun e he => (h e he).imp_right fun hasks => ⟨w, List.mem_singleton_self w, hasks⟩⟩

/-- An entry that a move adds or marks is written by it. -/
theorem Orderly.renewed {panics : Prop} (h : c.inner.Orderly) (hmove : MoveOr panics c c')
    (ack : Ack) : Renewed ack c c' := by
  have hentry {α : Type} {v : BoundedVec α QUEUE} {f : α → (Pid × UniqueID) × Instant} {P : Prop}
      {w : BoundedVec α QUEUE} {e : (Pid × UniqueID) × Instant} (he : e ∈ w.toList.map f)
      (hw : ∀ a ∈ w, a ∈ v ∨ (e = f a → P)) : e ∈ v.toList.map f ∨ P := by
    obtain ⟨a, ha, rfl⟩ := List.mem_map.mp he
    exact (hw a ha).imp (fun ha => List.mem_map.mpr ⟨a, ha, rfl⟩) fun hP => hP rfl
  cases hmove with
  | asked | read => exact .refl
  | atMostOnce => exact .wrote rfl fun e he => .inl he
  | anonymous => exact .wrote rfl fun e he => .inl he
  | atLeastOnce hi hq hpush =>
    refine .wrote rfl fun e he => ?_
    cases ack with
    | puback =>
      refine hentry he fun a ha => ((BoundedVec.mem_iff_of_push hpush).mp ha).imp_right ?_
      rintro rfl rfl
      rw [asks_borrow, hq]
    | _ => exact .inl he
  | exactlyOnce hi hq hpush =>
    refine .wrote rfl fun e he => ?_
    cases ack with
    | pubrec =>
      refine hentry he fun a ha => ((BoundedVec.mem_iff_of_push hpush).mp ha).imp_right ?_
      rintro rfl rfl
      rw [asks_borrow, hq]
    | _ => exact .inl he
  | pubrel hi hu hpush =>
    refine .wrote rfl fun e he => ?_
    cases ack with
    | pubcomp =>
      refine hentry he fun a ha => ((BoundedVec.mem_iff_of_push hpush).mp ha).imp_right ?_
      rintro rfl rfl
      rfl
    | _ => exact .inl he
  | pubackResend hi hdue =>
    refine .wrote rfl fun e he => ?_
    cases ack with
    | puback =>
      refine hentry he fun a ha => (BoundedVec.mem_modifyAt ha).imp_right ?_
      rintro ⟨p, hp, rfl⟩ rfl
      cases hi.symm.trans hp
      rw [asks_borrow, h.awaitPuback _ (BoundedVec.mem_of_get? hi)]
    | _ => exact .inl he
  | pubrecResend hi hdue =>
    refine .wrote rfl fun e he => ?_
    cases ack with
    | pubrec =>
      refine hentry he fun a ha => (BoundedVec.mem_modifyAt ha).imp_right ?_
      rintro ⟨p, hp, rfl⟩ rfl
      cases hi.symm.trans hp
      rw [asks_borrow, h.awaitPubrec _ (BoundedVec.mem_of_get? hi)]
    | _ => exact .inl he
  | pubcompResend hi hdue =>
    refine .wrote rfl fun e he => ?_
    cases ack with
    | pubcomp =>
      refine hentry he fun a ha => (BoundedVec.mem_modifyAt ha).imp_right ?_
      rintro ⟨p, hp, rfl⟩ rfl
      cases hi.symm.trans hp
      rfl
    | _ => exact .inl he

/-! ## A whole pass -/

theorem filterMap_filter_of_none {α τ : Type} {f : α → Option τ} {p : α → Bool}
    (h : ∀ a, p a = false → f a = none) (l : List α) :
    (l.filter p).filterMap f = l.filterMap f := by
  rw [List.filterMap_filter]
  congr 1
  funext a
  cases hp : p a with
  | true => rfl
  | false => exact (h a hp).symm

/-- What a pass that ends with `res` means for the packets that ask for `ack`. -/
structure PassedOn (ack : Ack) (c : Ctx (PublishesInner QUEUE BUFFER TOPIC))
    (res : Except (Stop MqttError) SendResult) (c' : Ctx (PublishesInner QUEUE BUFFER TOPIC)) :
    Prop where
  moved : ∃ moved new, c.inner.departing ack = moved ++ c'.inner.departing ack ∧
    c'.inner.outstanding ack = c.inner.outstanding ack ++ new ∧ new.Perm moved
  renewed : Renewed ack c c'
  served : res = .ok .sentAll →
    c'.inner.departing ack = [] ∨ (c'.inner.outstanding ack).length = QUEUE
  settled : res = .ok .sentAll → ∀ e ∈ c'.inner.waits ack, c.env.now ≤ e.2 + RESEND_DURATION

theorem departing_eq_of_qos {qos : QoS} {pubrels : List SendPubrel}
    {publishes : List (OwnedPublish BUFFER TOPIC)} {again : List Written}
    {α : Type} {f : OwnedPublish BUFFER TOPIC → Option α}
    (h : Wrote c c' pubrels publishes again) (hf : ∀ e, e.qospid.qos ≠ qos → f e = none) :
    c.inner.sendPublish.toList.filterMap f =
      publishes.filterMap f ++ c'.inner.sendPublish.toList.filterMap f := by
  have hnone (e : OwnedPublish BUFFER TOPIC) (he : decide (e.qospid.qos = qos) = false) :
      f e = none := hf e (of_decide_eq_false he)
  rw [← filterMap_filter_of_none hnone, h.ofQos, List.filterMap_append,
    filterMap_filter_of_none hnone, filterMap_filter_of_none hnone]

/-- The QoS of the publishes that ask for an acknowledgement. -/
theorem ticket_of_qos {ack : Ack} {qos : QoS}
    (h : ack = .puback ∧ qos = .atLeastOnce ∨ ack = .pubrec ∧ qos = .exactlyOnce)
    (e : OwnedPublish BUFFER TOPIC) (he : e.qospid.qos ≠ qos) : e.ticket ack = none := by
  obtain ⟨dup, qospid, retain, topicName, payload, uniqueId⟩ := e
  rcases h with ⟨rfl, rfl⟩ | ⟨rfl, rfl⟩ <;> cases qospid <;> first | rfl | exact absurd rfl he

theorem departing_split {pubrels : List SendPubrel} {publishes : List (OwnedPublish BUFFER TOPIC)}
    {again : List Written} (h : Wrote c c' pubrels publishes again) (ack : Ack) :
    ∃ moved, c.inner.departing ack = moved ++ c'.inner.departing ack := by
  cases ack with
  | puback => exact ⟨_, departing_eq_of_qos h (ticket_of_qos (.inl ⟨rfl, rfl⟩))⟩
  | pubrec => exact ⟨_, departing_eq_of_qos h (ticket_of_qos (.inr ⟨rfl, rfl⟩))⟩
  | pubcomp =>
    refine ⟨pubrels.filterMap SendPubrel.ticket, ?_⟩
    rw [departing, h.ofPubrel, List.filterMap_append]
    rfl
  | suback | unsuback =>
    refine ⟨[], ?_⟩
    have hnone {ack : Ack} (hack : ack = .suback ∨ ack = .unsuback)
        (l : List (OwnedPublish BUFFER TOPIC)) : l.filterMap (OwnedPublish.ticket ack) = [] :=
      List.filterMap_eq_nil_iff.mpr fun e _ => by rcases hack with rfl | rfl <;> rfl
    simp [departing, hnone]

theorem now_le_of_reading {e : Env} {k : Nat} {t : Instant}
    (h : e.reading k - t ≤ RESEND_DURATION) : e.now ≤ t + RESEND_DURATION :=
  Nat.le_trans (Nat.le_add_right e.now _) (Nat.sub_le_iff_le_add'.mp h)

/-- An entry that is left in `send_publish` has found its queue full. -/
theorem TargetsFull.served (h : q.TargetsFull) :
    q.unconfirmed = [] ∧ (q.departing .puback = [] ∨ (q.outstanding .puback).length = QUEUE) ∧
      (q.departing .pubrec = [] ∨ (q.outstanding .pubrec).length = QUEUE) := by
  have hfull {v : Nat} {full : Bool} (hspace : (!full) = false) (hlen : full = true → v = QUEUE) :
      v = QUEUE := hlen (by simpa using hspace)
  refine ⟨List.filterMap_eq_nil_iff.mpr fun e he => ?_, ?_, ?_⟩
  · refine if_neg fun hq => ?_
    have hspace := h e he
    rw [hq] at hspace
    cases hspace
  · refine or_iff_not_imp_left.mpr fun hne => ?_
    obtain ⟨t, ht⟩ := List.exists_mem_of_ne_nil _ hne
    obtain ⟨e, he, hticket⟩ := List.mem_filterMap.mp ht
    have hqos : e.qospid.qos = .atLeastOnce := by
      by_contra hqos
      rw [ticket_of_qos (.inl ⟨rfl, rfl⟩) e hqos] at hticket
      cases hticket
    have hspace := h e he
    rw [hqos] at hspace
    simpa [outstanding, waits] using hfull hspace BoundedVec.isFull_iff.mp
  · refine or_iff_not_imp_left.mpr fun hne => ?_
    obtain ⟨t, ht⟩ := List.exists_mem_of_ne_nil _ hne
    obtain ⟨e, he, hticket⟩ := List.mem_filterMap.mp ht
    have hqos : e.qospid.qos = .exactlyOnce := by
      by_contra hqos
      rw [ticket_of_qos (.inr ⟨rfl, rfl⟩) e hqos] at hticket
      cases hticket
    have hspace := h e he
    rw [hqos] at hspace
    simpa [outstanding, waits] using hfull hspace BoundedVec.isFull_iff.mp

theorem orderly_of_moves {α : Type} {m : PublishesCall QUEUE BUFFER TOPIC α} (h : c.inner.Orderly)
    (hm : MovesAt Move m c) : (m.exec c).2.inner.Orderly :=
  hm.invariant (I := fun c => c.inner.Orderly) (fun _ _ hmove h => h.move hmove) h

theorem sendPackets_passesOn (hflagged : c.inner.Flagged) (horderly : c.inner.Orderly) (ack : Ack) :
    PassedOn ack c (sendPackets.exec c).1 (sendPackets.exec c).2 := by
  obtain ⟨pubrels, publishes, again, hpass⟩ := sendPackets_pass hflagged
  have hhanded := sendPackets_moves.invariant
    (I := Handed (·.inner.departing ack) (·.inner.outstanding ack) c)
    (fun _ _ hmove h => h.trans (handed_move hmove ack)) (.of_eq .rfl rfl)
  obtain ⟨-, hrenewed⟩ := sendPackets_moves.invariant
    (I := fun c' => c'.inner.Orderly ∧ Renewed ack c c')
    (fun _ _ hmove h => ⟨h.1.move hmove, h.2.trans (h.1.renewed hmove ack)⟩) ⟨horderly, .refl⟩
  obtain ⟨moved, hmoved⟩ := departing_split hpass.toWrote ack
  obtain ⟨new, hafter, hbefore⟩ := hhanded
  refine ⟨⟨moved, new, hmoved, hafter, ?_⟩, hrenewed, fun hres => ?_, fun hres => ?_⟩
  · dsimp only at hbefore
    rw [hmoved] at hbefore
    exact (List.perm_append_right_iff _).mp hbefore
  · have hserved := (hpass.full hres).served
    cases ack with
    | puback => exact hserved.2.1
    | pubrec => exact hserved.2.2
    | pubcomp =>
      refine (hpass.blocked hres).imp (fun hnil => ?_) fun hfull => ?_
      · rw [departing, hnil]
        rfl
      · simpa [outstanding, waits] using BoundedVec.isFull_iff.mp hfull
    | suback | unsuback =>
      exact .inl (List.filterMap_eq_nil_iff.mpr fun e _ => rfl)
  · cases ack with
    | puback =>
      refine List.forall_mem_map.mpr fun e he => ?_
      exact now_le_of_reading (hpass.puback hres e he)
    | pubrec =>
      refine List.forall_mem_map.mpr fun e he => ?_
      exact now_le_of_reading (hpass.pubrec hres e he)
    | pubcomp =>
      refine List.forall_mem_map.mpr fun e he => ?_
      exact now_le_of_reading (hpass.pubcomp hres e he)
    | suback | unsuback => exact fun e he => absurd he List.not_mem_nil

/-- The publishes of QoS 0 that a pass takes are reported. -/
theorem sendPackets_reported (hflagged : c.inner.Flagged) :
    (∃ moved new, c.inner.unconfirmed = moved ++ (sendPackets.exec c).2.inner.unconfirmed ∧
      (sendPackets.exec c).2.env.reported = c.env.reported ++ new ∧ new.Perm moved) ∧
    ((sendPackets.exec c).1 = .ok .sentAll → (sendPackets.exec c).2.inner.unconfirmed = []) := by
  obtain ⟨pubrels, publishes, again, hpass⟩ := sendPackets_pass hflagged
  have hhanded := sendPackets_moves.invariant (I := Handed (·.inner.unconfirmed) (·.env.reported) c)
    (fun _ _ hmove h => h.trans (reported_move hmove)) (.of_eq .rfl rfl)
  have hnone (e : OwnedPublish BUFFER TOPIC) (he : e.qospid.qos ≠ .atMostOnce) :
      e.unconfirmed = none := by
    refine if_neg fun hq => he ?_
    rw [hq]
    rfl
  have hmoved := departing_eq_of_qos hpass.toWrote hnone
  obtain ⟨new, hafter, hbefore⟩ := hhanded
  refine ⟨⟨_, new, hmoved, hafter, ?_⟩, fun hres => (hpass.full hres).served.1⟩
  dsimp only [unconfirmed] at hbefore
  rw [hmoved] at hbefore
  exact (List.perm_append_right_iff _).mp hbefore

/-! ## Acknowledgements -/

/-- The first entry with a pid. -/
def FirstWith (pid : Pid) (l : List ((Pid × UniqueID) × Instant)) (i : Nat)
    (e : (Pid × UniqueID) × Instant) : Prop :=
  l[i]? = some e ∧ e.1.1 = pid ∧ ∀ j < i, ∀ e', l[j]? = some e' → e'.1.1 ≠ pid

section

variable {α : Type} {v : BoundedVec α QUEUE} {pid : Pid} {i : Nat} {key : α → Pid}
  {f : α → (Pid × UniqueID) × Instant}

theorem firstWith_of_position (hf : ∀ a, (f a).1.1 = key a)
    (hpos : v.position (key · == pid) = some i) :
    ∃ a, v.get? i = some a ∧ FirstWith pid (v.toList.map f) i (f a) := by
  obtain ⟨hi, hkey, hbefore⟩ := List.findIdx?_eq_some_iff_getElem.mp hpos
  refine ⟨v.toList[i], List.getElem?_eq_getElem hi, ?_, ?_, fun j hj e he => ?_⟩
  · rw [List.getElem?_map, List.getElem?_eq_getElem hi]
    rfl
  · rw [hf]
    simpa using hkey
  · rw [List.getElem?_map, List.getElem?_eq_getElem (Nat.lt_trans hj hi)] at he
    cases he
    rw [hf]
    simpa using hbefore j hj

theorem unknown_of_position (hf : ∀ a, (f a).1.1 = key a)
    (hpos : v.position (key · == pid) = none) : ∀ e ∈ v.toList.map f, e.1.1 ≠ pid := by
  refine List.forall_mem_map.mpr fun a ha => ?_
  rw [hf]
  simpa using BoundedVec.position_eq_none_iff.mp hpos a ha

end

end PublishesInner

namespace Client

open PublishesInner

/-- The pid that a step acknowledges. -/
def Label.answers (ack : Ack) : Label → Option Pid
  | .receive packet => (packet.acks.filter (·.1 = ack)).map (·.2)
  | _ => none

theorem Label.answers_eq_some_iff {ack : Ack} {l : Label} {pid : Pid} :
    l.answers ack = some pid ↔ ∃ packet, l = .receive packet ∧ packet.acks = some (ack, pid) := by
  cases l with
  | receive packet => simp [answers, Option.filter_eq_some_iff]
  | _ => simp [answers]

variable {topicPathCapacity : Nat} {s s' : Client QUEUE BUFFER TOPIC} {l : Label} {ack : Ack}

/-- What becomes of an entry that is acknowledged. -/
def Left (ack : Ack) (a : Pid × UniqueID) (s : Client QUEUE BUFFER TOPIC) : Prop :=
  match ack with
  | .pubrec => a ∈ s.publishes.departing .pubcomp
  | _ => .publishDone a.2 ∈ s.env.events

/-- What a step means for the packets that ask for `ack`. -/
structure Turned (ack : Ack) (s : Client QUEUE BUFFER TOPIC) (l : Label)
    (s' : Client QUEUE BUFFER TOPIC) : Prop where
  outstanding : (∃ new, s'.publishes.outstanding ack = s.publishes.outstanding ack ++ new ∧
      ∀ p, l.answers ack = some p → ∀ a ∈ s.publishes.outstanding ack, a.1 ≠ p) ∨
    ∃ i a, (s.publishes.outstanding ack)[i]? = some a ∧
      (∀ j < i, ∀ b, (s.publishes.outstanding ack)[j]? = some b → b.1 ≠ a.1) ∧
      s'.publishes.outstanding ack = (s.publishes.outstanding ack).eraseIdx i ∧
      l.answers ack = some a.1 ∧ Left ack a s'
  departing : ∃ moved rest new, s.publishes.departing ack = moved ++ rest ∧
    s'.publishes.departing ack = rest ++ new ∧ (∀ a ∈ moved, a ∈ s'.publishes.outstanding ack) ∧
    (moved = [] → (s'.publishes.outstanding ack).length = QUEUE →
      (s.publishes.outstanding ack).length = QUEUE)
  renewed : Renewed ack ⟨s.publishes, s.env⟩ ⟨s'.publishes, s'.env⟩

/-- Nothing that waits is acknowledged, and a publish or PUBREL may be queued. -/
theorem Turned.of_queued (hwaits : s'.publishes.waits ack = s.publishes.waits ack)
    (hdeparting : ∃ new, s'.publishes.departing ack = s.publishes.departing ack ++ new)
    (hnone : ∀ p, l.answers ack = some p → ∀ e ∈ s.publishes.waits ack, e.1.1 ≠ p)
    (hwritten : s.env.written <+: s'.env.written) : Turned ack s l s' := by
  have houtstanding : s'.publishes.outstanding ack = s.publishes.outstanding ack :=
    congrArg (List.map Prod.fst) hwaits
  obtain ⟨new, hnew⟩ := hdeparting
  obtain ⟨ws, hws⟩ := hwritten
  refine ⟨.inl ⟨[], by simp [houtstanding], fun p hp => ?_⟩, ⟨[], _, new, rfl, hnew, nofun, ?_⟩,
    ws, hws.symm, fun e he => .inl (hwaits ▸ he)⟩
  · exact List.forall_mem_map.mpr (hnone p hp)
  · rw [houtstanding]
    exact fun _ hlen => hlen

/-- The first entry with the pid is acknowledged. -/
theorem Turned.of_answered {pid : Pid} {i : Nat} {e : (Pid × UniqueID) × Instant}
    (hfirst : FirstWith pid (s.publishes.waits ack) i e)
    (hwaits : s'.publishes.waits ack = (s.publishes.waits ack).eraseIdx i)
    (hdeparting : s'.publishes.departing ack = s.publishes.departing ack)
    (hanswers : l.answers ack = some pid) (hleft : Left ack e.1 s')
    (hwritten : s'.env.written = s.env.written) : Turned ack s l s' := by
  obtain ⟨hi, rfl, hbefore⟩ := hfirst
  have houtstanding : s'.publishes.outstanding ack = (s.publishes.outstanding ack).eraseIdx i :=
    (congrArg (List.map Prod.fst) hwaits).trans (List.eraseIdx_map ..).symm
  have hget (j : Nat) : (s.publishes.outstanding ack)[j]? = (s.publishes.waits ack)[j]?.map (·.1) :=
    List.getElem?_map
  have hlen : i < (s.publishes.outstanding ack).length := by
    rw [PublishesInner.outstanding, List.length_map]
    exact (List.getElem?_eq_some_iff.mp hi).1
  refine ⟨.inr ⟨i, e.1, by rw [hget, hi]; rfl, fun j hj b hb => ?_, houtstanding, hanswers, hleft⟩,
    ⟨[], s.publishes.departing ack, [], rfl, by rw [List.append_nil, hdeparting], nofun,
      fun _ hfull => ?_⟩,
    [], by simp [hwritten], fun e' he' => .inl (List.mem_of_mem_eraseIdx (hwaits ▸ he'))⟩
  · rw [hget] at hb
    obtain ⟨e', he', rfl⟩ := Option.map_eq_some_iff.mp hb
    exact hbefore j hj e' he'
  · rw [houtstanding, List.length_eraseIdx_of_lt hlen] at hfull
    have := s.publishes.length_outstanding_le ack
    omega

/-- A PUBREC for a publish that waits for it finds room for the PUBREL. -/
def PubrecFits (s : Client QUEUE BUFFER TOPIC) (l : Label) : Prop :=
  ∀ pid, l = .receive (.pubrec pid) → (∃ e ∈ s.publishes.awaitPubrec, e.pid = pid) →
    s.publishes.sendPubrel.isFull = false

theorem answers_of_acks {packet : Packet} {ack' : Ack} {pid : Pid}
    (h : packet.acks = some (ack', pid)) :
    Label.answers ack (.receive packet) = if ack' = ack then some pid else none := by
  by_cases hack : ack' = ack <;> simp [Label.answers, h, Option.filter, hack]

/-- A packet that finds nothing to acknowledge leaves all as it was. -/
theorem Turned.of_unknown {packet : Packet} {ack' : Ack} {pid : Pid}
    (hacks : packet.acks = some (ack', pid))
    (hnone : ∀ e ∈ s.publishes.waits ack', e.1.1 ≠ pid)
    (hwaits : s'.publishes.waits ack = s.publishes.waits ack)
    (hdeparting : s'.publishes.departing ack = s.publishes.departing ack)
    (hwritten : s'.env.written = s.env.written) : Turned ack s (.receive packet) s' := by
  refine .of_queued hwaits ⟨[], by rw [hdeparting, List.append_nil]⟩ (fun p hp => ?_)
    (hwritten ▸ List.prefix_rfl)
  rw [answers_of_acks hacks] at hp
  split at hp
  · rename_i hack
    cases hp
    exact hack ▸ hnone
  · cases hp

/-- The other kinds of packets are not concerned. -/
theorem Turned.of_other {packet : Packet} {ack' : Ack} {pid : Pid}
    (hacks : packet.acks = some (ack', pid)) (hne : ack' ≠ ack)
    (hwaits : s'.publishes.waits ack = s.publishes.waits ack)
    (hdeparting : ∃ new, s'.publishes.departing ack = s.publishes.departing ack ++ new)
    (hwritten : s'.env.written = s.env.written) : Turned ack s (.receive packet) s' := by
  refine .of_queued hwaits hdeparting (fun p hp => ?_) (hwritten ▸ List.prefix_rfl)
  rw [answers_of_acks hacks, if_neg hne] at hp
  cases hp

theorem receive_puback_turned (s : Client QUEUE BUFFER TOPIC) (pid : Pid) (ack : Ack) :
    Turned ack s (.receive (.puback pid))
      (s.outcome topicPathCapacity (.receive (.puback pid))).2 := by
  have hacks : (Packet.puback pid).acks = some (.puback, pid) := rfl
  simp only [outcome, processPacket, callPublishes, Publishes.processIncomingPacket]
  cases hpos : s.publishes.awaitPuback.position (·.pid == pid) with
  | none =>
    rw [processPuback_unknown hpos]
    exact .of_unknown hacks (unknown_of_position (fun _ => rfl) hpos) rfl rfl rfl
  | some i =>
    obtain ⟨e, hi, hfirst⟩ := firstWith_of_position
      (f := fun e : AwaitPuback BUFFER TOPIC => ((e.pid, e.publish.uniqueId), e.publishSent))
      (fun _ => rfl) hpos
    rw [processPuback_found hpos hi]
    by_cases hack : Ack.puback = ack
    · subst hack
      refine .of_answered hfirst (List.eraseIdx_map ..).symm rfl ?_ ?_ rfl
      · rw [answers_of_acks hacks, if_pos rfl]
      · exact List.mem_append_right _ (List.mem_singleton_self _)
    · refine .of_other hacks hack ?_ ⟨[], ?_⟩ rfl
      · cases ack <;> first | rfl | exact absurd rfl hack
      · rw [List.append_nil]
        cases ack <;> rfl

theorem processPubcomp_found {c : Ctx (PublishesInner QUEUE BUFFER TOPIC)} {pid : Pid} {i : Nat}
    {p : AwaitPubcomp} (hpos : c.inner.awaitPubcomp.position (·.pid == pid) = some i)
    (hi : c.inner.awaitPubcomp.get? i = some p) :
    (processPubcomp pid).exec c =
      (.ok (),
        { inner := { c.inner with awaitPubcomp := c.inner.awaitPubcomp.removeAt i }
          env := (c.env.freed p.pid).emitted (.publishDone p.uniqueId) }) := by
  simp [processPubcomp, hpos, hi]

theorem processPubcomp_unknown {c : Ctx (PublishesInner QUEUE BUFFER TOPIC)} {pid : Pid}
    (hpos : c.inner.awaitPubcomp.position (·.pid == pid) = none) :
    (processPubcomp pid).exec c = (.error (.fail (.unexpectedAck pid)), c) := by
  simp [processPubcomp, hpos]

theorem receive_pubcomp_turned (s : Client QUEUE BUFFER TOPIC) (pid : Pid) (ack : Ack) :
    Turned ack s (.receive (.pubcomp pid))
      (s.outcome topicPathCapacity (.receive (.pubcomp pid))).2 := by
  have hacks : (Packet.pubcomp pid).acks = some (.pubcomp, pid) := rfl
  simp only [outcome, processPacket, callPublishes, Publishes.processIncomingPacket]
  cases hpos : s.publishes.awaitPubcomp.position (·.pid == pid) with
  | none =>
    rw [processPubcomp_unknown hpos]
    exact .of_unknown hacks (unknown_of_position (fun _ => rfl) hpos) rfl rfl rfl
  | some i =>
    obtain ⟨e, hi, hfirst⟩ := firstWith_of_position
      (f := fun e : AwaitPubcomp => ((e.pid, e.uniqueId), e.pubrelSent)) (fun _ => rfl) hpos
    rw [processPubcomp_found hpos hi]
    by_cases hack : Ack.pubcomp = ack
    · subst hack
      refine .of_answered hfirst (List.eraseIdx_map ..).symm rfl ?_ ?_ rfl
      · rw [answers_of_acks hacks, if_pos rfl]
      · exact List.mem_append_right _ (List.mem_singleton_self _)
    · refine .of_other hacks hack ?_ ⟨[], ?_⟩ rfl
      · cases ack <;> first | rfl | exact absurd rfl hack
      · rw [List.append_nil]
        cases ack <;> rfl

/-- A PUBREC for no publish leaves a PUBREL that is no request's. -/
theorem receive_unexpected_pubrec_turned {pid : Pid}
    (hpos : s.publishes.awaitPubrec.position (·.pid == pid) = none) (ack : Ack) :
    Turned ack s (.receive (.pubrec pid))
      (s.outcome topicPathCapacity (.receive (.pubrec pid))).2 := by
  have hacks : (Packet.pubrec pid).acks = some (.pubrec, pid) := rfl
  simp only [outcome, processPacket, callPublishes, Publishes.processIncomingPacket]
  obtain ⟨r, inner, hres, hexec⟩ := processPubrec_unknown (c := ⟨s.publishes, s.env⟩) hpos
  rw [hexec]
  have hunknown := unknown_of_position
    (f := fun e : AwaitPubrec BUFFER TOPIC => ((e.pid, e.publish.uniqueId), e.publishSent))
    (fun _ => rfl) hpos
  unfold pubrecResult at hres
  cases hpush : s.publishes.sendPubrel.push ⟨pid, none⟩ with
  | none =>
    rw [hpush] at hres
    cases hres
    exact .of_unknown hacks hunknown rfl rfl rfl
  | some queue =>
    rw [hpush] at hres
    cases hres
    refine .of_unknown hacks hunknown ?_ ?_ rfl
    · cases ack <;> rfl
    · have hqueue := (BoundedVec.push_eq_some_iff.mp hpush).2
      cases ack <;> simp [departing, hqueue, SendPubrel.ticket]

/-- A PUBREC takes its publish to the PUBRELs. -/
theorem receive_awaited_pubrec_turned {pid : Pid} {i : Nat}
    (hfits : s.PubrecFits (.receive (.pubrec pid)))
    (hpos : s.publishes.awaitPubrec.position (·.pid == pid) = some i) (ack : Ack) :
    Turned ack s (.receive (.pubrec pid))
      (s.outcome topicPathCapacity (.receive (.pubrec pid))).2 := by
  have hacks : (Packet.pubrec pid).acks = some (.pubrec, pid) := rfl
  simp only [outcome, processPacket, callPublishes, Publishes.processIncomingPacket]
  obtain ⟨e, hi, hfirst⟩ := firstWith_of_position
    (f := fun e : AwaitPubrec BUFFER TOPIC => ((e.pid, e.publish.uniqueId), e.publishSent))
    (fun _ => rfl) hpos
  obtain ⟨r, inner, hres, hexec⟩ := processPubrec_found (c := ⟨s.publishes, s.env⟩) hpos hi
  obtain ⟨e₀, hi₀, hpid₀⟩ := BoundedVec.get?_of_position hpos
  have hroom := hfits pid rfl ⟨e₀, BoundedVec.mem_of_get? hi₀, by simpa using hpid₀⟩
  obtain ⟨queue, hpush⟩ := BoundedVec.exists_push hroom ⟨e.pid, some e.publish.uniqueId⟩
  simp only [pubrecResult, hpush, Prod.mk.injEq] at hres
  obtain ⟨rfl, rfl⟩ := hres
  rw [hexec]
  have hqueue : queue.toList.filterMap SendPubrel.ticket =
      s.publishes.sendPubrel.toList.filterMap SendPubrel.ticket ++
        [(e.pid, e.publish.uniqueId)] := by
    rw [(BoundedVec.push_eq_some_iff.mp hpush).2, List.filterMap_append]
    rfl
  by_cases hack : Ack.pubrec = ack
  · subst hack
    refine .of_answered hfirst (List.eraseIdx_map ..).symm rfl ?_ ?_ rfl
    · rw [answers_of_acks hacks, if_pos rfl]
    · have hmem : (e.pid, e.publish.uniqueId) ∈ queue.toList.filterMap SendPubrel.ticket := by
        rw [hqueue]
        exact List.mem_append_right _ (List.mem_singleton_self _)
      exact hmem
  · refine .of_other hacks hack ?_ ?_ rfl
    · cases ack <;> first | rfl | exact absurd rfl hack
    · cases ack with
      | pubcomp => exact ⟨_, hqueue⟩
      | _ => exact ⟨[], (List.append_nil _).symm⟩

theorem receive_pubrec_turned {pid : Pid} (hfits : s.PubrecFits (.receive (.pubrec pid)))
    (ack : Ack) :
    Turned ack s (.receive (.pubrec pid))
      (s.outcome topicPathCapacity (.receive (.pubrec pid))).2 := by
  cases hpos : s.publishes.awaitPubrec.position (·.pid == pid) with
  | none => exact receive_unexpected_pubrec_turned hpos ack
  | some i => exact receive_awaited_pubrec_turned hfits hpos ack

theorem sendPublishes_turned (hflagged : s.publishes.Flagged) (horderly : s.publishes.Orderly)
    (answers : List (Except MqttError Bool)) (ticks : List Duration) (ack : Ack) :
    Turned ack s (.sendPublishes answers ticks)
      (s.outcome topicPathCapacity (.sendPublishes answers ticks)).2 := by
  have hpass := sendPackets_passesOn (c := ⟨s.publishes, (s.scripted answers ticks).env⟩)
    hflagged horderly ack
  obtain ⟨moved, new, hmoved, hnew, hperm⟩ := hpass.moved
  refine ⟨.inl ⟨new, hnew, fun p hp => by cases hp⟩,
    ⟨moved, _, [], hmoved, (List.append_nil _).symm, fun a ha => ?_, fun hnil hfull => ?_⟩,
    hpass.renewed⟩
  · exact hnew ▸ List.mem_append_right _ (hperm.mem_iff.mpr ha)
  · rw [hnil] at hperm
    have hsame := hnew
    rw [hperm.eq_nil, List.append_nil] at hsame
    exact hsame ▸ hfull

theorem publishes_of_rest (s : Client QUEUE BUFFER TOPIC) (topicPathCapacity : Nat)
    (hl : l.ofPublish = false) : (s.outcome topicPathCapacity l).2.publishes = s.publishes :=
  (@outcome_rest _ _ _ s topicPathCapacity l hl).1

/-- Only a send pass takes publishes out of `send_publish`. -/
theorem sendPublish_grows (topicPathCapacity : Nat)
    (hl : ∀ answers ticks, l ≠ .sendPublishes answers ticks) :
    ∃ new, (s.outcome topicPathCapacity l).2.publishes.sendPublish.toList =
      s.publishes.sendPublish.toList ++ new := by
  have hsame : ∃ new, s.publishes.sendPublish.toList = s.publishes.sendPublish.toList ++ new :=
    ⟨[], (List.append_nil _).symm⟩
  by_cases hrest : l.ofPublish = false
  · rw [s.publishes_of_rest topicPathCapacity hrest]
    exact hsame
  cases l with
  | publish topic payload qos retain id =>
    simp only [outcome, publish, callPublishes]
    rcases State.newPublish_cases ⟨s.publishes, s.env⟩ topic payload qos retain with
      h | ⟨message, -, -, -, ⟨-, h⟩ | ⟨pid, pool, -, -, h⟩⟩ <;> rw [h] <;> exact hsame
  | poll i =>
    simp only [outcome, poll, callPublishes]
    cases s.waiting[i]? with
    | none => exact hsame
    | some w =>
      dsimp only
      rcases Publishes.publish_cases ⟨s.publishes, s.env⟩ w.1 w.2 with
        h | ⟨e, -, h⟩ | ⟨entry, queue, -, hpush, h⟩ <;> rw [h]
      · exact hsame
      · exact hsame
      · exact ⟨_, (BoundedVec.push_eq_some_iff.mp hpush).2⟩
  | drop i => exact hsame
  | sendPublishes answers ticks => exact absurd rfl (hl answers ticks)
  | receive packet =>
    cases packet with
    | puback pid =>
      simp only [outcome, processPacket, callPublishes, Publishes.processIncomingPacket]
      rcases processPuback_cases ⟨s.publishes, s.env⟩ pid with ⟨i, e, -, -, h⟩ | ⟨-, h⟩ <;> rw [h] <;>
        exact hsame
    | pubcomp pid =>
      simp only [outcome, processPacket, callPublishes, Publishes.processIncomingPacket]
      rcases processPubcomp_cases ⟨s.publishes, s.env⟩ pid with ⟨i, e, -, -, h⟩ | ⟨-, h⟩ <;> rw [h] <;>
        exact hsame
    | pubrec pid =>
      simp only [outcome, processPacket, callPublishes, Publishes.processIncomingPacket]
      rcases processPubrec_cases ⟨s.publishes, s.env⟩ pid with
        ⟨i, e, r, inner, -, -, hres, h⟩ | ⟨-, r, inner, hres, h⟩ <;> rw [h] <;>
        obtain ⟨queue, rfl⟩ := pubrecResult_rest hres <;> exact hsame
    | _ => exact absurd rfl hrest
  | _ => exact absurd rfl hrest

/-- The call of a user queues a publish at most. -/
theorem request_turned (hrequest : l.isRequest = true) (ack : Ack) :
    Turned ack s l (s.outcome topicPathCapacity l).2 := by
  obtain ⟨new, hnew⟩ : ∃ new, (s.outcome topicPathCapacity l).2.publishes.sendPublish.toList =
      s.publishes.sendPublish.toList ++ new := by
    refine sendPublish_grows topicPathCapacity fun answers ticks heq => ?_
    rw [heq] at hrequest
    cases hrequest
  obtain ⟨sendPublish, sendRequest, pool, waiting, autoSubscribe, issued, h⟩ :=
    s.outcome_request topicPathCapacity hrequest
  rw [h] at hnew ⊢
  have hdeparting (ack : Ack) : sendPublish.toList.filterMap (OwnedPublish.ticket ack) =
      s.publishes.sendPublish.toList.filterMap (OwnedPublish.ticket ack) ++
        new.filterMap (OwnedPublish.ticket ack) :=
    (congrArg (List.filterMap _) hnew).trans List.filterMap_append
  refine .of_queued ?_ ?_ (fun p hp => ?_) List.prefix_rfl
  · cases ack <;> rfl
  · cases ack with
    | pubcomp => exact ⟨[], (List.append_nil _).symm⟩
    | _ => exact ⟨_, hdeparting _⟩
  · cases l with
    | receive => cases hrequest
    | _ => cases hp

theorem rest_turned (hl : l.ofPublish = false) (ack : Ack) :
    Turned ack s l (s.outcome topicPathCapacity l).2 := by
  have hpublishes := s.publishes_of_rest topicPathCapacity hl
  have hsend (answers : List (Except MqttError Bool)) (ticks : List Duration) :
      l ≠ .sendPublishes answers ticks := by
    rintro rfl
    cases hl
  obtain ⟨ws, -, hwritten⟩ :=
    @outcome_noPublish _ _ _ s topicPathCapacity l hsend
  refine .of_queued (by rw [hpublishes]) ⟨[], by rw [hpublishes, List.append_nil]⟩
    (fun p hp e he => ?_) ⟨ws, hwritten.symm⟩
  obtain ⟨packet, rfl, hacks⟩ := Label.answers_eq_some_iff.mp hp
  have hother : packet.acksOf true = none := 
    Option.not_isSome_iff_eq_none.mp (ne_true_of_eq_false hl)
  have hsub : ack.ofPublish = false := by
    by_contra hack
    have hsome := Packet.acksOf_eq_some_iff.mpr ⟨hacks, Bool.eq_true_of_not_eq_false hack⟩
    rw [hother] at hsome
    cases hsome
  cases ack with
  | suback | unsuback => cases he
  | _ => cases hsub

/-- Every step, in a state that the client reaches. -/
theorem outcome_turned (hflagged : s.publishes.Flagged) (horderly : s.publishes.Orderly)
    (hfits : s.PubrecFits l) (ack : Ack) :
    Turned ack s l (s.outcome topicPathCapacity l).2 := by
  by_cases hl : l.ofPublish = false
  · exact rest_turned hl ack
  by_cases hrequest : l.isRequest = true
  · exact request_turned hrequest ack
  cases l with
  | sendPublishes answers ticks => exact sendPublishes_turned hflagged horderly answers ticks ack
  | receive packet =>
    cases packet with
    | puback pid => exact receive_puback_turned s pid ack
    | pubrec pid => exact receive_pubrec_turned hfits ack
    | pubcomp pid => exact receive_pubcomp_turned s pid ack
    | _ => exact absurd rfl hl
  | _ => first | exact absurd rfl hl | exact absurd rfl hrequest

theorem orderly_step (horderly : s.publishes.Orderly) :
    (s.outcome topicPathCapacity l).2.publishes.Orderly := by
  by_cases hl : l.ofPublish = false
  · rw [s.publishes_of_rest topicPathCapacity hl]
    exact horderly
  by_cases hrequest : l.isRequest = true
  · obtain ⟨sendPublish, sendRequest, pool, waiting, autoSubscribe, issued, h⟩ :=
      s.outcome_request topicPathCapacity hrequest
    rw [h]
    exact ⟨horderly.awaitPuback, horderly.awaitPubrec⟩
  cases l with
  | sendPublishes answers ticks =>
    exact orderly_of_moves (c := ⟨s.publishes, (s.scripted answers ticks).env⟩) horderly
      sendPackets_moves
  | receive packet =>
    cases packet with
    | puback pid =>
      simp only [outcome, processPacket, callPublishes, Publishes.processIncomingPacket]
      rcases processPuback_cases ⟨s.publishes, s.env⟩ pid with ⟨i, e, -, -, h⟩ | ⟨-, h⟩ <;> rw [h]
      · exact ⟨fun e he => horderly.awaitPuback e (BoundedVec.mem_removeAt he),
          horderly.awaitPubrec⟩
      · exact horderly
    | pubcomp pid =>
      simp only [outcome, processPacket, callPublishes, Publishes.processIncomingPacket]
      rcases processPubcomp_cases ⟨s.publishes, s.env⟩ pid with ⟨i, e, -, -, h⟩ | ⟨-, h⟩ <;> rw [h]
      · exact ⟨horderly.awaitPuback, horderly.awaitPubrec⟩
      · exact horderly
    | pubrec pid =>
      simp only [outcome, processPacket, callPublishes, Publishes.processIncomingPacket]
      rcases processPubrec_cases ⟨s.publishes, s.env⟩ pid with
        ⟨i, e, r, inner, -, -, hres, h⟩ | ⟨-, r, inner, hres, h⟩ <;> rw [h] <;>
        obtain ⟨sendPubrel, rfl⟩ := pubrecResult_rest hres
      · exact ⟨horderly.awaitPuback,
          fun e he => horderly.awaitPubrec e (BoundedVec.mem_removeAt he)⟩
      · exact ⟨horderly.awaitPuback, horderly.awaitPubrec⟩
    | _ => exact absurd rfl hl
  | _ => first | exact absurd rfl hl | exact absurd rfl hrequest

/-! ## Infinite runs -/

section

variable (x : Execution (fun s : Client QUEUE BUFFER TOPIC => s.next topicPathCapacity))

/-- A packet that asks for `ack` is written in the step at `n`. -/
def Asks (ack : Ack) (pid : Pid) (n : Nat) : Prop :=
  ∃ ws, (x.state (n + 1)).env.written = (x.state n).env.written ++ ws ∧
    ∃ w ∈ ws, w.packet.asks = some (ack, pid)

/-- The step at `n` is a send pass of the publishes that returns `SentAll`. -/
def SendsAll (n : Nat) : Prop :=
  ∃ answers ticks, x.label n = .sendPublishes answers ticks ∧
    (((x.state n).scripted answers ticks).callPublishes Publishes.sendPackets).1 = .ok .sentAll

/-- The link and the peer answer again and again what is written again and again. -/
structure Fair : Prop where
  start : x.state 0 = new
  fits : ∀ n, (x.state n).PubrecFits (x.label n)
  passes : ∃ᶠ n in atTop, SendsAll x n
  clock : ∀ t, ∃ n, t ≤ (x.state n).env.now
  answers : ∀ ack pid, (∃ᶠ n in atTop, Asks x ack pid n) →
    ∃ᶠ n in atTop, (x.label n).answers ack = some pid

namespace Fair

variable {x} (h : Fair x)
include h

theorem flagged (n : Nat) : (x.state n).publishes.Flagged := by
  have hrun := x.run n
  rw [h.start] at hrun
  exact flagged_of_run hrun

theorem orderly (n : Nat) : (x.state n).publishes.Orderly := by
  have hrun := x.run n
  rw [h.start] at hrun
  refine Run.invariant (I := fun s => s.publishes.Orderly) (fun s l s' hs hnext => ?_) ?_ hrun
  · cases hnext
    exact orderly_step hs
  · exact ⟨nofun, nofun⟩

theorem turned (ack : Ack) (n : Nat) : Turned ack (x.state n) (x.label n) (x.state (n + 1)) := by
  have hstep := Option.some.inj (x.step n)
  rw [← hstep]
  exact outcome_turned (h.flagged n) (h.orderly n) (h.fits n) ack

/-- What a pass that sends all leaves is recent, and it has found its queue full or it waits. -/
theorem sendsAll {n : Nat} (hn : SendsAll x n) (ack : Ack) :
    ((x.state (n + 1)).publishes.departing ack = [] ∨
      ((x.state (n + 1)).publishes.outstanding ack).length = QUEUE) ∧
    (∀ e ∈ (x.state (n + 1)).publishes.waits ack,
      (x.state n).env.now ≤ e.2 + RESEND_DURATION) ∧
    (x.state (n + 1)).publishes.unconfirmed = [] := by
  obtain ⟨answers, ticks, hlabel, hres⟩ := hn
  have hstep := Option.some.inj (x.step n)
  rw [hlabel] at hstep
  have hpass := sendPackets_passesOn
    (c := ⟨(x.state n).publishes, ((x.state n).scripted answers ticks).env⟩) (h.flagged n)
    (h.orderly n) ack
  have hreported := (sendPackets_reported
    (c := ⟨(x.state n).publishes, ((x.state n).scripted answers ticks).env⟩) (h.flagged n)).2 hres
  rw [← hstep]
  exact ⟨hpass.served hres, hpass.settled hres, hreported⟩

/-- What is old is written again by the next pass that sends all. -/
theorem renewing (ack : Ack) : Renewing (fun n => (x.state n).publishes.waits ack)
    (fun a n => Asks x ack a.1 n) (fun n => (x.state n).env.now) (SendsAll x) RESEND_DURATION where
  renewed n e he := by
    obtain ⟨ws, hwritten, hws⟩ := (h.turned ack n).renewed
    refine (hws e he).imp_right ?_
    rintro ⟨w, hw, hasks⟩
    exact ⟨ws, hwritten, w, hw, hasks⟩
  settled n hn := (h.sendsAll hn ack).2.1
  clock_le n := by
    have hstep := Option.some.inj (x.step n)
    rw [← hstep]
    exact now_le_outcome

/-- What waits for ever is written again and again, and so it is answered. -/
theorem answered {ack : Ack} (a : Pid × UniqueID) (n : Nat)
    (hever : ∀ m, n ≤ m → a ∈ (x.state m).publishes.outstanding ack) :
    ∃ m, n ≤ m ∧ (x.label m).answers ack = some a.1 := by
  have hasks := (h.renewing ack).frequently h.passes h.clock fun m hm =>
    mem_waits_of_mem_outstanding (hever m hm)
  obtain ⟨m, hm, hanswers⟩ := frequently_atTop.mp (h.answers ack a.1 hasks) n
  exact ⟨m, hm, hanswers⟩

theorem awaits (ack : Ack) : Awaiting (fun n => (x.state n).publishes.outstanding ack) Prod.fst
    (fun n => (x.label n).answers ack) fun a n => Left ack a (x.state n) :=
  ⟨fun n => (h.turned ack n).outstanding⟩

theorem outstanding_leadsTo (ack : Ack) (a : Pid × UniqueID) :
    LeadsTo (fun n => a ∈ (x.state n).publishes.outstanding ack) fun n => Left ack a (x.state n) :=
  (h.awaits ack).leadsTo h.answered a

theorem departing_leadsTo (ack : Ack) (a : Pid × UniqueID) :
    LeadsTo (fun n => a ∈ (x.state n).publishes.departing ack)
      fun n => a ∈ (x.state n).publishes.outstanding ack := by
  intro n hn
  have hqueue : 0 < QUEUE := by
    cases ack with
    | pubcomp =>
      obtain ⟨e, he, -⟩ := List.mem_filterMap.mp hn
      exact Nat.lt_of_lt_of_le (List.length_pos_of_mem he) (BoundedVec.length_le _)
    | _ =>
      obtain ⟨e, he, -⟩ := List.mem_filterMap.mp hn
      exact Nat.lt_of_lt_of_le (List.length_pos_of_mem he) (BoundedVec.length_le _)
  have hline : Line (fun n => (x.state n).publishes.departing ack)
      (fun a n => a ∈ (x.state n).publishes.outstanding ack)
      fun n => ((x.state n).publishes.outstanding ack).length = QUEUE :=
    .of_front fun n => (h.turned ack n).departing
  refine hline.leadsTo (frequently_atTop.mpr fun k => ?_) (fun k hfull => ?_) a n hn
  · obtain ⟨m, hm, hsends⟩ := frequently_atTop.mp h.passes k
    exact ⟨m + 1, by omega, (h.sendsAll hsends ack).1.imp_left serves_of_nil⟩
  · have hne : (x.state k).publishes.outstanding ack ≠ [] := by
      intro hnil
      rw [hnil] at hfull
      exact absurd hfull (Nat.ne_of_lt hqueue)
    obtain ⟨m, hm, hroom⟩ := (h.awaits ack).room h.answered
      (fun n => (x.state n).publishes.length_outstanding_le ack) hne
    exact ⟨m, hm, Nat.ne_of_lt hroom⟩

end Fair

end

/-! ### A link that loses the first copy of each packet -/

/-- A PUBLISH of QoS 2 and its PUBREL are answered when they have been written a second time. -/
def lossyRun : List Label :=
  [ .publish [116] [7] .exactlyOnce false 45, .poll 0, .sendPublishes [.ok true] [],
    .wait (.fromSecs 6), .sendPublishes [.ok true] [],
    .receive (.pubrec ⟨1, Nat.one_pos, Pid.one_lt⟩), .sendPublishes [.ok true] [],
    .wait (.fromSecs 6), .sendPublishes [.ok true] [],
    .receive (.pubcomp ⟨1, Nat.one_pos, Pid.one_lt⟩) ]

def lossy : Execution (fun s : Client 4 8 8 => s.next 16) :=
  .ofTotal (fun s l => (s.outcome 16 l).2) new fun n =>
    lossyRun.getD n (.sendPublishes [] [.fromSecs 1])

end Client

end EmbeddedMqttc
