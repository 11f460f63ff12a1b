import EmbeddedMqttc.Publish

/-!
# What the calls of `Publishes` do

A send pass is made of moves, each of which writes at most one packet, and the calls that process
an acknowledgement or accept a publish have a few outcomes. What follows about `Publishes` follows
from these.
-/

namespace EmbeddedMqttc

open Prog EmbeddedMqttc.Comp

variable {PARALLEL_PUBLISHES BUFFER TOPIC_SIZE : Nat}

namespace PublishesInner

/-- A move of a send pass. The last move before a panic is one only if `panics` allows it. -/
inductive MoveOr : (panics : Prop) → Ctx (PublishesInner PARALLEL_PUBLISHES BUFFER TOPIC_SIZE) →
    Ctx (PublishesInner PARALLEL_PUBLISHES BUFFER TOPIC_SIZE) → Prop
  | asked : MoveOr panics c { c with env := c.env.asked }
  | read : MoveOr panics c { c with env := c.env.read }
  | atMostOnce (hi : c.inner.sendPublish.get? i = some current)
      (hq : current.qospid = .atMostOnce) :
      MoveOr panics c
        { inner := { c.inner with sendPublish := c.inner.sendPublish.removeAt i }
          env := (c.env.wrote ⟨current.borrow, some current.uniqueId⟩).emitted
            (.publishDone current.uniqueId) }
  | atLeastOnce (hi : c.inner.sendPublish.get? i = some current)
      (hq : current.qospid = .atLeastOnce pid)
      (hpush : c.inner.awaitPuback.push
        { pid, publish := { current with dup := true }
          publishSent := (c.env.wrote ⟨current.borrow, some current.uniqueId⟩).read.now } =
        some queue) :
      MoveOr panics c
        { inner :=
            { c.inner with
              sendPublish := c.inner.sendPublish.removeAt i
              awaitPuback := queue }
          env := (c.env.wrote ⟨current.borrow, some current.uniqueId⟩).read }
  | exactlyOnce (hi : c.inner.sendPublish.get? i = some current)
      (hq : current.qospid = .exactlyOnce pid)
      (hpush : c.inner.awaitPubrec.push
        { pid, publish := { current with dup := true }
          publishSent := (c.env.wrote ⟨current.borrow, some current.uniqueId⟩).read.now } =
        some queue) :
      MoveOr panics c
        { inner :=
            { c.inner with
              sendPublish := c.inner.sendPublish.removeAt i
              awaitPubrec := queue }
          env := (c.env.wrote ⟨current.borrow, some current.uniqueId⟩).read }
  | pubrel (hi : c.inner.sendPubrel.get? i = some current) (hu : current.uniqueId = some uid)
      (hpush : c.inner.awaitPubcomp.push
        { pid := current.pid
          pubrelSent := (c.env.wrote ⟨.pubrel current.pid, some uid⟩).read.now
          uniqueId := uid } = some queue) :
      MoveOr panics c
        { inner :=
            { c.inner with
              sendPubrel := c.inner.sendPubrel.removeAt i
              awaitPubcomp := queue }
          env := (c.env.wrote ⟨.pubrel current.pid, some uid⟩).read }
  | anonymous (hpanics : panics) (hi : c.inner.sendPubrel.get? i = some current)
      (hu : current.uniqueId = none) :
      MoveOr panics c
        { inner := { c.inner with sendPubrel := c.inner.sendPubrel.removeAt i }
          env := (c.env.wrote ⟨.pubrel current.pid, none⟩).read }
  | pubackResend (hi : c.inner.awaitPuback.get? i = some pending)
      (hdue : c.env.now - pending.publishSent > RESEND_DURATION) :
      MoveOr panics c
        { inner :=
            { c.inner with
              awaitPuback := c.inner.awaitPuback.modifyAt i
                fun p => { p with publishSent := c.env.now } }
          env := c.env.wrote ⟨pending.publish.borrow, some pending.publish.uniqueId⟩ }
  | pubrecResend (hi : c.inner.awaitPubrec.get? i = some pending)
      (hdue : c.env.now - pending.publishSent > RESEND_DURATION) :
      MoveOr panics c
        { inner :=
            { c.inner with
              awaitPubrec := c.inner.awaitPubrec.modifyAt i
                fun p => { p with publishSent := c.env.now } }
          env := c.env.wrote ⟨pending.publish.borrow, some pending.publish.uniqueId⟩ }
  | pubcompResend (hi : c.inner.awaitPubcomp.get? i = some pending)
      (hdue : c.env.now - pending.pubrelSent > RESEND_DURATION) :
      MoveOr panics c
        { inner :=
            { c.inner with
              awaitPubcomp := c.inner.awaitPubcomp.modifyAt i
                fun p => { p with pubrelSent := c.env.now } }
          env := c.env.wrote ⟨.pubrel pending.pid, some pending.uniqueId⟩ }

abbrev Move : Ctx (PublishesInner PARALLEL_PUBLISHES BUFFER TOPIC_SIZE) →
    Ctx (PublishesInner PARALLEL_PUBLISHES BUFFER TOPIC_SIZE) → Prop := MoveOr True

/-- The entry at `i` has been written, and it has gone to the queue where it waits for its
acknowledgement. -/
inductive Stored (c : Ctx (PublishesInner PARALLEL_PUBLISHES BUFFER TOPIC_SIZE)) (i : Nat)
    (current : OwnedPublish BUFFER TOPIC_SIZE) :
    Ctx (PublishesInner PARALLEL_PUBLISHES BUFFER TOPIC_SIZE) → Prop
  | atMostOnce (hq : current.qospid = .atMostOnce) :
      Stored c i current
        { inner := { c.inner with sendPublish := c.inner.sendPublish.removeAt i }
          env := (c.env.wrote ⟨current.borrow, some current.uniqueId⟩).emitted
            (.publishDone current.uniqueId) }
  | atLeastOnce (hq : current.qospid = .atLeastOnce pid)
      (hpush : c.inner.awaitPuback.push
        { pid, publish := { current with dup := true }
          publishSent := (c.env.wrote ⟨current.borrow, some current.uniqueId⟩).read.now } =
        some queue) :
      Stored c i current
        { inner :=
            { c.inner with
              sendPublish := c.inner.sendPublish.removeAt i
              awaitPuback := queue }
          env := (c.env.wrote ⟨current.borrow, some current.uniqueId⟩).read }
  | exactlyOnce (hq : current.qospid = .exactlyOnce pid)
      (hpush : c.inner.awaitPubrec.push
        { pid, publish := { current with dup := true }
          publishSent := (c.env.wrote ⟨current.borrow, some current.uniqueId⟩).read.now } =
        some queue) :
      Stored c i current
        { inner :=
            { c.inner with
              sendPublish := c.inner.sendPublish.removeAt i
              awaitPubrec := queue }
          env := (c.env.wrote ⟨current.borrow, some current.uniqueId⟩).read }

/-- How a send pass stops: with an error of `try_write_packet`, or with a panic when it has written
the PUBREL of an entry without unique id. -/
inductive Stops (c : Ctx (PublishesInner PARALLEL_PUBLISHES BUFFER TOPIC_SIZE)) :
    Stop MqttError → Ctx (PublishesInner PARALLEL_PUBLISHES BUFFER TOPIC_SIZE) → Prop
  | fail (e : MqttError) : Stops c (.fail e) c
  | panic (hi : c.inner.sendPubrel.get? i = some current) (hu : current.uniqueId = none)
      (hmove : Move c c') : Stops c .panic c'

variable {c : Ctx (PublishesInner PARALLEL_PUBLISHES BUFFER TOPIC_SIZE)}

/-! ## The pending packets -/

section

variable {s : Ctx (PublishesInner PARALLEL_PUBLISHES BUFFER TOPIC_SIZE)} {i : Nat}
  {current : OwnedPublish BUFFER TOPIC_SIZE}

/-- What a turn of the loop does with the entry at `i`. -/
theorem sendPendingPublishesTurn_cases (hget : c.inner.sendPublish.get? i = some current) :
    (c.inner.hasSpace current.qospid.qos = false ∧
      (sendPendingPublishesTurn i).exec c = (.ok (.inr (i + 1)), c)) ∨
    (sendPendingPublishesTurn i).exec c = (.ok (.inl .partiallySent), { c with env := c.env.asked }) ∨
    (∃ e, (sendPendingPublishesTurn i).exec c = (.error (.fail e), { c with env := c.env.asked })) ∨
    ∃ s, c.inner.hasSpace current.qospid.qos = true ∧ Stored c i current s ∧
      (sendPendingPublishesTurn i).exec c = (.ok (.inr i), s) := by
  unfold sendPendingPublishesTurn
  rw [exec_get_bind, hget, exec_unwrap_some_bind]
  cases hspace : c.inner.hasSpace current.qospid.qos with
  | false => exact .inl ⟨rfl, rfl⟩
  | true =>
    rw [if_pos rfl]
    rcases tryWritePacket_cases c ⟨current.borrow, some current.uniqueId⟩ with hw | hw | ⟨e, hw⟩
    · refine .inr (.inr (.inr ?_))
      obtain ⟨dup, qospid, retain, topicName, payload, uniqueId⟩ := current
      cases qospid with
      | atMostOnce =>
        refine ⟨_, rfl, .atMostOnce rfl, ?_⟩
        simp [exec_bind_ok hw, afterPublish, QosPid.qos]
      | atLeastOnce pid =>
        have hroom : c.inner.awaitPuback.isFull = false := by
          simpa [hasSpace, QosPid.qos] using hspace
        obtain ⟨queue, hpush⟩ := BoundedVec.exists_push hroom _
        refine ⟨_, rfl, .atLeastOnce rfl hpush, ?_⟩
        simp [exec_bind_ok hw, afterPublish, QosPid.qos, AwaitPuback.from, hpush]
      | exactlyOnce pid =>
        have hroom : c.inner.awaitPubrec.isFull = false := by
          simpa [hasSpace, QosPid.qos] using hspace
        obtain ⟨queue, hpush⟩ := BoundedVec.exists_push hroom _
        refine ⟨_, rfl, .exactlyOnce rfl hpush, ?_⟩
        simp [exec_bind_ok hw, afterPublish, QosPid.qos, AwaitPubrec.from, hpush]
    · exact .inr (.inl (exec_bind_ok hw))
    · exact .inr (.inr (.inl ⟨e, exec_bind_error hw⟩))

theorem Stored.move (h : Stored c i current s)
    (hget : c.inner.sendPublish.get? i = some current) : MoveOr False c s := by
  cases h with
  | atMostOnce hq => exact .atMostOnce hget hq
  | atLeastOnce hq hpush => exact .atLeastOnce hget hq hpush
  | exactlyOnce hq hpush => exact .exactlyOnce hget hq hpush

theorem Stored.sendPublish (h : Stored c i current s) :
    s.inner.sendPublish = c.inner.sendPublish.removeAt i := by
  cases h <;> rfl

/-- Where there is no space, there is none after an entry has been stored. -/
theorem Stored.full (h : Stored c i current s) (qos : QoS)
    (hfull : c.inner.hasSpace qos = false) : s.inner.hasSpace qos = false := by
  cases h with
  | atMostOnce => exact hfull
  | atLeastOnce hq hpush =>
    cases qos with
    | atMostOnce | exactlyOnce => exact hfull
    | atLeastOnce =>
      have hroom := (BoundedVec.push_eq_some_iff.mp hpush).1
      rw [← BoundedVec.not_isFull_iff] at hroom
      simp [hasSpace, hroom] at hfull
  | exactlyOnce hq hpush =>
    cases qos with
    | atMostOnce | atLeastOnce => exact hfull
    | exactlyOnce =>
      have hroom := (BoundedVec.push_eq_some_iff.mp hpush).1
      rw [← BoundedVec.not_isFull_iff] at hroom
      simp [hasSpace, hroom] at hfull

end

theorem sendPendingPublishesTurn_exits (i : Nat) (hi : i < c.inner.sendPublish.len) :
    ExitsAt (MoveOr False) Stops (sendPendingPublishesTurn i) c := by
  obtain ⟨current, hget⟩ : ∃ current, c.inner.sendPublish.get? i = some current :=
    ⟨_, List.getElem?_eq_getElem hi⟩
  rcases sendPendingPublishesTurn_cases hget with ⟨-, h⟩ | h | ⟨e, h⟩ | ⟨s, -, hstored, h⟩
  · exact .of_ok h .refl
  · exact .of_ok h (.single .asked)
  · exact .of_stop h (.single .asked) (.fail e)
  · exact .of_ok h (.single (hstored.move hget))

theorem sendPendingPublishes_exits : ExitsAt (MoveOr False) Stops sendPendingPublishes c := by
  apply ExitsAt.get_bind
  exact .whileIndex (J := fun _ => True) (fun i c _ hi => sendPendingPublishesTurn_exits i hi)
    (fun _ _ _ _ _ _ => trivial) _ _ trivial

theorem sendPendingPubrelTurn_exits (i : Nat) (hi : i < c.inner.sendPubrel.len) :
    ExitsAt (MoveOr False) Stops (sendPendingPubrelTurn i) c := by
  have hget : c.inner.sendPubrel.get? i = some c.inner.sendPubrel.toList[i] :=
    List.getElem?_eq_getElem hi
  generalize c.inner.sendPubrel.toList[i] = current at hget
  apply ExitsAt.get_bind
  apply ExitsAt.unwrap_bind hget
  split
  · rename_i hspace
    refine tryWritePacket_bind_exits .asked (fun _ => .fail) (.pure _) fun hw => ?_
    obtain ⟨pid, uniqueId⟩ := current
    cases uniqueId with
    | none =>
      refine .of_stop (x := .panic) ?_ .refl (.panic hget rfl (.anonymous trivial hget rfl))
      simp [exec_bind_ok hw, AwaitPubcomp.from, exec_bind]
    | some uniqueId =>
      have hroom : c.inner.awaitPubcomp.isFull = false := by simpa using hspace
      obtain ⟨queue, hpush⟩ := BoundedVec.exists_push hroom _
      refine .of_ok (a := .inr i) ?_ (.single (.pubrel hget rfl hpush))
      simp [exec_bind_ok hw, AwaitPubcomp.from, exec_bind, hpush]
  · exact .pure _

theorem sendPendingPubrel_exits : ExitsAt (MoveOr False) Stops sendPendingPubrel c := by
  apply ExitsAt.get_bind
  exact .whileIndex (J := fun _ => True) (fun i c _ hi => sendPendingPubrelTurn_exits i hi)
    (fun _ _ _ _ _ _ => trivial) _ _ trivial

/-! ## Retransmission -/

section

variable {now : Instant} (hnow : c.env.now = now)
include hnow

theorem pubackResend_exits : ExitsAt (MoveOr False) Stops (pubackResend.scan now (pure now)) c := by
  refine Resend.scan_exits (J := fun c => c.env.now = now) (fun _ => .fail)
    (fun c hc => ⟨.asked, hc⟩) (fun c i pending packet hc hi hdue hp => ?_) hnow
  cases hp
  cases hc
  exact ⟨_, rfl, .pubackResend hi hdue, rfl⟩

theorem pubrecResend_exits : ExitsAt (MoveOr False) Stops (pubrecResend.scan now (pure now)) c := by
  refine Resend.scan_exits (J := fun c => c.env.now = now) (fun _ => .fail)
    (fun c hc => ⟨.asked, hc⟩) (fun c i pending packet hc hi hdue hp => ?_) hnow
  cases hp
  cases hc
  exact ⟨_, rfl, .pubrecResend hi hdue, rfl⟩

theorem pubcompResend_exits : ExitsAt (MoveOr False) Stops (pubcompResend.scan now (pure now)) c := by
  refine Resend.scan_exits (J := fun c => c.env.now = now) (fun _ => .fail)
    (fun c hc => ⟨.asked, hc⟩) (fun c i pending packet hc hi hdue hp => ?_) hnow
  cases hp
  cases hc
  exact ⟨_, rfl, .pubcompResend hi hdue, rfl⟩

end

theorem timeNow_exits : ExitsAt (MoveOr False) Stops timeNow c := .of_ok (timeNow_exec c) (.single .read)

theorem resendPublishes_exits : ExitsAt (MoveOr False) Stops resendPublishes c := by
  refine .bind timeNow_exits fun now c₁ h₁ => ?_
  cases h₁
  refine .bind (pubackResend_exits rfl) fun r c₂ _ => ?_
  cases r with
  | partiallySent => exact .pure _
  | sentAll =>
    refine .bind timeNow_exits fun now c₃ h₃ => ?_
    cases h₃
    exact pubrecResend_exits rfl

theorem resendPubrel_exits : ExitsAt (MoveOr False) Stops resendPubrel c := by
  refine .bind timeNow_exits fun now c₁ h₁ => ?_
  cases h₁
  exact pubcompResend_exits rfl

/-- A whole send pass is made of moves, and it panics only on an entry without unique id. -/
theorem sendPackets_exits : ExitsAt (MoveOr False) Stops sendPackets c := by
  refine .bind sendPendingPubrel_exits fun r c₁ _ => ?_
  refine .bind (SendResult.next_exits fun _ => sendPendingPublishes_exits) fun r c₂ _ => ?_
  refine .bind (SendResult.next_exits fun _ => resendPublishes_exits) fun r c₃ _ => ?_
  exact SendResult.next_exits fun _ => resendPubrel_exits

theorem MoveOr.move {panics : Prop} {c' : Ctx (PublishesInner PARALLEL_PUBLISHES BUFFER TOPIC_SIZE)}
    (h : MoveOr panics c c') : Move c c' := by
  cases h with
  | asked => exact .asked
  | read => exact .read
  | atMostOnce hi hq => exact .atMostOnce hi hq
  | atLeastOnce hi hq hpush => exact .atLeastOnce hi hq hpush
  | exactlyOnce hi hq hpush => exact .exactlyOnce hi hq hpush
  | pubrel hi hu hpush => exact .pubrel hi hu hpush
  | anonymous _ hi hu => exact .anonymous trivial hi hu
  | pubackResend hi hdue => exact .pubackResend hi hdue
  | pubrecResend hi hdue => exact .pubrecResend hi hdue
  | pubcompResend hi hdue => exact .pubcompResend hi hdue

theorem moves_of_exits {α : Type} {m : PublishesCall PARALLEL_PUBLISHES BUFFER TOPIC_SIZE α}
    (h : ExitsAt (MoveOr False) Stops m c) : MovesAt Move m c := by
  refine h.movesAt (fun _ _ => MoveOr.move) fun t x s' hx => ?_
  cases hx with
  | fail e => exact .refl
  | panic hi hu hmove => exact .single hmove

theorem sendPackets_moves : MovesAt Move sendPackets c := moves_of_exits sendPackets_exits

/-! ## Incoming packets -/

theorem processPuback_found {pid : Pid} {i : Nat} {p : AwaitPuback BUFFER TOPIC_SIZE}
    (hpos : c.inner.awaitPuback.position (·.pid == pid) = some i)
    (hi : c.inner.awaitPuback.get? i = some p) :
    (processPuback pid).exec c =
      (.ok (),
        { inner := { c.inner with awaitPuback := c.inner.awaitPuback.removeAt i }
          env := (c.env.freed p.pid).emitted (.publishDone p.publish.uniqueId) }) := by
  simp [processPuback, hpos, hi]

theorem processPuback_unknown {pid : Pid}
    (hpos : c.inner.awaitPuback.position (·.pid == pid) = none) :
    (processPuback pid).exec c = (.error (.fail (.unexpectedAck pid)), c) := by
  simp [processPuback, hpos]

theorem processPuback_cases (c : Ctx (PublishesInner PARALLEL_PUBLISHES BUFFER TOPIC_SIZE))
    (pid : Pid) :
    (∃ i p, c.inner.awaitPuback.get? i = some p ∧ p.pid = pid ∧ (processPuback pid).exec c =
      (.ok (),
        { inner := { c.inner with awaitPuback := c.inner.awaitPuback.removeAt i }
          env := (c.env.freed p.pid).emitted (.publishDone p.publish.uniqueId) })) ∨
      ((∀ p ∈ c.inner.awaitPuback, p.pid ≠ pid) ∧
        (processPuback pid).exec c = (.error (.fail (.unexpectedAck pid)), c)) := by
  cases hpos : c.inner.awaitPuback.position (·.pid == pid) with
  | none =>
    refine .inr ⟨fun p hp => ?_, processPuback_unknown hpos⟩
    simpa using BoundedVec.position_eq_none_iff.mp hpos p hp
  | some i =>
    obtain ⟨p, hi, hp⟩ := BoundedVec.get?_of_position hpos
    exact .inl ⟨i, p, hi, by simpa using hp, processPuback_found hpos hi⟩

theorem processPubcomp_cases (c : Ctx (PublishesInner PARALLEL_PUBLISHES BUFFER TOPIC_SIZE))
    (pid : Pid) :
    (∃ i p, c.inner.awaitPubcomp.get? i = some p ∧ p.pid = pid ∧ (processPubcomp pid).exec c =
      (.ok (),
        { inner := { c.inner with awaitPubcomp := c.inner.awaitPubcomp.removeAt i }
          env := (c.env.freed p.pid).emitted (.publishDone p.uniqueId) })) ∨
      ((∀ p ∈ c.inner.awaitPubcomp, p.pid ≠ pid) ∧
        (processPubcomp pid).exec c = (.error (.fail (.unexpectedAck pid)), c)) := by
  unfold processPubcomp
  rw [exec_get_bind]
  cases hpos : c.inner.awaitPubcomp.position (·.pid == pid) with
  | none =>
    refine .inr ⟨fun p hp => ?_, rfl⟩
    simpa using BoundedVec.position_eq_none_iff.mp hpos p hp
  | some i =>
    obtain ⟨p, hi, hp⟩ := BoundedVec.get?_of_position hpos
    refine .inl ⟨i, p, hi, by simpa using hp, ?_⟩
    simp [hi]

/-- The entry that a PUBREC leaves for the next send pass; it is lost when the queue is full. -/
def pubrecResult (inner : PublishesInner PARALLEL_PUBLISHES BUFFER TOPIC_SIZE)
    (entry : SendPubrel) :
    Except (Stop MqttError) Unit × PublishesInner PARALLEL_PUBLISHES BUFFER TOPIC_SIZE :=
  match inner.sendPubrel.push entry with
  | some queue => (.ok (), { inner with sendPubrel := queue })
  | none => (.error (.fail (.queueFull (.exactlyOnce entry.pid))), inner)

theorem pubrecResult_rest {inner inner' : PublishesInner PARALLEL_PUBLISHES BUFFER TOPIC_SIZE}
    {entry : SendPubrel} {r : Except (Stop MqttError) Unit}
    (h : pubrecResult inner entry = (r, inner')) : ∃ sendPubrel, inner' = { inner with sendPubrel } := by
  unfold pubrecResult at h
  split at h <;> cases h <;> exact ⟨_, rfl⟩

theorem processPubrec_found {pid : Pid} {i : Nat} {p : AwaitPubrec BUFFER TOPIC_SIZE}
    (hpos : c.inner.awaitPubrec.position (·.pid == pid) = some i)
    (hi : c.inner.awaitPubrec.get? i = some p) :
    ∃ r inner, pubrecResult { c.inner with awaitPubrec := c.inner.awaitPubrec.removeAt i }
        ⟨p.pid, some p.publish.uniqueId⟩ = (r, inner) ∧
      (processPubrec pid).exec c = (r, { c with inner }) := by
  refine ⟨_, _, rfl, ?_⟩
  unfold processPubrec
  simp only [exec_get_bind, hpos, hi, exec_unwrap_some_bind, modifyInner_bind_exec, exec_pure_bind,
    SendPubrel.from]
  cases c.inner.sendPubrel.push ⟨p.pid, some p.publish.uniqueId⟩ <;> rfl

theorem processPubrec_unknown {pid : Pid}
    (hpos : c.inner.awaitPubrec.position (·.pid == pid) = none) :
    ∃ r inner, pubrecResult c.inner ⟨pid, none⟩ = (r, inner) ∧
      (processPubrec pid).exec c = (r, { c with inner }) := by
  refine ⟨_, _, rfl, ?_⟩
  unfold processPubrec
  simp only [exec_get_bind, hpos, exec_pure_bind, SendPubrel.newAnonymous]
  cases c.inner.sendPubrel.push ⟨pid, none⟩ <;> rfl

theorem processPubrec_cases (c : Ctx (PublishesInner PARALLEL_PUBLISHES BUFFER TOPIC_SIZE))
    (pid : Pid) :
    (∃ i p r inner, c.inner.awaitPubrec.get? i = some p ∧ p.pid = pid ∧
      pubrecResult { c.inner with awaitPubrec := c.inner.awaitPubrec.removeAt i }
        ⟨pid, some p.publish.uniqueId⟩ = (r, inner) ∧
      (processPubrec pid).exec c = (r, { c with inner })) ∨
    ((∀ p ∈ c.inner.awaitPubrec, p.pid ≠ pid) ∧ ∃ r inner,
      pubrecResult c.inner ⟨pid, none⟩ = (r, inner) ∧
      (processPubrec pid).exec c = (r, { c with inner })) := by
  cases hpos : c.inner.awaitPubrec.position (·.pid == pid) with
  | none =>
    refine .inr ⟨fun p hp => ?_, processPubrec_unknown hpos⟩
    simpa using BoundedVec.position_eq_none_iff.mp hpos p hp
  | some i =>
    obtain ⟨p, hi, hp⟩ := BoundedVec.get?_of_position hpos
    obtain ⟨r, inner, hres, hexec⟩ := processPubrec_found hpos hi
    have hp : p.pid = pid := by simpa using hp
    exact .inl ⟨i, p, r, inner, hi, hp, hp ▸ hres, hexec⟩

end PublishesInner

/-! ## Accepting a publish -/

namespace Publishes

theorem publish_cases (c : Ctx (PublishesInner PARALLEL_PUBLISHES BUFFER TOPIC_SIZE))
    (p : Publish) (uniqueId : UniqueID) :
    (publish p uniqueId).exec c = (.error .parked, c) ∨
      (∃ e, (OwnedPublish.newFromPublish p uniqueId :
          Except MqttError (OwnedPublish BUFFER TOPIC_SIZE)) = .error e ∧
        (publish p uniqueId).exec c = (.error .panic, c)) ∨
      ∃ entry queue, OwnedPublish.newFromPublish p uniqueId = .ok entry ∧
        c.inner.sendPublish.push entry = some queue ∧
        (publish p uniqueId).exec c =
          (.ok (), { c with inner := { c.inner with sendPublish := queue } }) := by
  unfold publish
  rw [exec_get_bind]
  cases hfull : c.inner.sendPublish.isFull with
  | true => exact .inl rfl
  | false =>
    cases hp : (OwnedPublish.newFromPublish p uniqueId :
        Except MqttError (OwnedPublish BUFFER TOPIC_SIZE)) with
    | error e => exact .inr (.inl ⟨e, rfl, rfl⟩)
    | ok entry =>
      obtain ⟨queue, hpush⟩ := BoundedVec.exists_push hfull entry
      refine .inr (.inr ⟨entry, queue, rfl, hpush, ?_⟩)
      simp [hpush]

theorem publish_of_full {c : Ctx (PublishesInner PARALLEL_PUBLISHES BUFFER TOPIC_SIZE)}
    (hfull : c.inner.sendPublish.isFull = true) (p : Publish) (uniqueId : UniqueID) :
    (publish p uniqueId).exec c = (.error .parked, c) := by
  rw [publish, exec_get_bind, if_pos hfull]
  rfl

end Publishes

theorem OwnedPublish.newFromPublish_ok {p : Publish} {uniqueId : UniqueID}
    {entry : OwnedPublish BUFFER TOPIC_SIZE} (h : newFromPublish p uniqueId = .ok entry) :
    entry.uniqueId = uniqueId ∧ entry.borrow = .publish p ∧ entry.qospid = p.qospid := by
  unfold newFromPublish at h
  split at h
  · cases h
  · rename_i topicName ht
    split at h
    · cases h
    · rename_i payload hp
      cases h
      rw [BoundedVec.ofList?_eq_some_iff] at ht hp
      exact ⟨rfl, by simp [borrow, ht, hp], rfl⟩

end EmbeddedMqttc
