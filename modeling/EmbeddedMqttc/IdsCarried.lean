import EmbeddedMqttc.Client
import EmbeddedMqttc.Library.Mirroring
import EmbeddedMqttc.Library.Simulation

/-!
# Unique ids are only carried

No component looks at a unique id: when every id is replaced by its image under a map, a call does the
same with the images. So the numbers of the requests, which are history, have no influence on what the
client does.
-/

namespace EmbeddedMqttc

open Prog Run EmbeddedMqttc.Comp

variable {QUEUE BUFFER TOPIC : Nat}

/-! ## The state with other ids -/

def MqttEvent.rename (f : UniqueID → UniqueID) : MqttEvent → MqttEvent
  | .publishDone id => .publishDone (f id)
  | .subscribeDone id result => .subscribeDone (f id) result
  | .unsubscribeDone id => .unsubscribeDone (f id)

def Written.rename (f : UniqueID → UniqueID) (w : Written) : Written :=
  { w with request := w.request.map f }

def Env.rename (f : UniqueID → UniqueID) (e : Env) : Env :=
  { e with
    outgoing := e.outgoing.map (·.rename f)
    written := e.written.map (·.rename f)
    events := e.events.map (·.rename f) }

def OwnedPublish.rename (f : UniqueID → UniqueID) (p : OwnedPublish BUFFER TOPIC) :
    OwnedPublish BUFFER TOPIC := { p with uniqueId := f p.uniqueId }

def AwaitPuback.rename (f : UniqueID → UniqueID) (a : AwaitPuback BUFFER TOPIC) :
    AwaitPuback BUFFER TOPIC := { a with publish := a.publish.rename f }

def AwaitPubrec.rename (f : UniqueID → UniqueID) (a : AwaitPubrec BUFFER TOPIC) :
    AwaitPubrec BUFFER TOPIC := { a with publish := a.publish.rename f }

def AwaitPubcomp.rename (f : UniqueID → UniqueID) (a : AwaitPubcomp) : AwaitPubcomp :=
  { a with uniqueId := f a.uniqueId }

def SendPubrel.rename (f : UniqueID → UniqueID) (a : SendPubrel) : SendPubrel :=
  { a with uniqueId := a.uniqueId.map f }

def PublishesInner.rename (f : UniqueID → UniqueID) (q : PublishesInner QUEUE BUFFER TOPIC) :
    PublishesInner QUEUE BUFFER TOPIC where
  sendPublish := q.sendPublish.map (·.rename f)
  awaitPuback := q.awaitPuback.map (·.rename f)
  awaitPubrec := q.awaitPubrec.map (·.rename f)
  sendPubrel := q.sendPubrel.map (·.rename f)
  awaitPubcomp := q.awaitPubcomp.map (·.rename f)

def SubRequest.rename (f : UniqueID → UniqueID) (r : SubRequest TOPIC) : SubRequest TOPIC :=
  { r with uniqueId := f r.uniqueId }

def AwaitAck.rename (f : UniqueID → UniqueID) (a : AwaitAck TOPIC) : AwaitAck TOPIC :=
  { a with request := a.request.rename f }

def SubsInner.rename (f : UniqueID → UniqueID) (q : SubsInner TOPIC QUEUE) :
    SubsInner TOPIC QUEUE where
  sendRequest := q.sendRequest.map (·.rename f)
  awaitAck := q.awaitAck.map (·.rename f)

/-- Without what is left of the scripts of the last call. -/
def Env.unscripted (e : Env) : Env := { e with answers := [], ticks := [] }

/-- A map of environments that replaces the ids by their images under `f`, as far as a call can tell
that asks neither the connection nor the clock. -/
structure Env.Renames (f : UniqueID → UniqueID) (E : Env → Env) : Prop where
  pool : ∀ e, (E e).pool = e.pool
  setPool : ∀ e pool, E { e with pool } = { E e with pool }
  freed : ∀ e pid, E (e.freed pid) = (E e).freed pid
  emitted : ∀ e event, E (e.emitted event) = (E e).emitted (event.rename f)

theorem Env.renames_rename (f : UniqueID → UniqueID) : Env.Renames f (Env.rename f) where
  pool _ := rfl
  setPool _ _ := rfl
  freed _ _ := rfl
  emitted e event := by simp [Env.rename, Env.emitted]

theorem Env.renames_unscripted (f : UniqueID → UniqueID) :
    Env.Renames f fun e => (e.rename f).unscripted where
  pool _ := rfl
  setPool _ _ := rfl
  freed _ _ := rfl
  emitted e event := by simp [Env.rename, Env.emitted, Env.unscripted]

/-- The image of a component and of its surroundings. -/
def Ctx.map {σ τ : Type} (g : σ → τ) (E : Env → Env) (c : Ctx σ) : Ctx τ := ⟨g c.inner, E c.env⟩

/-! ## The primitives -/

section

variable {σ α : Type} {g : σ → σ} {E : Env → Env} {f : UniqueID → UniqueID}

theorem modifyInner_mirrors {h h' : σ → σ} (hh : ∀ s, h' (g s) = g (h s)) :
    Mirrors (Ctx.map g E) id (modifyInner h) (modifyInner h') :=
  .modify fun c => congrArg (fun s => (⟨s, E c.env⟩ : Ctx σ)) (hh c.inner)

theorem freePid_mirrors (hE : Env.Renames f E) (pid : Pid) :
    Mirrors (Ctx.map g E) id (freePid pid) (freePid pid) :=
  .modify fun c => congrArg (fun e => (⟨g c.inner, e⟩ : Ctx σ)) (hE.freed c.env pid).symm

theorem publishEvent_mirrors (hE : Env.Renames f E) (event : MqttEvent) :
    Mirrors (Ctx.map g E) id (publishEvent event) (publishEvent (event.rename f)) :=
  .modify fun c => congrArg (fun e => (⟨g c.inner, e⟩ : Ctx σ)) (hE.emitted c.env event).symm

theorem nextPid_mirrors (hE : Env.Renames f E) :
    Mirrors (Ctx.map g E) id (nextPid : Comp σ Pid) nextPid := by
  refine .get_bind fun c => .bind (f := id) (.unwrap ?_) fun r => ?_
  · exact (congrArg PidPool.nextPid (hE.pool c.env)).trans (Option.map_id_apply ..).symm
  · obtain ⟨pid, pool⟩ := r
    refine .bind (f := id) (.modify fun c => ?_) fun _ => .pure pid rfl
    exact congrArg (fun e => (⟨g c.inner, e⟩ : Ctx σ)) (hE.setPool c.env pool).symm

theorem timeNow_mirrors : Mirrors (Ctx.map g (Env.rename f)) id (timeNow : Comp σ Instant) timeNow :=
  .bind (f := id) (.modify fun _ => rfl) fun _ => .get_bind fun _ => .pure _ rfl

theorem Env.rename_wrote (e : Env) (w : Written) :
    (e.rename f).wrote (w.rename f) = (e.wrote w).rename f := by
  simp [Env.rename, Env.wrote, Env.asked]

theorem tryWritePacket_mirrors (w : Written) :
    Mirrors (Ctx.map g (Env.rename f)) id (tryWritePacket w : Comp σ Bool)
      (tryWritePacket (w.rename f)) := by
  refine .get_bind fun c => ?_
  have hanswers : (Ctx.map g (Env.rename f) c).env.answers = c.env.answers := rfl
  rw [hanswers]
  rcases c.env.answers.head?.getD (.ok false) with e | _ | _
  · exact .bind (f := id) (.modify fun _ => rfl) fun _ => .fail e
  · exact .bind (f := id) (.modify fun _ => rfl) fun _ => .pure false rfl
  · refine .bind (f := id) (.modify fun c => ?_) fun _ => .pure true rfl
    exact congrArg (fun e => (⟨g c.inner, e⟩ : Ctx σ)) (Env.rename_wrote c.env w)

theorem SendResult.next_mirrors {m m' : Comp σ SendResult} (r : SendResult)
    (h : Mirrors (Ctx.map g E) id m m') : Mirrors (Ctx.map g E) id (r.next m) (r.next m') := by
  unfold SendResult.next
  split
  · exact .bind h fun _ => .pure _ rfl
  · exact .pure _ rfl

end

/-! ## Retransmission -/

namespace Resend

variable {σ α : Type} {n : Nat} {g : σ → σ} {h : α → α} {f : UniqueID → UniqueID}
  {r : Resend σ α n}

/-- The entries of a queue that is written again carry the ids that are replaced. -/
structure Carries (r : Resend σ α n) (g : σ → σ) (h : α → α) (f : UniqueID → UniqueID) : Prop where
  queue : ∀ q, r.queue (g q) = (r.queue q).map h
  modify : ∀ F F' q, (∀ v, F' (v.map h) = (F v).map h) → r.modify F' (g q) = g (r.modify F q)
  sentAt : ∀ a, r.sentAt (h a) = r.sentAt a
  packet : ∀ a, r.packet (h a) = r.packet a
  request : ∀ a, r.request (h a) = f (r.request a)
  mark : ∀ t a, r.mark t (h a) = h (r.mark t a)

theorem Carries.turn (hr : r.Carries g h f) (now : Instant) {stamp : Comp σ Instant}
    (hstamp : Mirrors (Ctx.map g (Env.rename f)) id stamp stamp) (i : Nat) :
    Mirrors (Ctx.map g (Env.rename f)) id (r.turn now stamp i) (r.turn now stamp i) := by
  refine .get_bind fun c => .bind (f := h) (.unwrap ?_) fun pending => ?_
  · exact (congrArg (·.get? i) (hr.queue c.inner)).trans (BoundedVec.get?_map ..)
  · have hdue : r.due now (h pending) ↔ r.due now pending := by rw [due, due, hr.sentAt]
    by_cases hd : r.due now pending
    · rw [if_pos hd, if_pos (hdue.mpr hd), hr.packet]
      cases r.packet pending with
      | error e => exact .fail e
      | ok packet =>
        rw [hr.request]
        refine .bind (f := id) (tryWritePacket_mirrors ⟨packet, some (r.request pending)⟩) fun sent => ?_
        cases sent with
        | false => exact .pure _ rfl
        | true =>
          refine .bind (f := id) hstamp fun t => .bind (f := id) ?_ fun _ => .pure _ rfl
          exact modifyInner_mirrors fun q =>
            hr.modify _ _ q fun v => BoundedVec.modifyAt_map h (hr.mark t) v i
    · rw [if_neg hd, if_neg (mt hdue.mp hd)]
      exact .pure _ rfl

theorem Carries.scan (hr : r.Carries g h f) (now : Instant) {stamp : Comp σ Instant}
    (hstamp : Mirrors (Ctx.map g (Env.rename f)) id stamp stamp) :
    Mirrors (Ctx.map g (Env.rename f)) id (r.scan now stamp) (r.scan now stamp) := by
  have hlen (q : σ) : (r.queue (g q)).len = (r.queue q).len := by
    rw [hr.queue, BoundedVec.len_map]
  refine .get_bind fun c => ?_
  rw [show (r.queue (Ctx.map g (Env.rename f) c).inner).len = (r.queue c.inner).len from hlen c.inner]
  refine .whileIndex _ (fun c => ?_) (fun i => hr.turn now hstamp i) _ _
  exact hlen c.inner

end Resend

/-! ## Outgoing publishes -/

section

variable {f : UniqueID → UniqueID} {E : Env → Env}

namespace PublishesInner

/-- A call of `Publishes` on states in which the ids are replaced. -/
abbrev Carried {α : Type} (f : UniqueID → UniqueID) (E : Env → Env)
    (m m' : PublishesCall QUEUE BUFFER TOPIC α) : Prop :=
  Mirrors (Ctx.map (PublishesInner.rename f) E) id m m'

theorem awaitPuback_from_mirrors (p : OwnedPublish BUFFER TOPIC) :
    Mirrors (Ctx.map (PublishesInner.rename f) (Env.rename f)) (AwaitPuback.rename f)
      (AwaitPuback.from p : PublishesCall QUEUE BUFFER TOPIC (AwaitPuback BUFFER TOPIC))
      (AwaitPuback.from (p.rename f)) := by
  obtain ⟨dup, qospid, retain, topicName, payload, uniqueId⟩ := p
  cases qospid with
  | atLeastOnce pid => exact .bind timeNow_mirrors fun _ => .pure _ rfl
  | _ => exact .abort

theorem awaitPubrec_from_mirrors (p : OwnedPublish BUFFER TOPIC) :
    Mirrors (Ctx.map (PublishesInner.rename f) (Env.rename f)) (AwaitPubrec.rename f)
      (AwaitPubrec.from p : PublishesCall QUEUE BUFFER TOPIC (AwaitPubrec BUFFER TOPIC))
      (AwaitPubrec.from (p.rename f)) := by
  obtain ⟨dup, qospid, retain, topicName, payload, uniqueId⟩ := p
  cases qospid with
  | exactlyOnce pid => exact .bind timeNow_mirrors fun _ => .pure _ rfl
  | _ => exact .abort

theorem awaitPubcomp_from_mirrors (a : SendPubrel) :
    Mirrors (Ctx.map (PublishesInner.rename f) (Env.rename f)) (AwaitPubcomp.rename f)
      (AwaitPubcomp.from a : PublishesCall QUEUE BUFFER TOPIC AwaitPubcomp)
      (AwaitPubcomp.from (a.rename f)) :=
  .bind timeNow_mirrors fun _ => .bind (f := f) (.unwrap rfl) fun _ => .pure _ rfl

theorem hasSpace_rename (q : PublishesInner QUEUE BUFFER TOPIC) (qos : QoS) :
    (q.rename f).hasSpace qos = q.hasSpace qos := by
  cases qos with
  | atMostOnce => rfl
  | atLeastOnce | exactlyOnce => simp [hasSpace, rename]

theorem afterPublish_carried (p : OwnedPublish BUFFER TOPIC) :
    Carried f (Env.rename f) (afterPublish p : PublishesCall QUEUE BUFFER TOPIC PUnit)
      (afterPublish (p.rename f)) := by
  unfold afterPublish
  have hqos : (p.rename f).qospid = p.qospid := rfl
  rw [hqos]
  cases p.qospid.qos with
  | atMostOnce => exact publishEvent_mirrors (Env.renames_rename f) _
  | atLeastOnce =>
    refine .bind (awaitPuback_from_mirrors p) fun entry => .get_bind fun c => ?_
    refine .bind (f := BoundedVec.map (AwaitPuback.rename f)) (.unwrap ?_) fun queue => ?_
    · exact BoundedVec.push_map (AwaitPuback.rename f) c.inner.awaitPuback entry
    · exact modifyInner_mirrors fun _ => rfl
  | exactlyOnce =>
    refine .bind (awaitPubrec_from_mirrors p) fun entry => .get_bind fun c => ?_
    refine .bind (f := BoundedVec.map (AwaitPubrec.rename f)) (.unwrap ?_) fun queue => ?_
    · exact BoundedVec.push_map (AwaitPubrec.rename f) c.inner.awaitPubrec entry
    · exact modifyInner_mirrors fun _ => rfl

theorem sendPendingPublishesTurn_carried (i : Nat) :
    Carried f (Env.rename f)
      (sendPendingPublishesTurn i : PublishesCall QUEUE BUFFER TOPIC (SendResult ⊕ Nat))
      (sendPendingPublishesTurn i) := by
  refine .get_bind fun c => .bind (f := OwnedPublish.rename f) (.unwrap ?_) fun current => ?_
  · exact BoundedVec.get?_map (OwnedPublish.rename f) c.inner.sendPublish i
  · have hspace : (Ctx.map (rename f) (Env.rename f) c).inner.hasSpace (current.rename f).qospid.qos =
        c.inner.hasSpace current.qospid.qos := hasSpace_rename c.inner _
    rw [hspace]
    split
    · refine .bind (f := id)
        (tryWritePacket_mirrors ⟨current.borrow, some current.uniqueId⟩) fun sent => ?_
      cases sent with
      | false => exact .pure _ rfl
      | true =>
        refine .bind (f := id) (modifyInner_mirrors fun q => ?_) fun _ =>
          .bind (f := id) (afterPublish_carried { current with dup := true }) fun _ => .pure _ rfl
        simp [rename, BoundedVec.removeAt_map]
    · exact .pure _ rfl

theorem sendPendingPublishes_carried : Carried f (Env.rename f)
    (sendPendingPublishes : PublishesCall QUEUE BUFFER TOPIC SendResult) sendPendingPublishes := by
  refine .get_bind fun c => ?_
  have hlen (q : PublishesInner QUEUE BUFFER TOPIC) :
      (q.rename f).sendPublish.len = q.sendPublish.len := BoundedVec.len_map ..
  rw [show (Ctx.map (rename f) (Env.rename f) c).inner.sendPublish.len = c.inner.sendPublish.len from
    hlen c.inner]
  refine .whileIndex _ (fun c => ?_) sendPendingPublishesTurn_carried _ _
  exact hlen c.inner

theorem sendPendingPubrelTurn_carried (i : Nat) :
    Carried f (Env.rename f)
      (sendPendingPubrelTurn i : PublishesCall QUEUE BUFFER TOPIC (SendResult ⊕ Nat))
      (sendPendingPubrelTurn i) := by
  refine .get_bind fun c => .bind (f := SendPubrel.rename f) (.unwrap ?_) fun current => ?_
  · exact BoundedVec.get?_map (SendPubrel.rename f) c.inner.sendPubrel i
  · have hfull : (Ctx.map (rename f) (Env.rename f) c).inner.awaitPubcomp.isFull =
        c.inner.awaitPubcomp.isFull := BoundedVec.isFull_map ..
    rw [hfull]
    split
    · refine .bind (f := id)
        (tryWritePacket_mirrors ⟨.pubrel current.pid, current.uniqueId⟩) fun sent => ?_
      cases sent with
      | false => exact .pure _ rfl
      | true =>
        refine .bind (f := id) (modifyInner_mirrors fun q => ?_) fun _ =>
          .bind (awaitPubcomp_from_mirrors current) fun entry => .get_bind fun c => ?_
        · simp [rename, BoundedVec.removeAt_map]
        refine .bind (f := BoundedVec.map (AwaitPubcomp.rename f)) (.unwrap ?_) fun queue =>
          .bind (f := id) (modifyInner_mirrors fun _ => rfl) fun _ => .pure _ rfl
        exact BoundedVec.push_map (AwaitPubcomp.rename f) c.inner.awaitPubcomp entry
    · exact .pure _ rfl

theorem sendPendingPubrel_carried : Carried f (Env.rename f)
    (sendPendingPubrel : PublishesCall QUEUE BUFFER TOPIC SendResult) sendPendingPubrel := by
  refine .get_bind fun c => ?_
  have hlen (q : PublishesInner QUEUE BUFFER TOPIC) :
      (q.rename f).sendPubrel.len = q.sendPubrel.len := BoundedVec.len_map ..
  rw [show (Ctx.map (rename f) (Env.rename f) c).inner.sendPubrel.len = c.inner.sendPubrel.len from
    hlen c.inner]
  refine .whileIndex _ (fun c => ?_) sendPendingPubrelTurn_carried _ _
  exact hlen c.inner

theorem pubackResend_carries :
    (pubackResend : Resend (PublishesInner QUEUE BUFFER TOPIC) _ _).Carries (rename f)
      (AwaitPuback.rename f) f where
  queue _ := rfl
  modify F F' q hF := by simp [pubackResend, rename, hF]
  sentAt _ := rfl
  packet _ := rfl
  request _ := rfl
  mark _ _ := rfl

theorem pubrecResend_carries :
    (pubrecResend : Resend (PublishesInner QUEUE BUFFER TOPIC) _ _).Carries (rename f)
      (AwaitPubrec.rename f) f where
  queue _ := rfl
  modify F F' q hF := by simp [pubrecResend, rename, hF]
  sentAt _ := rfl
  packet _ := rfl
  request _ := rfl
  mark _ _ := rfl

theorem pubcompResend_carries :
    (pubcompResend : Resend (PublishesInner QUEUE BUFFER TOPIC) _ _).Carries (rename f)
      (AwaitPubcomp.rename f) f where
  queue _ := rfl
  modify F F' q hF := by simp [pubcompResend, rename, hF]
  sentAt _ := rfl
  packet _ := rfl
  request _ := rfl
  mark _ _ := rfl

theorem resendPublishes_carried : Carried f (Env.rename f)
    (resendPublishes : PublishesCall QUEUE BUFFER TOPIC SendResult) resendPublishes := by
  refine .bind timeNow_mirrors fun now => .bind (f := id)
    (pubackResend_carries.scan now (.pure now rfl)) fun r => ?_
  cases r with
  | partiallySent => exact .pure _ rfl
  | sentAll =>
    exact .bind timeNow_mirrors fun now => pubrecResend_carries.scan now (.pure now rfl)

theorem resendPubrel_carried : Carried f (Env.rename f)
    (resendPubrel : PublishesCall QUEUE BUFFER TOPIC SendResult) resendPubrel :=
  .bind timeNow_mirrors fun now => pubcompResend_carries.scan now (.pure now rfl)

theorem sendPackets_carried : Carried f (Env.rename f)
    (sendPackets : PublishesCall QUEUE BUFFER TOPIC SendResult) sendPackets :=
  .bind sendPendingPubrel_carried fun r =>
    .bind (SendResult.next_mirrors r sendPendingPublishes_carried) fun r =>
      .bind (SendResult.next_mirrors r resendPublishes_carried) fun r =>
        SendResult.next_mirrors r resendPubrel_carried

theorem processPuback_carried (hE : Env.Renames f E) (pid : Pid) :
    Carried f E (processPuback pid : PublishesCall QUEUE BUFFER TOPIC Unit) (processPuback pid) := by
  refine .get_bind fun c => ?_
  have hposition : (Ctx.map (rename f) E c).inner.awaitPuback.position (·.pid == pid) =
      c.inner.awaitPuback.position (·.pid == pid) := BoundedVec.position_map _ (fun _ => rfl) _
  rw [hposition]
  cases c.inner.awaitPuback.position (·.pid == pid) with
  | none => exact .fail _
  | some index =>
    refine .bind (f := AwaitPuback.rename f) (.unwrap (BoundedVec.get?_map ..)) fun publish => ?_
    refine .bind (f := id) (modifyInner_mirrors fun q => ?_) fun _ =>
      .bind (f := id) (freePid_mirrors hE _) fun _ => publishEvent_mirrors hE _
    simp [rename, BoundedVec.removeAt_map]

theorem processPubrec_carried (pid : Pid) :
    Carried f E (processPubrec pid : PublishesCall QUEUE BUFFER TOPIC Unit) (processPubrec pid) := by
  refine .get_bind fun c => ?_
  have hposition : (Ctx.map (rename f) E c).inner.awaitPubrec.position (·.pid == pid) =
      c.inner.awaitPubrec.position (·.pid == pid) := BoundedVec.position_map _ (fun _ => rfl) _
  rw [hposition]
  have hpush (a : SendPubrel) :
      (Ctx.map (rename f) E c).inner.sendPubrel.push (a.rename f) =
        (c.inner.sendPubrel.push a).map (·.map (SendPubrel.rename f)) := BoundedVec.push_map ..
  cases c.inner.awaitPubrec.position (·.pid == pid) with
  | none =>
    refine .bind (f := SendPubrel.rename f) (.pure _ rfl) fun sendPubrel => ?_
    simp only [hpush]
    cases c.inner.sendPubrel.push sendPubrel with
    | none => exact .fail _
    | some queue => exact modifyInner_mirrors fun _ => rfl
  | some index =>
    refine .bind (f := AwaitPubrec.rename f) (.unwrap (BoundedVec.get?_map ..)) fun a =>
      .bind (f := id) (modifyInner_mirrors fun q => ?_) fun _ =>
        .bind (f := SendPubrel.rename f) (.pure _ rfl) fun sendPubrel => ?_
    · simp [rename, BoundedVec.removeAt_map]
    · simp only [hpush]
      cases c.inner.sendPubrel.push sendPubrel with
      | none => exact .fail _
      | some queue => exact modifyInner_mirrors fun _ => rfl

theorem processPubcomp_carried (hE : Env.Renames f E) (pid : Pid) :
    Carried f E (processPubcomp pid : PublishesCall QUEUE BUFFER TOPIC Unit) (processPubcomp pid) := by
  refine .get_bind fun c => ?_
  have hposition : (Ctx.map (rename f) E c).inner.awaitPubcomp.position (·.pid == pid) =
      c.inner.awaitPubcomp.position (·.pid == pid) := BoundedVec.position_map _ (fun _ => rfl) _
  rw [hposition]
  cases c.inner.awaitPubcomp.position (·.pid == pid) with
  | none => exact .fail _
  | some index =>
    refine .bind (f := AwaitPubcomp.rename f) (.unwrap (BoundedVec.get?_map ..)) fun publish => ?_
    refine .bind (f := id) (modifyInner_mirrors fun q => ?_) fun _ =>
      .bind (f := id) (freePid_mirrors hE _) fun _ => publishEvent_mirrors hE _
    simp [rename, BoundedVec.removeAt_map]

end PublishesInner

namespace Publishes

open PublishesInner

theorem processIncomingPacket_carried (hE : Env.Renames f E) (packet : Packet) :
    Carried f E (processIncomingPacket packet : PublishesCall QUEUE BUFFER TOPIC Unit)
      (processIncomingPacket packet) := by
  cases packet with
  | puback pid => exact processPuback_carried hE pid
  | pubrec pid => exact processPubrec_carried pid
  | pubcomp pid => exact processPubcomp_carried hE pid
  | _ => exact .pure _ rfl

theorem newFromPublish_rename (message : Publish) (uniqueId : UniqueID) :
    (OwnedPublish.newFromPublish message (f uniqueId) : Except MqttError (OwnedPublish BUFFER TOPIC)) =
      (OwnedPublish.newFromPublish message uniqueId).map (OwnedPublish.rename f) := by
  unfold OwnedPublish.newFromPublish
  cases (BoundedVec.ofList? message.topicName : Option (BoundedVec UInt8 TOPIC)) with
  | none => rfl
  | some topicName =>
    cases (BoundedVec.ofList? message.payload : Option (BoundedVec UInt8 BUFFER)) with
    | none => rfl
    | some payload => rfl

theorem publish_carried (message : Publish) (uniqueId : UniqueID) :
    Carried f E (publish message uniqueId : PublishesCall QUEUE BUFFER TOPIC Unit)
      (publish message (f uniqueId)) := by
  refine .get_bind fun c => ?_
  have hfull : (Ctx.map (PublishesInner.rename f) E c).inner.sendPublish.isFull =
      c.inner.sendPublish.isFull := BoundedVec.isFull_map ..
  rw [hfull]
  split
  · exact .park
  · rw [newFromPublish_rename]
    cases (OwnedPublish.newFromPublish message uniqueId :
      Except MqttError (OwnedPublish BUFFER TOPIC)) with
    | error e => exact .abort
    | ok entry =>
      refine modifyInner_mirrors fun q => ?_
      simp only [PublishesInner.rename, BoundedVec.push_map]
      cases q.sendPublish.push entry <;> rfl

end Publishes

theorem newPublish_mirrors {σ : Type} {g : σ → σ} (hE : Env.Renames f E)
    (topic payload : List UInt8) (qos : QoS) (retain : Bool) :
    Mirrors (Ctx.map g E) id (State.newPublish topic payload qos retain : Comp σ Publish)
      (State.newPublish topic payload qos retain) := by
  refine .bind (f := id) ?_ fun _ => .pure _ rfl
  cases qos with
  | atMostOnce => exact .pure _ rfl
  | atLeastOnce | exactlyOnce => exact .bind (nextPid_mirrors hE) fun _ => .pure _ rfl

/-! ## Subscribe and unsubscribe requests -/

namespace SubsInner

/-- A call of `Subs` on states in which the ids are replaced. -/
abbrev Carried {α : Type} (f : UniqueID → UniqueID) (E : Env → Env)
    (m m' : SubsCall TOPIC QUEUE α) : Prop :=
  Mirrors (Ctx.map (SubsInner.rename f) E) id m m'

section

variable (topicPathCapacity : Nat)

theorem sendRequestsTurn_carried : Carried f (Env.rename f)
    (sendRequestsTurn topicPathCapacity : SubsCall TOPIC QUEUE (SendResult ⊕ Nat))
    (sendRequestsTurn topicPathCapacity) := by
  refine .get_bind fun c => .bind
    (f := Prod.map (SubRequest.rename f) (BoundedVec.map (SubRequest.rename f)))
    (.unwrap (BoundedVec.popFront_map _ c.inner.sendRequest)) fun r => ?_
  obtain ⟨request, sendRequest⟩ := r
  have hfull : (Ctx.map (rename f) (Env.rename f) c).inner.awaitAck.isFull =
      c.inner.awaitAck.isFull := BoundedVec.isFull_map ..
  have hpacket : (request.rename f).createPacket topicPathCapacity =
      request.createPacket topicPathCapacity := rfl
  simp only [Prod.map_apply, hfull, hpacket]
  split
  · exact .pure _ rfl
  · cases request.createPacket topicPathCapacity with
    | error e => exact .fail e
    | ok packet =>
      refine .bind (f := id) (tryWritePacket_mirrors ⟨packet, some request.uniqueId⟩) fun sent => ?_
      cases sent with
      | false => exact .pure _ rfl
      | true =>
        refine .bind (f := id) (modifyInner_mirrors fun _ => rfl) fun _ =>
          .bind (f := AwaitAck.rename f) (.bind timeNow_mirrors fun _ => .pure _ rfl) fun entry =>
            .bind (f := id) (modifyInner_mirrors fun q => ?_) fun _ => .pure _ rfl
        simp only [rename, BoundedVec.push_map]
        cases q.awaitAck.push entry <;> rfl

theorem sendRequests_carried : Carried f (Env.rename f)
    (sendRequests topicPathCapacity : SubsCall TOPIC QUEUE SendResult)
    (sendRequests topicPathCapacity) := by
  refine .get_bind fun c => ?_
  have hlen (q : SubsInner TOPIC QUEUE) : (q.rename f).sendRequest.len = q.sendRequest.len :=
    BoundedVec.len_map ..
  rw [show (Ctx.map (rename f) (Env.rename f) c).inner.sendRequest.len = c.inner.sendRequest.len from
    hlen c.inner]
  refine .whileIndex _ (fun c => ?_) (fun _ => sendRequestsTurn_carried topicPathCapacity) _ _
  exact hlen c.inner

theorem requestResend_carries :
    (requestResend topicPathCapacity : Resend (SubsInner TOPIC QUEUE) _ _).Carries (rename f)
      (AwaitAck.rename f) f where
  queue _ := rfl
  modify F F' q hF := by simp [requestResend, rename, hF]
  sentAt _ := rfl
  packet _ := rfl
  request _ := rfl
  mark _ _ := rfl

theorem send_carried : Carried f (Env.rename f)
    (send topicPathCapacity : SubsCall TOPIC QUEUE SendResult) (send topicPathCapacity) := by
  refine .bind (sendRequests_carried topicPathCapacity) fun r => SendResult.next_mirrors r ?_
  exact .bind timeNow_mirrors fun now =>
    (requestResend_carries topicPathCapacity).scan now timeNow_mirrors

end

theorem checkSuback_carried (hE : Env.Renames f E) (qos : QoS) (uniqueId : UniqueID)
    (returnCodes : List SubscribeReturnCodes) (topics : List (BoundedVec UInt8 TOPIC)) :
    Carried f E (checkSuback qos uniqueId returnCodes topics : SubsCall TOPIC QUEUE PUnit)
      (checkSuback qos (f uniqueId) returnCodes topics) := by
  induction returnCodes generalizing topics with
  | nil => exact publishEvent_mirrors hE _
  | cons code codes ih =>
    cases topics with
    | nil => cases code <;> exact publishEvent_mirrors hE _
    | cons topic topics =>
      cases code with
      | success _ => exact ih topics
      | failure => exact publishEvent_mirrors hE _

theorem onSuback_carried (hE : Env.Renames f E) (suback : Suback) :
    Carried f E (onSuback suback : SubsCall TOPIC QUEUE PUnit) (onSuback suback) := by
  refine .get_bind fun c => ?_
  have hposition : (Ctx.map (rename f) E c).inner.awaitAck.position
        (fun a => a.request.pid == suback.pid && !a.request.requestType.isUnsub) =
      c.inner.awaitAck.position fun a => a.request.pid == suback.pid && !a.request.requestType.isUnsub :=
    BoundedVec.position_map _ (fun _ => rfl) _
  rw [hposition]
  cases c.inner.awaitAck.position
    fun a => a.request.pid == suback.pid && !a.request.requestType.isUnsub with
  | none => exact .pure _ rfl
  | some index =>
    refine .bind (f := AwaitAck.rename f) (.unwrap (BoundedVec.get?_map ..)) fun entry =>
      .bind (f := id) (freePid_mirrors hE _) fun _ =>
        .bind (f := id) (modifyInner_mirrors fun q => ?_) fun _ => ?_
    · simp [rename, BoundedVec.removeAt_map]
    · have htype : (entry.rename f).request.requestType = entry.request.requestType := rfl
      rw [htype]
      cases entry.request.requestType with
      | subscribe qos => exact checkSuback_carried hE _ _ _ _
      | unsubscribe => exact .abort

theorem onUnsuback_carried (hE : Env.Renames f E) (pid : Pid) :
    Carried f E (onUnsuback pid : SubsCall TOPIC QUEUE PUnit) (onUnsuback pid) := by
  refine .get_bind fun c => ?_
  have hposition : (Ctx.map (rename f) E c).inner.awaitAck.position
        (fun a => a.request.pid == pid && a.request.requestType.isUnsub) =
      c.inner.awaitAck.position fun a => a.request.pid == pid && a.request.requestType.isUnsub :=
    BoundedVec.position_map _ (fun _ => rfl) _
  rw [hposition]
  cases c.inner.awaitAck.position fun a => a.request.pid == pid && a.request.requestType.isUnsub with
  | none => exact .pure _ rfl
  | some index =>
    refine .bind (f := AwaitAck.rename f) (.unwrap (BoundedVec.get?_map ..)) fun entry =>
      .bind (f := id) (modifyInner_mirrors fun q => ?_) fun _ =>
        .bind (f := id) (freePid_mirrors hE _) fun _ => publishEvent_mirrors hE _
    simp [rename, BoundedVec.removeAt_map]

theorem addRequest_carried (hE : Env.Renames f E) (requestType : RequestType)
    (topics : List (List UInt8)) (uniqueId : UniqueID) :
    Carried f E (addRequest requestType topics uniqueId : SubsCall TOPIC QUEUE PUnit)
      (addRequest requestType topics (f uniqueId)) := by
  refine .get_bind fun c => ?_
  have hfull : (Ctx.map (rename f) E c).inner.sendRequest.isFull = c.inner.sendRequest.isFull :=
    BoundedVec.isFull_map ..
  rw [hfull]
  split
  · exact .park
  · refine .bind (f := id) (.unwrap (Option.map_id_apply ..).symm) fun topics =>
      .bind (f := id) (.unwrap (Option.map_id_apply ..).symm) fun topics =>
        .bind (nextPid_mirrors hE) fun pid => modifyInner_mirrors fun q => ?_
    have hpush := BoundedVec.push_map (SubRequest.rename f) q.sendRequest
      { topics, requestType, pid, uniqueId }
    have hentry : SubRequest.rename f { topics, requestType, pid, uniqueId } =
      { topics, requestType, pid, uniqueId := f uniqueId } := rfl
    rw [hentry] at hpush
    simp only [rename, id, hpush]
    cases q.sendRequest.push { topics, requestType, pid, uniqueId } <;> rfl

end SubsInner

/-! ## Incoming publishes and the keep alive -/

section

variable {α : Type}

/-- A call that has no ids in its own state. -/
abbrev Unconcerned {σ : Type} (E : Env → Env) (m : Comp σ α) : Prop := Mirrors (Ctx.map id E) id m m

namespace Receives

theorem writeTurn_unconcerned
    {queue : ReceivesInner QUEUE → BoundedVec Pid QUEUE} {packet : Pid → Packet}
    {sent : Nat → Pid → Receives BUFFER TOPIC QUEUE → Receives BUFFER TOPIC QUEUE} (i : Nat) :
    Unconcerned (Env.rename f) (writeTurn queue packet sent i) := by
  refine .get_bind fun c => .bind (f := id) (.unwrap (Option.map_id_apply ..).symm) fun pid =>
    .bind (f := id) (tryWritePacket_mirrors ⟨packet pid, none⟩) fun written => ?_
  cases written with
  | false => exact .pure _ rfl
  | true => exact .bind (f := id) (modifyInner_mirrors fun _ => rfl) fun _ => .pure _ rfl

theorem sendPubrecTurn_unconcerned (i : Nat) : Unconcerned (Env.rename f)
    (sendPubrecTurn i : ReceivesCall BUFFER TOPIC QUEUE (SendResult ⊕ Nat)) := by
  refine .get_bind fun c => ?_
  have hinner : (Ctx.map id (Env.rename f) c).inner = c.inner := rfl
  rw [hinner]
  split
  · exact .pure _ rfl
  · exact writeTurn_unconcerned i

theorem sendPackets_unconcerned : Unconcerned (Env.rename f)
    (sendPackets : ReceivesCall BUFFER TOPIC QUEUE SendResult) := by
  refine .get_bind fun c => .bind (f := id)
    (.whileIndex _ (fun _ => rfl) writeTurn_unconcerned _ _) fun r => ?_
  cases r with
  | partiallySent => exact .pure _ rfl
  | sentAll =>
    refine .bind (f := id) (.whileIndex _ (fun _ => rfl) sendPubrecTurn_unconcerned _ _) fun r => ?_
    cases r with
    | partiallySent => exact .pure _ rfl
    | sentAll => exact .whileIndex _ (fun _ => rfl) writeTurn_unconcerned _ _

theorem deliver_unconcerned (publish : Publish) : Unconcerned E
    (deliver publish : ReceivesCall BUFFER TOPIC QUEUE PUnit) := by
  unfold deliver
  split
  · exact .fail _
  · exact modifyInner_mirrors fun _ => rfl

theorem onPublish_unconcerned (publish : Publish) : Unconcerned E
    (onPublish publish : ReceivesCall BUFFER TOPIC QUEUE PUnit) := by
  unfold onPublish
  split
  · exact deliver_unconcerned publish
  · refine .bind (f := id) (deliver_unconcerned publish) fun _ => .get_bind fun c => ?_
    have hinner : (Ctx.map id E c).inner = c.inner := rfl
    rw [hinner]
    split
    · exact .fail _
    · exact modifyInner_mirrors fun _ => rfl
  · refine .bind (f := id) (.unwrap (Option.map_id_apply ..).symm) fun pid => .get_bind fun c => ?_
    have hinner : (Ctx.map id E c).inner = c.inner := rfl
    simp only [hinner, id]
    split
    · exact .fail _
    · refine .bind (f := id) (modifyInner_mirrors fun _ => rfl) fun _ => ?_
      split
      · exact deliver_unconcerned publish
      · exact .pure _ rfl

theorem onPubrel_unconcerned (pid : Pid) : Unconcerned E
    (onPubrel pid : ReceivesCall BUFFER TOPIC QUEUE PUnit) := by
  refine .get_bind fun c => ?_
  have hinner : (Ctx.map id E c).inner = c.inner := rfl
  rw [hinner]
  split
  · exact .fail _
  · refine .bind (f := id) (modifyInner_mirrors fun _ => rfl) fun _ => ?_
    split
    · exact modifyInner_mirrors fun _ => rfl
    · exact .pure _ rfl

end Receives

namespace PingStateInner

theorem onPingResponse_unconcerned : Unconcerned (Env.rename f) onPingResponse :=
  .bind timeNow_mirrors fun _ => modifyInner_mirrors fun _ => rfl

theorem request_unconcerned (lastSuccess now : Instant) :
    Unconcerned (Env.rename f) (request lastSuccess now) := by
  refine .bind (f := id) (tryWritePacket_mirrors ⟨.pingreq, none⟩) fun written => ?_
  cases written with
  | false => exact .pure _ rfl
  | true => exact .bind (f := id) (modifyInner_mirrors fun _ => rfl) fun _ => .pure _ rfl

theorem send_unconcerned : Unconcerned (Env.rename f) send := by
  rw [send_eq]
  refine .bind (f := id) timeNow_mirrors fun now => .get_bind fun c => ?_
  have hinner : (Ctx.map id (Env.rename f) c).inner = c.inner := rfl
  simp only [hinner, id]
  split
  · exact request_unconcerned _ _
  · exact .pure _ rfl

end PingStateInner

end

end

/-! ## The client -/

/-- Another number of the id, for the same request. -/
def UniqueID.renumber (g : Nat → Nat) (u : UniqueID) : UniqueID := { u with id := g u.id }

namespace Client

def renumber (g : Nat → Nat) (s : Client QUEUE BUFFER TOPIC) : Client QUEUE BUFFER TOPIC :=
  { s with
    publishes := s.publishes.rename (UniqueID.renumber g)
    subscribes := s.subscribes.rename (UniqueID.renumber g)
    env := s.env.rename (UniqueID.renumber g)
    waiting := s.waiting.map fun w => (w.1, w.2.renumber g) }

def Label.renumber (g : Nat → Nat) : Label → Label
  | .publish topic payload qos retain id => .publish topic payload qos retain (g id)
  | .subscribe topics qos id => .subscribe topics qos (g id)
  | .unsubscribe topics id => .unsubscribe topics (g id)
  | l => l

variable {g : Nat → Nat} {s t : Client QUEUE BUFFER TOPIC} {topicPathCapacity : Nat} {α : Type}

/-- What a call returns, and the state that it leaves with the other numbers. -/
def renumbered (g : Nat → Nat) (o : Except (Stop MqttError) α × Client QUEUE BUFFER TOPIC) :
    Except (Stop MqttError) α × Client QUEUE BUFFER TOPIC := (o.1, o.2.renumber g)

theorem callPublishes_renumber {m m' : PublishesCall QUEUE BUFFER TOPIC α}
    (hm : PublishesInner.Carried (UniqueID.renumber g) (Env.rename (UniqueID.renumber g)) m m') :
    (s.renumber g).callPublishes m' = renumbered g (s.callPublishes m) := by
  have hexec := hm.exec_eq ⟨s.publishes, s.env⟩
  have hcall := congrArg (fun r : Except (Stop MqttError) α × Ctx _ =>
    (r.1, { s.renumber g with publishes := r.2.inner, env := r.2.env })) hexec
  exact hcall

theorem callSubscribes_renumber {m m' : SubsCall TOPIC QUEUE α}
    (hm : SubsInner.Carried (UniqueID.renumber g) (Env.rename (UniqueID.renumber g)) m m') :
    (s.renumber g).callSubscribes m' = renumbered g (s.callSubscribes m) := by
  have hexec := hm.exec_eq ⟨s.subscribes, s.env⟩
  have hcall := congrArg (fun r : Except (Stop MqttError) α × Ctx _ =>
    (r.1, { s.renumber g with subscribes := r.2.inner, env := r.2.env })) hexec
  exact hcall

theorem callReceives_renumber {m : ReceivesCall BUFFER TOPIC QUEUE α}
    (hm : Unconcerned (Env.rename (UniqueID.renumber g)) m) :
    (s.renumber g).callReceives m = renumbered g (s.callReceives m) := by
  have hexec := hm.exec_eq ⟨s.receives, s.env⟩
  have hcall := congrArg (fun r : Except (Stop MqttError) α × Ctx _ =>
    (r.1, { s.renumber g with receives := r.2.inner, env := r.2.env })) hexec
  exact hcall

theorem callPing_renumber {m : Comp PingStateInner α}
    (hm : Unconcerned (Env.rename (UniqueID.renumber g)) m) :
    (s.renumber g).callPing m = renumbered g (s.callPing m) := by
  have hexec := hm.exec_eq ⟨s.ping, s.env⟩
  have hcall := congrArg (fun r : Except (Stop MqttError) α × Ctx _ =>
    (r.1, { s.renumber g with ping := r.2.inner, env := r.2.env })) hexec
  exact hcall

theorem processPacket_renumber (s : Client QUEUE BUFFER TOPIC) (packet : Packet) :
    (s.renumber g).processPacket packet = renumbered g (s.processPacket packet) := by
  have hE := Env.renames_rename (UniqueID.renumber g)
  have hpublishes (packet : Packet) := callPublishes_renumber (s := s)
    (Publishes.processIncomingPacket_carried hE packet)
  cases packet with
  | publish message =>
    have hcall := callReceives_renumber (s := s) (g := g) (Receives.onPublish_unconcerned message)
    exact hcall
  | puback pid => exact hpublishes (.puback pid)
  | pubrec pid => exact hpublishes (.pubrec pid)
  | pubcomp pid => exact hpublishes (.pubcomp pid)
  | pubrel pid =>
    have hcall := callReceives_renumber (s := s) (g := g) (Receives.onPubrel_unconcerned pid)
    exact hcall
  | suback response =>
    have hcall := callSubscribes_renumber (s := s) (SubsInner.onSuback_carried hE response)
    exact hcall
  | unsuback pid =>
    have hcall := callSubscribes_renumber (s := s) (SubsInner.onUnsuback_carried hE pid)
    exact hcall
  | pingresp => exact callPing_renumber PingStateInner.onPingResponse_unconcerned
  | _ => rfl

theorem addRequest_renumber (s : Client QUEUE BUFFER TOPIC) (requestType : RequestType)
    (topics : List (List UInt8)) (id : Nat) :
    (s.renumber g).addRequest (SubsInner.addRequest requestType topics) (g id) =
      renumbered g (s.addRequest (SubsInner.addRequest requestType topics) id) := by
  have hcall := callSubscribes_renumber (s := s) (g := g)
    (SubsInner.addRequest_carried (Env.renames_rename _) requestType topics ⟨id, s.issued.length⟩)
  have hadd := congrArg (fun o : Except (Stop MqttError) PUnit × Client QUEUE BUFFER TOPIC =>
    (o.1, { o.2 with issued := s.issued ++ [none] })) hcall
  exact hadd

theorem autoSubscribeChunk_renumber (s : Client QUEUE BUFFER TOPIC) :
    (s.renumber g).autoSubscribeChunk = renumbered g s.autoSubscribeChunk := by
  have hcall := callPublishes_renumber (s := s) (g := g) (nextPid_mirrors (Env.renames_rename _))
  have hauto : (s.renumber g).autoSubscribe = s.autoSubscribe := rfl
  unfold autoSubscribeChunk
  rw [hauto, hcall]
  cases s.autoSubscribe with
  | some pid => rfl
  | none =>
    obtain ⟨x | pid, t⟩ := s.callPublishes nextPid
    · rfl
    · rfl

theorem publish_renumber (s : Client QUEUE BUFFER TOPIC) (topic payload : List UInt8) (qos : QoS)
    (retain : Bool) (id : Nat) : (s.renumber g).publish topic payload qos retain (g id) =
      renumbered g (s.publish topic payload qos retain id) := by
  have hcall := callPublishes_renumber (s := s) (g := g)
    (newPublish_mirrors (Env.renames_rename _) topic payload qos retain)
  unfold publish
  rw [hcall]
  obtain ⟨x | message, t⟩ := s.callPublishes (State.newPublish topic payload qos retain)
  · rfl
  · simp [renumbered, renumber, UniqueID.renumber]

theorem poll_renumber (s : Client QUEUE BUFFER TOPIC) (i : Nat) :
    (s.renumber g).poll i = renumbered g (s.poll i) := by
  have hwaiting : (s.renumber g).waiting[i]? =
    (s.waiting[i]?).map fun w => (w.1, w.2.renumber g) := List.getElem?_map
  unfold poll
  rw [hwaiting]
  cases s.waiting[i]? with
  | none => rfl
  | some w =>
    have hcall := callPublishes_renumber (s := s) (g := g) (Publishes.publish_carried w.1 w.2)
    simp only [Option.map_some, hcall]
    obtain ⟨x | _, t⟩ := s.callPublishes (Publishes.publish w.1 w.2)
    · cases x with
      | parked => rfl
      | fail | panic => simp [renumbered, renumber, List.eraseIdx_map]
    · simp [renumbered, renumber, List.eraseIdx_map]

theorem outcome_renumber (g : Nat → Nat) (s : Client QUEUE BUFFER TOPIC) (l : Label) :
    (s.renumber g).outcome topicPathCapacity (l.renumber g) =
      renumbered g (s.outcome topicPathCapacity l) := by
  have hE := Env.renames_rename (UniqueID.renumber g)
  have hsent {o o' : Except (Stop MqttError) SendResult × Client QUEUE BUFFER TOPIC}
      (h : o' = renumbered g o) : sent o' = renumbered g (sent o) := by rw [h]; rfl
  cases l with
  | publish topic payload qos retain id => exact s.publish_renumber topic payload qos retain id
  | poll i => exact s.poll_renumber i
  | drop i => simp [outcome, Label.renumber, renumbered, renumber, List.eraseIdx_map]
  | subscribe topics qos id => exact s.addRequest_renumber (.subscribe qos) topics id
  | unsubscribe topics id => exact s.addRequest_renumber .unsubscribe topics id
  | autoSubscribe => exact s.autoSubscribeChunk_renumber
  | autoSubscribed | wait => rfl
  | sendPublishes answers ticks =>
    exact hsent (callPublishes_renumber (s := s.scripted answers ticks)
      PublishesInner.sendPackets_carried)
  | sendReceives answers =>
    exact hsent (callReceives_renumber (s := s.scripted answers []) Receives.sendPackets_unconcerned)
  | sendSubscribes answers ticks =>
    exact hsent (callSubscribes_renumber (s := s.scripted answers ticks)
      (SubsInner.send_carried topicPathCapacity))
  | sendPing answers ticks =>
    exact hsent (callPing_renumber (s := s.scripted answers ticks) PingStateInner.send_unconcerned)
  | receive packet => exact s.processPacket_renumber packet

/-- The numbers of the unique ids have no influence: with other numbers, which need not be different
from each other, every call returns the same and every run is the same up to the numbers. -/
theorem ids_carried (g : Nat → Nat) (s : Client QUEUE BUFFER TOPIC) (l : Label) (ls : List Label) :
    ((s.renumber g).outcome topicPathCapacity (l.renumber g)).1 = (s.outcome topicPathCapacity l).1 ∧
      run (next · topicPathCapacity) (s.renumber g) (ls.map (Label.renumber g)) =
        (run (next · topicPathCapacity) s ls).map (renumber g) := by
  refine ⟨?_, run_map (fun s l => ?_) s ls⟩
  · rw [outcome_renumber]
    rfl
  · rw [next, next, outcome_renumber]
    rfl

end Client

end EmbeddedMqttc
