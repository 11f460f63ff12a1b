import EmbeddedMqttc.Component

/-!
# Incoming publishes

`Receives` of `src/state/receives2.rs`: a received publish is handed to the application, and the
pids of the acknowledgements that are still to be written wait in `send_puback` (QoS 1) and in
`send_pubrec` and `send_pubcomp` (QoS 2). `await_pubrel` holds the pids whose PUBREC was written.
-/

namespace EmbeddedMqttc

open Prog EmbeddedMqttc.Comp

structure ReceivedPublish (BUFFER TOPIC_SIZE : Nat) where
  dup : Bool
  qospid : QosPid
  retain : Bool
  topicName : BoundedVec UInt8 TOPIC_SIZE
  payload : BoundedVec UInt8 BUFFER
  deriving DecidableEq, Repr

variable {BUFFER TOPIC_SIZE PARALLEL_RECEIVES : Nat}

def ReceivedPublish.tryFrom (value : Publish) :
    Except MqttError (ReceivedPublish BUFFER TOPIC_SIZE) :=
  match BoundedVec.ofList? value.topicName with
  | none => .error .topicSizeError
  | some topicName =>
    match BoundedVec.ofList? value.payload with
    | none => .error .bufferTooSmall
    | some payload =>
      .ok
        { dup := value.dup
          qospid := value.qospid
          retain := value.retain
          topicName
          payload }

structure ReceivesInner (PARALLEL_RECEIVES : Nat) where
  sendPuback : BoundedVec Pid PARALLEL_RECEIVES
  sendPubrec : BoundedVec Pid PARALLEL_RECEIVES
  awaitPubrel : BoundedVec Pid PARALLEL_RECEIVES
  sendPubcomp : BoundedVec Pid PARALLEL_RECEIVES
  deriving DecidableEq, Repr

/-- `queue` is the history of the channel to the application: what has been delivered to it. -/
structure Receives (BUFFER TOPIC_SIZE PARALLEL_RECEIVES : Nat) extends
    ReceivesInner PARALLEL_RECEIVES where
  queue : List (ReceivedPublish BUFFER TOPIC_SIZE)
  deriving DecidableEq, Repr

abbrev ReceivesCall (BUFFER TOPIC_SIZE PARALLEL_RECEIVES : Nat) :=
  Comp (Receives BUFFER TOPIC_SIZE PARALLEL_RECEIVES)

/-- For QoS 2: whether there is an entry with this pid in one of the queues. -/
def ReceivesInner.isDup (self : ReceivesInner PARALLEL_RECEIVES) (pid : Pid) : Bool :=
  self.awaitPubrel.toList.any (· == pid) || self.sendPubrec.toList.any (· == pid) ||
    self.sendPubcomp.toList.any (· == pid)

namespace Receives

def new : Receives BUFFER TOPIC_SIZE PARALLEL_RECEIVES where
  sendPuback := .empty
  sendPubrec := .empty
  awaitPubrel := .empty
  sendPubcomp := .empty
  queue := []

/-- `publisher.publish(publish.try_into()?)`. -/
def deliver (publish : Publish) : ReceivesCall BUFFER TOPIC_SIZE PARALLEL_RECEIVES PUnit :=
  match ReceivedPublish.tryFrom publish with
  | .error e => fail e
  | .ok received => modifyInner fun r => { r with queue := r.queue ++ [received] }

def onQos2Publish (publish : Publish) :
    ReceivesCall BUFFER TOPIC_SIZE PARALLEL_RECEIVES PUnit := do
  let pid ← unwrap publish.qospid.pid
  let c ← get
  match c.inner.sendPubrec.push pid with
  | none => fail (.queueFull (.atLeastOnce pid))
  | some queue => do
    modifyInner fun r => { r with sendPubrec := queue }
    if !c.inner.isDup pid then deliver publish

def onPublish (publish : Publish) : ReceivesCall BUFFER TOPIC_SIZE PARALLEL_RECEIVES PUnit :=
  match publish.qospid with
  | .atMostOnce => deliver publish
  | .atLeastOnce pid => do
    deliver publish
    let c ← get
    match c.inner.sendPuback.push pid with
    | none => fail (.queueFull (.atLeastOnce pid))
    | some queue => modifyInner fun r => { r with sendPuback := queue }
  | .exactlyOnce _ => onQos2Publish publish

def onPubrel (pid : Pid) : ReceivesCall BUFFER TOPIC_SIZE PARALLEL_RECEIVES PUnit := do
  let c ← get
  match c.inner.sendPubcomp.push pid with
  | none => fail (.queueFull (.atLeastOnce pid))
  | some queue => do
    modifyInner fun r => { r with sendPubcomp := queue }
    match c.inner.awaitPubrel.position (· == pid) with
    | some index => modifyInner fun r => { r with awaitPubrel := r.awaitPubrel.removeAt index }
    | none => pure ⟨⟩

/-! ## Sending -/

/-- One turn of a loop that writes the acknowledgements of one queue. It goes on at the next index
although the removal has moved the later entries up. -/
def writeTurn (queue : ReceivesInner PARALLEL_RECEIVES → BoundedVec Pid PARALLEL_RECEIVES)
    (packet : Pid → Packet)
    (sent : Nat → Pid → Receives BUFFER TOPIC_SIZE PARALLEL_RECEIVES →
      Receives BUFFER TOPIC_SIZE PARALLEL_RECEIVES) (i : Nat) :
    ReceivesCall BUFFER TOPIC_SIZE PARALLEL_RECEIVES (SendResult ⊕ Nat) := do
  let c ← get
  let pid ← unwrap ((queue c.inner.toReceivesInner).get? i)
  if ← tryWritePacket ⟨packet pid, none⟩ then do
    modifyInner (sent i pid)
    return .inr (i + 1)
  else return .inl .partiallySent

def sendPubackTurn : Nat → ReceivesCall BUFFER TOPIC_SIZE PARALLEL_RECEIVES (SendResult ⊕ Nat) :=
  writeTurn (·.sendPuback) .puback fun i _ r => { r with sendPuback := r.sendPuback.removeAt i }

/-- The loop over `send_pubrec` ends when `await_pubrel` is full. -/
def sendPubrecTurn (i : Nat) :
    ReceivesCall BUFFER TOPIC_SIZE PARALLEL_RECEIVES (SendResult ⊕ Nat) := do
  let c ← get
  if c.inner.awaitPubrel.isFull then return .inl .sentAll
  else
    writeTurn (·.sendPubrec) .pubrec (fun i pid r =>
      { r with
        sendPubrec := r.sendPubrec.removeAt i
        awaitPubrel := (r.awaitPubrel.push pid).getD r.awaitPubrel }) i

def sendPubcompTurn : Nat → ReceivesCall BUFFER TOPIC_SIZE PARALLEL_RECEIVES (SendResult ⊕ Nat) :=
  writeTurn (·.sendPubcomp) .pubcomp fun i _ r =>
    { r with sendPubcomp := r.sendPubcomp.removeAt i }

def sendPackets : ReceivesCall BUFFER TOPIC_SIZE PARALLEL_RECEIVES SendResult := do
  let c ← get
  match ← whileIndex (fun c => c.inner.sendPuback.len) sendPubackTurn .sentAll
      c.inner.sendPuback.len 0 with
  | .partiallySent => return .partiallySent
  | .sentAll =>
    match ← whileIndex (fun c => c.inner.sendPubrec.len) sendPubrecTurn .sentAll
        c.inner.sendPubrec.len 0 with
    | .partiallySent => return .partiallySent
    | .sentAll =>
      whileIndex (fun c => c.inner.sendPubcomp.len) sendPubcompTurn .sentAll
        c.inner.sendPubcomp.len 0

/-! ## What the calls do -/

/-- A move of a send pass. -/
inductive Move : Ctx (Receives BUFFER TOPIC_SIZE PARALLEL_RECEIVES) →
    Ctx (Receives BUFFER TOPIC_SIZE PARALLEL_RECEIVES) → Prop
  | asked : Move c { c with env := c.env.asked }
  | puback (hi : c.inner.sendPuback.get? i = some pid) :
      Move c
        { inner := { c.inner with sendPuback := c.inner.sendPuback.removeAt i }
          env := c.env.wrote ⟨.puback pid, none⟩ }
  | pubrec (hi : c.inner.sendPubrec.get? i = some pid)
      (hpush : c.inner.awaitPubrel.push pid = some pubrels) :
      Move c
        { inner :=
            { c.inner with
              sendPubrec := c.inner.sendPubrec.removeAt i
              awaitPubrel := pubrels }
          env := c.env.wrote ⟨.pubrec pid, none⟩ }
  | pubcomp (hi : c.inner.sendPubcomp.get? i = some pid) :
      Move c
        { inner := { c.inner with sendPubcomp := c.inner.sendPubcomp.removeAt i }
          env := c.env.wrote ⟨.pubcomp pid, none⟩ }

variable {c c' : Ctx (Receives BUFFER TOPIC_SIZE PARALLEL_RECEIVES)}

theorem writeTurn_exits {queue : ReceivesInner PARALLEL_RECEIVES → BoundedVec Pid PARALLEL_RECEIVES}
    {packet : Pid → Packet} {sent : Nat → Pid → Receives BUFFER TOPIC_SIZE PARALLEL_RECEIVES →
      Receives BUFFER TOPIC_SIZE PARALLEL_RECEIVES} {i : Nat}
    (hi : i < (queue c.inner.toReceivesInner).len)
    (hsent : ∀ pid, (queue c.inner.toReceivesInner).get? i = some pid →
      Move c { inner := sent i pid c.inner, env := c.env.wrote ⟨packet pid, none⟩ }) :
    ExitsAt Move Fails (writeTurn queue packet sent i) c := by
  obtain ⟨pid, hget⟩ : ∃ pid, (queue c.inner.toReceivesInner).get? i = some pid :=
    ⟨_, List.getElem?_eq_getElem hi⟩
  apply ExitsAt.get_bind
  apply ExitsAt.unwrap_bind hget
  refine tryWritePacket_bind_exits .asked Fails.fail (.pure _) fun hw => ?_
  refine .of_ok (a := .inr (i + 1)) ?_ (.single (hsent pid hget))
  simp [exec_bind_ok hw]

/-- A whole send pass is made of moves, and it does not panic. -/
theorem sendPackets_exits :
    ExitsAt Move Fails sendPackets c := by
  apply ExitsAt.get_bind
  refine .bind (.whileIndex (J := fun _ => True) (fun i c _ hi => ?_) (fun _ _ _ _ _ _ => trivial)
    _ _ trivial) fun r c₁ _ => ?_
  · exact writeTurn_exits hi fun pid h => .puback h
  cases r with
  | partiallySent => exact .pure _
  | sentAll =>
    dsimp only
    refine .bind (.whileIndex (J := fun _ => True) (fun i c _ hi => ?_)
      (fun _ _ _ _ _ _ => trivial) _ _ trivial) fun r c₂ _ => ?_
    · apply ExitsAt.get_bind
      split
      · exact .pure _
      · rename_i hroom
        apply writeTurn_exits hi
        intro pid hget
        obtain ⟨pubrels, hpush⟩ := BoundedVec.exists_push (Bool.not_eq_true _ ▸ hroom) pid
        rw [hpush]
        exact .pubrec hget hpush
    cases r with
    | partiallySent => exact .pure _
    | sentAll =>
      refine .whileIndex (J := fun _ => True) (fun i c _ hi => ?_) (fun _ _ _ _ _ _ => trivial)
        _ _ trivial
      exact writeTurn_exits hi fun pid h => .pubcomp h

theorem sendPackets_moves : MovesAt Move sendPackets c := Fails.movesAt sendPackets_exits

theorem deliver_cases (c : Ctx (Receives BUFFER TOPIC_SIZE PARALLEL_RECEIVES)) (p : Publish) :
    (∃ m, ReceivedPublish.tryFrom p = .ok m ∧ (deliver p).exec c =
      (.ok ⟨⟩, { c with inner := { c.inner with queue := c.inner.queue ++ [m] } })) ∨
    ∃ e, ReceivedPublish.tryFrom p = (.error e : Except MqttError (ReceivedPublish BUFFER TOPIC_SIZE)) ∧
      (deliver p).exec c = (.error (.fail e), c) := by
  unfold deliver
  cases h : (ReceivedPublish.tryFrom p : Except MqttError (ReceivedPublish BUFFER TOPIC_SIZE)) with
  | ok m => exact .inl ⟨m, rfl, rfl⟩
  | error e => exact .inr ⟨e, rfl, rfl⟩

theorem isDup_eq_false_iff {self : ReceivesInner PARALLEL_RECEIVES} {pid : Pid} :
    self.isDup pid = false ↔
      pid ∉ self.awaitPubrel ∧ pid ∉ self.sendPubrec ∧ pid ∉ self.sendPubcomp := by
  simp only [ReceivesInner.isDup, Bool.or_eq_false_iff, List.any_eq_false, beq_iff_eq, and_assoc]
  refine and_congr ?_ (and_congr ?_ ?_) <;>
    exact ⟨fun h hm => h pid hm rfl, fun h q hq he => h (he ▸ hq)⟩

/-- A QoS 2 publish that was processed has been queued for a PUBREC, and it has been delivered if its
pid was in no queue. -/
theorem onPublish_exactlyOnce_ok {p : Publish} {pid : Pid} (hq : p.qospid = .exactlyOnce pid)
    (h : (onPublish p).exec c = (.ok ⟨⟩, c')) :
    ∃ pubrecs, c.inner.sendPubrec.push pid = some pubrecs ∧
      ((c.inner.isDup pid = true ∧
          c' = { c with inner := { c.inner with sendPubrec := pubrecs } }) ∨
        (c.inner.isDup pid = false ∧ ∃ m, ReceivedPublish.tryFrom p = .ok m ∧
          c' =
            { c with
              inner :=
                { c.inner with
                  sendPubrec := pubrecs
                  queue := c.inner.queue ++ [m] } })) := by
  unfold onPublish onQos2Publish at h
  simp only [hq, QosPid.pid, exec_unwrap_some_bind, exec_get_bind] at h
  cases hpush : c.inner.sendPubrec.push pid with
  | none =>
    rw [hpush] at h
    cases h
  | some pubrecs =>
    refine ⟨pubrecs, rfl, ?_⟩
    simp only [hpush, modifyInner_bind_exec] at h
    cases hdup : c.inner.isDup pid with
    | true =>
      rw [hdup] at h
      cases h
      exact .inl ⟨rfl, rfl⟩
    | false =>
      simp only [hdup, Bool.not_false, if_true] at h
      rcases deliver_cases { c with inner := { c.inner with sendPubrec := pubrecs } } p with
        ⟨m, hm, hd⟩ | ⟨e, -, hd⟩
      · cases hd.symm.trans h
        exact .inr ⟨rfl, m, hm, rfl⟩
      · cases hd.symm.trans h

/-- A publish of another QoS leaves the queues of QoS 2 as they are. -/
theorem onPublish_other_ok {p : Publish} (hq : ∀ pid, p.qospid ≠ .exactlyOnce pid)
    (h : (onPublish p).exec c = (.ok ⟨⟩, c')) :
    c'.env = c.env ∧ c'.inner.sendPubrec = c.inner.sendPubrec ∧
      c'.inner.awaitPubrel = c.inner.awaitPubrel ∧ c'.inner.sendPubcomp = c.inner.sendPubcomp := by
  unfold onPublish at h
  cases hqos : p.qospid with
  | exactlyOnce pid => exact absurd hqos (hq pid)
  | atMostOnce =>
    rw [hqos] at h
    rcases deliver_cases c p with ⟨m, -, hd⟩ | ⟨e, -, hd⟩
    · cases hd.symm.trans h
      exact ⟨rfl, rfl, rfl, rfl⟩
    · cases hd.symm.trans h
  | atLeastOnce pid =>
    simp only [hqos] at h
    rcases deliver_cases c p with ⟨m, -, hd⟩ | ⟨e, -, hd⟩
    · rw [exec_bind_ok hd, exec_get_bind] at h
      cases hpush : c.inner.sendPuback.push pid with
      | none => simp [hpush] at h
      | some pubacks =>
        simp only [hpush] at h
        cases h
        exact ⟨rfl, rfl, rfl, rfl⟩
    · rw [exec_bind_error hd] at h
      cases h

theorem onPubrel_ok {pid : Pid} (h : (onPubrel pid).exec c = (.ok ⟨⟩, c')) :
    ∃ pubcomps, c.inner.sendPubcomp.push pid = some pubcomps ∧
      ((pid ∉ c.inner.awaitPubrel ∧
          c' = { c with inner := { c.inner with sendPubcomp := pubcomps } }) ∨
        ∃ i, c.inner.awaitPubrel.get? i = some pid ∧
          c' =
            { c with
              inner :=
                { c.inner with
                  sendPubcomp := pubcomps
                  awaitPubrel := c.inner.awaitPubrel.removeAt i } }) := by
  unfold onPubrel at h
  rw [exec_get_bind] at h
  cases hpush : c.inner.sendPubcomp.push pid with
  | none =>
    rw [hpush] at h
    cases h
  | some pubcomps =>
    refine ⟨pubcomps, rfl, ?_⟩
    simp only [hpush, modifyInner_bind_exec] at h
    cases hpos : c.inner.awaitPubrel.position (· == pid) with
    | none =>
      rw [hpos] at h
      cases h
      refine .inl ⟨fun hm => ?_, rfl⟩
      simpa using BoundedVec.position_eq_none_iff.mp hpos pid hm
    | some i =>
      rw [hpos] at h
      cases h
      obtain ⟨q, hi, hq⟩ := BoundedVec.get?_of_position hpos
      cases (beq_iff_eq.mp hq)
      exact .inr ⟨i, hi, rfl⟩

/-- Processing a packet leaves the surroundings as they are, whatever comes of it. -/
theorem onPublish_env (c : Ctx (Receives BUFFER TOPIC_SIZE PARALLEL_RECEIVES)) (p : Publish) :
    ((onPublish p).exec c).2.env = c.env := by
  have hdeliver (c : Ctx (Receives BUFFER TOPIC_SIZE PARALLEL_RECEIVES)) :
      ((deliver p).exec c).2.env = c.env := by
    rcases deliver_cases c p with ⟨m, -, h⟩ | ⟨e, -, h⟩ <;> rw [h]
  unfold onPublish
  cases hq : p.qospid with
  | atMostOnce => exact hdeliver c
  | atLeastOnce pid =>
    dsimp only
    rcases deliver_cases c p with ⟨m, -, h⟩ | ⟨e, -, h⟩
    · rw [exec_bind_ok h, exec_get_bind]
      split <;> rfl
    · rw [exec_bind_error h]
  | exactlyOnce pid =>
    dsimp only
    unfold onQos2Publish
    rw [hq, QosPid.pid, exec_unwrap_some_bind, exec_get_bind]
    split
    · rfl
    · rw [modifyInner_bind_exec]
      split
      · exact hdeliver _
      · rfl

theorem onPubrel_env (c : Ctx (Receives BUFFER TOPIC_SIZE PARALLEL_RECEIVES)) (pid : Pid) :
    ((onPubrel pid).exec c).2.env = c.env := by
  unfold onPubrel
  rw [exec_get_bind]
  split
  · rfl
  · rw [modifyInner_bind_exec]
    split <;> rfl

end Receives

end EmbeddedMqttc
