import EmbeddedMqttc.PublishSpec
import EmbeddedMqttc.Library.Run

/-!
# Every accepted publish is accounted for

The calls of `Publishes` in any order, with any packets and any answers of the connection. An
accepted publish is in one of the queues or has been reported as done, except after a PUBREC for it
that arrived while `send_pubrel` was full: `process_pubrec` takes the entry out of `await_pubrec`
before it finds no room for the next one.
-/

namespace EmbeddedMqttc

open Prog EmbeddedMqttc.Comp Run

variable {PARALLEL_PUBLISHES BUFFER TOPIC_SIZE : Nat}

/-- How many publishes with the unique id `u` the queues hold. -/
def PublishesInner.queued (q : PublishesInner PARALLEL_PUBLISHES BUFFER TOPIC_SIZE)
    (u : UniqueID) : Nat :=
  q.sendPublish.countKey (·.uniqueId) u + q.awaitPuback.countKey (·.publish.uniqueId) u +
    q.awaitPubrec.countKey (·.publish.uniqueId) u +
    q.sendPubrel.countKey (·.uniqueId) (some u) + q.awaitPubcomp.countKey (·.uniqueId) u

namespace Publishes

/-- How many publishes with the unique id `u` are in the queues or have been reported as done. -/
def held (c : Ctx (PublishesInner PARALLEL_PUBLISHES BUFFER TOPIC_SIZE)) (u : UniqueID) : Nat :=
  c.inner.queued u + c.env.events.count (.publishDone u)

/-! ## The calls -/

inductive Op where
  | publish (publish : Publish) (uniqueId : UniqueID)
  | sendPackets (answers : List (Except MqttError Bool)) (ticks : List Duration)
  | processIncomingPacket (packet : Packet)

/-- The unique ids that a call with the given outcome has accepted. -/
def Op.accepts : Op → Except (Stop MqttError) Unit → List UniqueID
  | .publish _ uniqueId, .ok () => [uniqueId]
  | _, _ => []

/-- A component and, as history, the unique ids of the publishes that it has accepted. -/
structure Books (PARALLEL_PUBLISHES BUFFER TOPIC_SIZE : Nat) where
  ctx : Ctx (PublishesInner PARALLEL_PUBLISHES BUFFER TOPIC_SIZE)
  accepted : List UniqueID
  deriving DecidableEq

namespace Books

def new : Books PARALLEL_PUBLISHES BUFFER TOPIC_SIZE where
  ctx := { inner := .new, env := .new }
  accepted := []

variable (s : Books PARALLEL_PUBLISHES BUFFER TOPIC_SIZE)

/-- The outcome of a call and the state that it leaves, whether it returns, fails, panics or
waits. -/
def outcome : Op → Except (Stop MqttError) Unit ×
    Ctx (PublishesInner PARALLEL_PUBLISHES BUFFER TOPIC_SIZE)
  | .publish publish uniqueId => (Publishes.publish publish uniqueId).exec s.ctx
  | .sendPackets answers ticks =>
    ((fun _ => ()) <$> Publishes.sendPackets).exec
      { s.ctx with env := { s.ctx.env with answers, ticks } }
  | .processIncomingPacket packet => (Publishes.processIncomingPacket packet).exec s.ctx

def next (op : Op) : Option (Books PARALLEL_PUBLISHES BUFFER TOPIC_SIZE) :=
  some
    { ctx := (s.outcome op).2
      accepted := s.accepted ++ op.accepts (s.outcome op).1 }

/-- Each accepted publish is in exactly one place: there are as many entries and `PublishDone`
events for a unique id as publishes were accepted with it. -/
def Accounted : Prop := ∀ u, held s.ctx u = s.accepted.count u

/-- A call that rejects an acknowledgement leaves the queues as they were. -/
def RejectsCleanly (op : Op) : Prop :=
  ∀ packet e, op = .processIncomingPacket packet → (s.outcome op).1 = .error (.fail e) →
    (s.outcome op).2.inner = s.ctx.inner

/-- No PUBREC for a pending publish is processed while `send_pubrel` is full. -/
def Room : Op → Prop
  | .processIncomingPacket (.pubrec pid) =>
    (∃ p ∈ s.ctx.inner.awaitPubrec, p.pid = pid) → s.ctx.inner.sendPubrel.isFull = false
  | _ => True

end Books

/-! ## What the calls keep -/

variable {c c' : Ctx (PublishesInner PARALLEL_PUBLISHES BUFFER TOPIC_SIZE)}

theorem held_move (h : PublishesInner.Move c c') (u : UniqueID) : held c' u = held c u := by
  cases h with
  | asked | read => rfl
  | atMostOnce hi =>
    have := BoundedVec.countKey_removeAt hi (g := (·.uniqueId)) (k := u)
    simp [held, PublishesInner.queued, List.count_append, List.count_singleton] at this ⊢
    omega
  | atLeastOnce hi hq hpush =>
    have := BoundedVec.countKey_removeAt hi (g := (·.uniqueId)) (k := u)
    have := BoundedVec.countKey_push hpush (g := (·.publish.uniqueId)) (k := u)
    simp only [held, PublishesInner.queued, Env.read_events, Env.wrote_events] at this ⊢
    omega
  | exactlyOnce hi hq hpush =>
    have := BoundedVec.countKey_removeAt hi (g := (·.uniqueId)) (k := u)
    have := BoundedVec.countKey_push hpush (g := (·.publish.uniqueId)) (k := u)
    simp only [held, PublishesInner.queued, Env.read_events, Env.wrote_events] at this ⊢
    omega
  | pubrel hi hu hpush =>
    have := BoundedVec.countKey_removeAt hi (g := (·.uniqueId)) (k := some u)
    have := BoundedVec.countKey_push hpush (g := (·.uniqueId)) (k := u)
    simp only [hu, Option.some.injEq, held, PublishesInner.queued, Env.read_events,
      Env.wrote_events] at *
    omega
  | anonymous _ hi hu =>
    have := BoundedVec.countKey_removeAt hi (g := (·.uniqueId)) (k := some u)
    simp only [hu, reduceCtorEq, if_false, held, PublishesInner.queued, Env.read_events,
      Env.wrote_events] at *
    omega
  | pubackResend | pubrecResend | pubcompResend =>
    simp [held, PublishesInner.queued, BoundedVec.countKey_modifyAt]

variable (c)

/-- A PUBACK or PUBCOMP reports the publish whose entry it takes out, or it is rejected. -/
theorem held_processPuback (pid : Pid) (u : UniqueID) :
    held ((PublishesInner.processPuback pid).exec c).2 u = held c u := by
  rcases PublishesInner.processPuback_cases c pid with ⟨i, p, hi, -, h⟩ | ⟨-, h⟩
  · have := BoundedVec.countKey_removeAt hi (g := (·.publish.uniqueId)) (k := u)
    rw [h]
    simp [held, PublishesInner.queued, List.count_append, List.count_singleton] at this ⊢
    omega
  · rw [h]

theorem held_processPubcomp (pid : Pid) (u : UniqueID) :
    held ((PublishesInner.processPubcomp pid).exec c).2 u = held c u := by
  rcases PublishesInner.processPubcomp_cases c pid with ⟨i, p, hi, -, h⟩ | ⟨-, h⟩
  · have := BoundedVec.countKey_removeAt hi (g := (·.uniqueId)) (k := u)
    rw [h]
    simp [held, PublishesInner.queued, List.count_append, List.count_singleton] at this ⊢
    omega
  · rw [h]

variable {c}

/-- A PUBREC that finds room, or that is for no pending publish, loses nothing. -/
theorem held_processPubrec {pid : Pid}
    (hroom : (∃ p ∈ c.inner.awaitPubrec, p.pid = pid) → c.inner.sendPubrel.isFull = false)
    (u : UniqueID) : held ((PublishesInner.processPubrec pid).exec c).2 u = held c u := by
  rcases PublishesInner.processPubrec_cases c pid with
    ⟨i, p, r, inner, hi, hp, hres, h⟩ | ⟨-, r, inner, hres, h⟩
  · obtain ⟨queue, hpush⟩ := BoundedVec.exists_push (hroom ⟨p, BoundedVec.mem_of_get? hi, hp⟩)
      ⟨pid, some p.publish.uniqueId⟩
    simp only [PublishesInner.pubrecResult, hpush] at hres
    cases hres
    have := BoundedVec.countKey_removeAt hi (g := (·.publish.uniqueId)) (k := u)
    have := BoundedVec.countKey_push hpush (g := (·.uniqueId)) (k := some u)
    rw [h]
    simp only [held, PublishesInner.queued, Option.some.injEq] at *
    omega
  · rw [h]
    unfold PublishesInner.pubrecResult at hres
    cases hpush : c.inner.sendPubrel.push ⟨pid, none⟩ with
    | none =>
      rw [hpush] at hres
      cases hres
      rfl
    | some queue =>
      rw [hpush] at hres
      cases hres
      have := BoundedVec.countKey_push hpush (g := (·.uniqueId)) (k := some u)
      simp only [held, PublishesInner.queued, reduceCtorEq, if_false] at *
      omega

/-- A PUBREC for a pending publish that finds `send_pubrel` full loses that publish. -/
theorem held_processPubrec_full {pid : Pid} (hp : ∃ p ∈ c.inner.awaitPubrec, p.pid = pid)
    (hfull : c.inner.sendPubrel.isFull = true) :
    ∃ lost, ∀ u, held ((PublishesInner.processPubrec pid).exec c).2 u +
      (if lost = u then 1 else 0) = held c u := by
  rcases PublishesInner.processPubrec_cases c pid with
    ⟨i, p, r, inner, hi, -, hres, h⟩ | ⟨hnone, -⟩
  · refine ⟨p.publish.uniqueId, fun u => ?_⟩
    simp only [PublishesInner.pubrecResult, BoundedVec.push_eq_none_iff.mpr hfull] at hres
    cases hres
    have := BoundedVec.countKey_removeAt hi (g := (·.publish.uniqueId)) (k := u)
    rw [h]
    simp only [held, PublishesInner.queued] at *
    omega
  · obtain ⟨p, hmem, heq⟩ := hp
    exact absurd heq (hnone p hmem)

theorem held_publish (p : Publish) (uniqueId u : UniqueID) :
    held ((publish p uniqueId).exec c).2 u = held c u +
      ((Op.publish p uniqueId).accepts ((publish p uniqueId).exec c).1).count u := by
  rcases publish_cases c p uniqueId with h | ⟨e, -, h⟩ | ⟨entry, queue, hentry, hpush, h⟩
  · rw [h]; rfl
  · rw [h]; rfl
  · have := BoundedVec.countKey_push hpush (g := (·.uniqueId)) (k := u)
    rw [h]
    simp only [held, PublishesInner.queued, (OwnedPublish.newFromPublish_ok hentry).1, Op.accepts,
      List.count_singleton, beq_iff_eq] at *
    omega

theorem held_sendPackets (u : UniqueID) :
    held (((fun _ => ()) <$> sendPackets).exec c).2 u = held c u := by
  rw [exec_map]
  exact PublishesInner.sendPackets_moves.invariant (I := fun c' => held c' u = held c u)
    (fun _ _ hmove hc => (held_move hmove u).trans hc) rfl

namespace Books

variable {s s' t : Books PARALLEL_PUBLISHES BUFFER TOPIC_SIZE} {op : Op} {ls : List Op}

/-! ## One call -/

/-- A call with room adds what it accepts to the places, and nothing else. -/
theorem held_outcome (hroom : s.Room op) (u : UniqueID) :
    held (s.outcome op).2 u = held s.ctx u + (op.accepts (s.outcome op).1).count u := by
  cases op with
  | publish p uniqueId => exact held_publish p uniqueId u
  | sendPackets answers ticks => exact held_sendPackets u
  | processIncomingPacket packet =>
    cases packet with
    | puback pid => exact held_processPuback s.ctx pid u
    | pubrec pid => exact held_processPubrec hroom u
    | pubcomp pid => exact held_processPubcomp s.ctx pid u
    | _ => rfl

/-- A call without room accepts nothing and loses a publish. -/
theorem held_outcome_full (hroom : ¬s.Room op) : op.accepts (s.outcome op).1 = [] ∧
    ∃ lost, ∀ u, held (s.outcome op).2 u + (if lost = u then 1 else 0) = held s.ctx u := by
  cases op with
  | publish | sendPackets => exact absurd trivial hroom
  | processIncomingPacket packet =>
    cases packet with
    | pubrec pid =>
      simp only [Room, not_forall, Bool.not_eq_false] at hroom
      obtain ⟨hp, hfull⟩ := hroom
      exact ⟨rfl, held_processPubrec_full hp hfull⟩
    | _ => exact absurd trivial hroom

/-- What a call cannot do is make up for a lost publish. -/
theorem Short.next {u : UniqueID} (hs : held s.ctx u < s.accepted.count u)
    (h : s.next op = some s') : held s'.ctx u < s'.accepted.count u := by
  cases h
  simp only [List.count_append]
  by_cases hroom : s.Room op
  · rw [held_outcome hroom]
    omega
  · obtain ⟨-, lost, hlost⟩ := held_outcome_full hroom
    have := hlost u
    omega

theorem Short.run {u : UniqueID} (hs : held s.ctx u < s.accepted.count u)
    (hr : run Books.next s ls = some t) : held t.ctx u < t.accepted.count u := by
  let I (t : Books PARALLEL_PUBLISHES BUFFER TOPIC_SIZE) : Prop :=
    held t.ctx u < t.accepted.count u
  have hstep : ∀ s op s', I s → Books.next s op = some s' → I s' := by
    intro s op s' hi h
    exact Short.next (s := s) hi h
  exact invariant (I := I) hstep hs hr

theorem run_total (ls : List Op) (s : Books PARALLEL_PUBLISHES BUFFER TOPIC_SIZE) :
    ∃ t, run Books.next s ls = some t := by
  induction ls generalizing s with
  | nil => exact ⟨s, rfl⟩
  | cons op ls ih => exact ih _

theorem Accounted.next (hs : s.Accounted) (hroom : s.Room op) (h : s.next op = some s') :
    s'.Accounted := by
  intro u
  cases h
  rw [List.count_append, held_outcome hroom, hs u]

/-- A call with room that rejects a packet changes no queue. -/
theorem rejectsCleanly (hroom : s.Room op) : s.RejectsCleanly op := by
  rintro packet e rfl hfail
  cases packet with
  | puback pid =>
    change ((PublishesInner.processPuback pid).exec s.ctx).1 = _ at hfail
    change ((PublishesInner.processPuback pid).exec s.ctx).2.inner = _
    rcases PublishesInner.processPuback_cases s.ctx pid with ⟨i, p, hi, -, h⟩ | ⟨-, h⟩
    · rw [h] at hfail
      cases hfail
    · rw [h]
  | pubrec pid =>
    change ((PublishesInner.processPubrec pid).exec s.ctx).1 = _ at hfail
    change ((PublishesInner.processPubrec pid).exec s.ctx).2.inner = _
    rcases PublishesInner.processPubrec_cases s.ctx pid with
      ⟨i, p, r, inner, hi, hp, hres, h⟩ | ⟨-, r, inner, hres, h⟩
    · obtain ⟨queue, hpush⟩ := BoundedVec.exists_push (hroom ⟨p, BoundedVec.mem_of_get? hi, hp⟩)
        ⟨pid, some p.publish.uniqueId⟩
      simp only [PublishesInner.pubrecResult, hpush] at hres
      cases hres
      rw [h] at hfail
      cases hfail
    · rw [h] at hfail ⊢
      unfold PublishesInner.pubrecResult at hres
      split at hres
      · cases hres
        cases hfail
      · cases hres
        rfl
  | pubcomp pid =>
    change ((PublishesInner.processPubcomp pid).exec s.ctx).1 = _ at hfail
    change ((PublishesInner.processPubcomp pid).exec s.ctx).2.inner = _
    rcases PublishesInner.processPubcomp_cases s.ctx pid with ⟨i, p, hi, -, h⟩ | ⟨-, h⟩
    · rw [h] at hfail
      cases hfail
    · rw [h]
  | _ => cases hfail

/-! ## Runs -/

theorem Accounted.allSteps (hs : s.Accounted) (hr : run Books.next s ls = some t)
    (ht : t.Accounted) : AllSteps Books.next Room s ls := by
  induction ls generalizing s with
  | nil => trivial
  | cons op ls ih =>
    obtain ⟨s₁, h₁, hr⟩ := run_cons_iff.mp hr
    have hroom : s.Room op := by
      by_contra hroom
      obtain ⟨haccepts, lost, hlost⟩ := held_outcome_full hroom
      have hshort : held s₁.ctx lost < s₁.accepted.count lost := by
        cases h₁
        have := hlost lost
        have := hs lost
        simp only [haccepts, List.append_nil, if_true] at *
        omega
      exact absurd (ht lost) (Nat.ne_of_lt (Short.run hshort hr))
    refine ⟨hroom, fun s₂ h₂ => ?_⟩
    cases h₁.symm.trans h₂
    exact ih (hs.next hroom h₁) hr

theorem new_accounted :
    (new : Books PARALLEL_PUBLISHES BUFFER TOPIC_SIZE).Accounted := fun _ => rfl

/-- In every run, at every point each accepted publish is in exactly one place and rejected packets
leave it there, if and only if no PUBREC for a pending publish is processed while `send_pubrel` is
full. -/
theorem publishes_accounted_iff (ls : List Op) :
    ((∀ ms (t : Books PARALLEL_PUBLISHES BUFFER TOPIC_SIZE), ms <+: ls →
        run Books.next new ms = some t → t.Accounted) ∧
      AllSteps Books.next RejectsCleanly
        (new : Books PARALLEL_PUBLISHES BUFFER TOPIC_SIZE) ls) ↔
    AllSteps Books.next Room (new : Books PARALLEL_PUBLISHES BUFFER TOPIC_SIZE) ls := by
  obtain ⟨t, hr⟩ := run_total ls (new : Books PARALLEL_PUBLISHES BUFFER TOPIC_SIZE)
  constructor
  · rintro ⟨hacc, -⟩
    exact new_accounted.allSteps hr (hacc ls t (List.prefix_rfl) hr)
  · intro hroom
    refine ⟨fun ms t hms hrun => ?_, hroom.mono fun s op h => rejectsCleanly h⟩
    obtain ⟨rest, rfl⟩ := hms
    have hms := (hroom.append hrun).1
    exact hms.invariant (fun s op s' hs hG h => hs.next hG h) new_accounted hrun

/-! ### A publish that is lost -/

/-- A QoS 2 publish is written, four PUBRECs with other pids fill `send_pubrel`, and then its own
PUBREC arrives. -/
def fullPubrelRun : List Op :=
  let pubrec (pid : Pid) : Op := .processIncomingPacket (.pubrec pid)
  [ .publish
      { dup := false
        qospid := .exactlyOnce ⟨1, by decide, by decide⟩
        retain := false
        topicName := [116]
        payload := [7] } ⟨45, 0⟩,
    .sendPackets [.ok true] [],
    pubrec ⟨11, by decide, by decide⟩, pubrec ⟨12, by decide, by decide⟩,
    pubrec ⟨13, by decide, by decide⟩, pubrec ⟨14, by decide, by decide⟩,
    pubrec ⟨1, by decide, by decide⟩ ]

theorem fullPubrelRun_loses_publish :
    (run Books.next (new : Books 4 8 8) fullPubrelRun).map
        (fun t => (t.accepted, t.ctx.inner.queued ⟨45, 0⟩, t.ctx.env.events)) =
      some ([⟨45, 0⟩], 0, []) ∧
    ¬∀ ls t, run Books.next (new : Books 4 8 8) ls = some t → t.Accounted := by
  have hrun : (run Books.next (new : Books 4 8 8) fullPubrelRun).map
      (fun t => (t.accepted, t.ctx.inner.queued ⟨45, 0⟩, t.ctx.env.events)) =
      some ([⟨45, 0⟩], 0, []) := by decide +kernel
  refine ⟨hrun, fun hall => ?_⟩
  obtain ⟨t, ht, heq⟩ := Option.map_eq_some_iff.mp hrun
  have := hall _ t ht ⟨45, 0⟩
  simp only [Prod.mk.injEq] at heq
  simp [held, heq] at this

end Books

end Publishes

end EmbeddedMqttc
