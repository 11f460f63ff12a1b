import EmbeddedMqttc.Receive
import EmbeddedMqttc.Library.Run

/-!
# The calls of `Receives`

Every sequence of `on_publish`, `on_pubrel` and `send_packets` calls, with any packets and any
answers of the connection. A call that returns an error leaves its changes behind, and the next one
begins with them.
-/

namespace EmbeddedMqttc

open Prog EmbeddedMqttc.Comp

variable {BUFFER TOPIC_SIZE PARALLEL_RECEIVES : Nat}

/-- The pid of a QoS 2 publish. -/
def Publish.exchange (p : Publish) : Option Pid :=
  match p.qospid with
  | .exactlyOnce pid => some pid
  | _ => none

namespace Receives

inductive Call where
  | publish (p : Publish)
  | pubrel (pid : Pid)
  | send (answers : List (Except MqttError Bool))

/-- What a call gives and leaves. -/
def Call.perform : Call → Ctx (Receives BUFFER TOPIC_SIZE PARALLEL_RECEIVES) →
    Except (Stop MqttError) PUnit × Ctx (Receives BUFFER TOPIC_SIZE PARALLEL_RECEIVES)
  | .publish p, c => (onPublish p).exec c
  | .pubrel pid, c => (onPubrel pid).exec c
  | .send answers, c =>
    ((fun _ => ⟨⟩) <$> sendPackets).exec { c with env := { c.env with answers } }

/-- The pids of the PUBACKs among packets. -/
def pubackPids (l : List Written) : List Pid :=
  l.filterMap fun w => match w.packet with
    | .puback pid => some pid
    | _ => none

/-- The pids of the PUBRECs among packets. -/
def pubrecPids (l : List Written) : List Pid :=
  l.filterMap fun w => match w.packet with
    | .pubrec pid => some pid
    | _ => none

/-- The pids of the PUBCOMPs among packets. -/
def pubcompPids (l : List Written) : List Pid :=
  l.filterMap fun w => match w.packet with
    | .pubcomp pid => some pid
    | _ => none

end Receives

/-- A run of calls. `pubacks` and `pubrecs` are history: the pids of the publishes that were queued
for a PUBACK and for a PUBREC, in the order of arrival. `copied` is history, too: the pids of the
QoS 2 exchanges that the application has a message of. An exchange ends when a PUBCOMP with its pid
is written, whatever the queues still hold. -/
structure Reception (BUFFER TOPIC_SIZE PARALLEL_RECEIVES : Nat) where
  ctx : Ctx (Receives BUFFER TOPIC_SIZE PARALLEL_RECEIVES)
  pubacks : List Pid
  pubrecs : List Pid
  copied : List Pid

namespace Reception

def new : Reception BUFFER TOPIC_SIZE PARALLEL_RECEIVES where
  ctx := { inner := .new, env := .new }
  pubacks := []
  pubrecs := []
  copied := []

/-- The pids that a call adds to a history about what it has changed. -/
def noted (pid : Option Pid) (changed : Prop) [Decidable changed] : List Pid :=
  if changed then pid.toList else []

def next (s : Reception BUFFER TOPIC_SIZE PARALLEL_RECEIVES) (call : Receives.Call) :
    Option (Reception BUFFER TOPIC_SIZE PARALLEL_RECEIVES) :=
  let ctx := (call.perform s.ctx).2
  match call with
  | .publish p =>
    some
      { ctx
        pubacks :=
          s.pubacks ++ noted p.qospid.pid (ctx.inner.sendPuback ≠ s.ctx.inner.sendPuback)
        pubrecs :=
          s.pubrecs ++ noted p.qospid.pid (ctx.inner.sendPubrec ≠ s.ctx.inner.sendPubrec)
        copied := s.copied ++ noted p.exchange (ctx.inner.queue ≠ s.ctx.inner.queue) }
  | .pubrel _ => some { s with ctx }
  | .send _ =>
    let written := ctx.env.written.drop s.ctx.env.written.length
    some { s with ctx, copied := s.copied.filter (· ∉ Receives.pubcompPids written) }

@[simp] theorem noted_true (pid : Option Pid) {changed : Prop} [Decidable changed]
    (h : changed) : noted pid changed = pid.toList := if_pos h

@[simp] theorem noted_false (pid : Option Pid) {changed : Prop} [Decidable changed]
    (h : ¬changed) : noted pid changed = [] := if_neg h

end Reception

/-! ## What the calls do -/

namespace Receives

variable {c : Ctx (Receives BUFFER TOPIC_SIZE PARALLEL_RECEIVES)} {p : Publish} {pid : Pid}

variable (c)

theorem onPublish_atMostOnce_cases (hq : p.qospid = .atMostOnce) :
    (∃ m, ReceivedPublish.tryFrom p = .ok m ∧ (onPublish p).exec c =
        (.ok ⟨⟩, { c with inner := { c.inner with queue := c.inner.queue ++ [m] } })) ∨
      ∃ e, (onPublish p).exec c = (.error (.fail e), c) := by
  simp only [onPublish, hq]
  rcases deliver_cases c p with h | ⟨e, -, h⟩
  · exact .inl h
  · exact .inr ⟨e, h⟩

/-- A QoS 1 publish is delivered first. -/
theorem onPublish_atLeastOnce_cases (hq : p.qospid = .atLeastOnce pid) :
    (∃ m pubacks, ReceivedPublish.tryFrom p = .ok m ∧ c.inner.sendPuback.push pid = some pubacks ∧
        (onPublish p).exec c =
          (.ok ⟨⟩,
            { c with
              inner := { c.inner with sendPuback := pubacks, queue := c.inner.queue ++ [m] } })) ∨
      (∃ m e, ReceivedPublish.tryFrom p = .ok m ∧ (onPublish p).exec c =
        (.error (.fail e), { c with inner := { c.inner with queue := c.inner.queue ++ [m] } })) ∨
      ∃ e, (onPublish p).exec c = (.error (.fail e), c) := by
  simp only [onPublish, hq]
  rcases deliver_cases c p with ⟨m, hm, h⟩ | ⟨e, -, h⟩
  · rw [exec_bind_ok h, exec_get_bind]
    cases hpush : c.inner.sendPuback.push pid with
    | some pubacks => exact .inl ⟨m, pubacks, hm, rfl, rfl⟩
    | none => exact .inr (.inl ⟨m, _, hm, rfl⟩)
  · exact .inr (.inr ⟨e, exec_bind_error h⟩)

/-- A QoS 2 publish is queued for its PUBREC first. -/
theorem onPublish_exactlyOnce_cases (hq : p.qospid = .exactlyOnce pid) :
    (c.inner.sendPubrec.isFull = true ∧ ∃ e, (onPublish p).exec c = (.error (.fail e), c)) ∨
      ∃ pubrecs, c.inner.sendPubrec.push pid = some pubrecs ∧
        ((c.inner.isDup pid = true ∧ (onPublish p).exec c =
            (.ok ⟨⟩, { c with inner := { c.inner with sendPubrec := pubrecs } })) ∨
          (c.inner.isDup pid = false ∧ ∃ m, ReceivedPublish.tryFrom p = .ok m ∧
            (onPublish p).exec c =
              (.ok ⟨⟩,
                { c with
                  inner := { c.inner with sendPubrec := pubrecs, queue := c.inner.queue ++ [m] } })) ∨
          (c.inner.isDup pid = false ∧ ∃ e, ReceivedPublish.tryFrom p =
              (.error e : Except MqttError (ReceivedPublish BUFFER TOPIC_SIZE)) ∧
            (onPublish p).exec c =
              (.error (.fail e), { c with inner := { c.inner with sendPubrec := pubrecs } }))) := by
  simp only [onPublish, hq, onQos2Publish, QosPid.pid, exec_unwrap_some_bind, exec_get_bind]
  cases hpush : c.inner.sendPubrec.push pid with
  | none => exact .inl ⟨BoundedVec.push_eq_none_iff.mp hpush, _, rfl⟩
  | some pubrecs =>
    refine .inr ⟨pubrecs, rfl, ?_⟩
    simp only [modifyInner_bind_exec]
    cases hdup : c.inner.isDup pid with
    | true => exact .inl ⟨rfl, rfl⟩
    | false =>
      rcases deliver_cases { c with inner := { c.inner with sendPubrec := pubrecs } } p with
        ⟨m, hm, h⟩ | ⟨e, he, h⟩
      · exact .inr (.inl ⟨rfl, m, hm, h⟩)
      · exact .inr (.inr ⟨rfl, e, he, h⟩)

theorem onPubrel_exec_cases (pid : Pid) :
    (∃ e, (onPubrel pid).exec c = (.error (.fail e), c)) ∨
      ∃ pubcomps awaitPubrel, c.inner.sendPubcomp.push pid = some pubcomps ∧
        (awaitPubrel = c.inner.awaitPubrel ∨ ∃ i, awaitPubrel = c.inner.awaitPubrel.removeAt i) ∧
        (onPubrel pid).exec c =
          (.ok ⟨⟩,
            { c with inner := { c.inner with sendPubcomp := pubcomps, awaitPubrel } }) := by
  unfold onPubrel
  rw [exec_get_bind]
  cases hpush : c.inner.sendPubcomp.push pid with
  | none => exact .inl ⟨_, rfl⟩
  | some pubcomps =>
    refine .inr ?_
    simp only [modifyInner_bind_exec]
    cases hpos : c.inner.awaitPubrel.position (· == pid) with
    | none => exact ⟨pubcomps, _, rfl, .inl rfl, rfl⟩
    | some i => exact ⟨pubcomps, _, rfl, .inr ⟨i, rfl⟩, rfl⟩

theorem ne_of_push {n : Nat} {v w : BoundedVec Pid n} (h : v.push pid = some w) : w ≠ v := by
  rintro rfl
  have := (BoundedVec.push_eq_some_iff.mp h).2
  simp at this

/-- A publish queues its own pid for an acknowledgement, or nothing. -/
theorem onPublish_acks (p : Publish) :
    ((onPublish p).exec c).2.inner.sendPuback.toList = c.inner.sendPuback.toList ++
        Reception.noted p.qospid.pid
          (((onPublish p).exec c).2.inner.sendPuback ≠ c.inner.sendPuback) ∧
      ((onPublish p).exec c).2.inner.sendPubrec.toList = c.inner.sendPubrec.toList ++
        Reception.noted p.qospid.pid
          (((onPublish p).exec c).2.inner.sendPubrec ≠ c.inner.sendPubrec) := by
  cases hq : p.qospid with
  | atMostOnce =>
    rcases onPublish_atMostOnce_cases c hq with ⟨m, -, h⟩ | ⟨e, h⟩ <;> simp [h]
  | atLeastOnce pid =>
    rcases onPublish_atLeastOnce_cases c hq with
      ⟨m, pubacks, -, hpush, h⟩ | ⟨m, e, -, h⟩ | ⟨e, h⟩
    · simp [h, ne_of_push hpush, (BoundedVec.push_eq_some_iff.mp hpush).2, QosPid.pid]
    · simp [h]
    · simp [h]
  | exactlyOnce pid =>
    rcases onPublish_exactlyOnce_cases c hq with
      ⟨-, e, h⟩ | ⟨pubrecs, hpush, ⟨-, h⟩ | ⟨-, m, -, h⟩ | ⟨-, e, -, h⟩⟩
    · simp [h]
    all_goals simp [h, ne_of_push hpush, (BoundedVec.push_eq_some_iff.mp hpush).2, QosPid.pid]

end Receives

end EmbeddedMqttc
