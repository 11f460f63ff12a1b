import EmbeddedMqttc.DrainOrder

/-!
# What is acknowledged has been delivered

A QoS 1 publish is queued for its PUBACK after its message has been delivered, a QoS 2 publish for
its PUBREC before. Nothing is assumed about the packets or about what the connection accepts: the
steps at which something is acknowledged that was never delivered are told exactly.
-/

namespace EmbeddedMqttc

open Prog EmbeddedMqttc.Comp Run

variable {BUFFER TOPIC_SIZE PARALLEL_RECEIVES : Nat}

/-- The topic and the payload fit into a `ReceivedPublish`. -/
def Publish.Fits (p : Publish) (BUFFER TOPIC_SIZE : Nat) : Prop :=
  p.topicName.length ≤ TOPIC_SIZE ∧ p.payload.length ≤ BUFFER

instance (p : Publish) : Decidable (p.Fits BUFFER TOPIC_SIZE) := inferInstanceAs (Decidable (_ ∧ _))

theorem ReceivedPublish.exists_tryFrom_iff {p : Publish} :
    (∃ m : ReceivedPublish BUFFER TOPIC_SIZE, tryFrom p = .ok m) ↔ p.Fits BUFFER TOPIC_SIZE := by
  unfold tryFrom Publish.Fits BoundedVec.ofList?
  by_cases ht : p.topicName.length ≤ TOPIC_SIZE
  · by_cases hp : p.payload.length ≤ BUFFER <;> simp [ht, hp]
  · simp [ht]

namespace Receives

/-- How many PUBACKs with this pid have been queued, those that were written included. -/
def pubackCopies (c : Ctx (Receives BUFFER TOPIC_SIZE PARALLEL_RECEIVES)) (pid : Pid) : Nat :=
  (pubackPids c.env.written).count pid + c.inner.sendPuback.toList.count pid

/-- How many PUBRECs with this pid have been queued, those that were written included. -/
def pubrecCopies (c : Ctx (Receives BUFFER TOPIC_SIZE PARALLEL_RECEIVES)) (pid : Pid) : Nat :=
  (pubrecPids c.env.written).count pid + c.inner.sendPubrec.toList.count pid

variable {c c' : Ctx (Receives BUFFER TOPIC_SIZE PARALLEL_RECEIVES)} {pid q : Pid} {p : Publish}

theorem pubackCopies_eq (henv : c'.env = c.env) (hqueue : c'.inner.sendPuback = c.inner.sendPuback)
    (pid : Pid) : pubackCopies c' pid = pubackCopies c pid := by
  rw [pubackCopies, henv, hqueue, pubackCopies]

theorem pubrecCopies_eq (henv : c'.env = c.env) (hqueue : c'.inner.sendPubrec = c.inner.sendPubrec)
    (pid : Pid) : pubrecCopies c' pid = pubrecCopies c pid := by
  rw [pubrecCopies, henv, hqueue, pubrecCopies]

theorem pubackCopies_push (henv : c'.env = c.env)
    (hpush : c.inner.sendPuback.push q = some c'.inner.sendPuback) (pid : Pid) :
    pubackCopies c' pid = pubackCopies c pid + if q = pid then 1 else 0 := by
  simp only [pubackCopies, henv, (BoundedVec.push_eq_some_iff.mp hpush).2, List.count_append,
    List.count_singleton, beq_iff_eq, Nat.add_assoc]

theorem pubrecCopies_push (henv : c'.env = c.env)
    (hpush : c.inner.sendPubrec.push q = some c'.inner.sendPubrec) (pid : Pid) :
    pubrecCopies c' pid = pubrecCopies c pid + if q = pid then 1 else 0 := by
  simp only [pubrecCopies, henv, (BoundedVec.push_eq_some_iff.mp hpush).2, List.count_append,
    List.count_singleton, beq_iff_eq, Nat.add_assoc]

/-- An acknowledgement that is written leaves its queue. -/
theorem Move.copies (hmove : Move c c') (pid : Pid) :
    pubackCopies c' pid = pubackCopies c pid ∧ pubrecCopies c' pid = pubrecCopies c pid := by
  cases hmove with
  | asked => exact ⟨rfl, rfl⟩
  | puback hi =>
    refine ⟨?_, ?_⟩
    · have hcount := (BoundedVec.perm_removeAt hi).count_eq pid
      rw [List.count_cons] at hcount
      simp [pubackCopies, pubackPids, List.count_append, ← hcount, List.count_singleton]
      omega
    · simp [pubrecCopies, pubrecPids]
  | pubrec hi hpush =>
    refine ⟨?_, ?_⟩
    · simp [pubackCopies, pubackPids]
    · have hcount := (BoundedVec.perm_removeAt hi).count_eq pid
      rw [List.count_cons] at hcount
      simp [pubrecCopies, pubrecPids, List.count_append, ← hcount, List.count_singleton]
      omega
  | pubcomp hi => exact ⟨by simp [pubackCopies, pubackPids], by simp [pubrecCopies, pubrecPids]⟩

/-- What a send pass keeps. -/
theorem sendPackets_copies (c : Ctx (Receives BUFFER TOPIC_SIZE PARALLEL_RECEIVES)) (pid : Pid) :
    pubackCopies (sendPackets.exec c).2 pid = pubackCopies c pid ∧
      pubrecCopies (sendPackets.exec c).2 pid = pubrecCopies c pid := by
  let I (c' : Ctx (Receives BUFFER TOPIC_SIZE PARALLEL_RECEIVES)) : Prop :=
    pubackCopies c' pid = pubackCopies c pid ∧ pubrecCopies c' pid = pubrecCopies c pid
  have hstep : ∀ c₁ c₂, Move c₁ c₂ → I c₁ → I c₂ := fun _ _ hmove h =>
    ⟨(hmove.copies pid).1.trans h.1, (hmove.copies pid).2.trans h.2⟩
  exact sendPackets_moves.invariant (I := I) hstep ⟨rfl, rfl⟩

/-- The call from `c` to `c'` has handed the message of `p` to the application. -/
def Delivered (p : Publish) (c c' : Ctx (Receives BUFFER TOPIC_SIZE PARALLEL_RECEIVES)) : Prop :=
  ∃ m, ReceivedPublish.tryFrom p = .ok m ∧ c'.inner.queue = c.inner.queue ++ [m]

end Receives

namespace Reception

open Receives

/-- What a call has to do: it queues at most one acknowledgement, for a message that it delivers or,
for QoS 2, in an exchange that the application has got a message of; and where `on_publish` or
`on_pubrel` fails, the four queues are as before. -/
structure AcksDelivered (s : Reception BUFFER TOPIC_SIZE PARALLEL_RECEIVES) (call : Receives.Call) :
    Prop where
  puback : ∀ pid, pubackCopies (call.perform s.ctx).2 pid = pubackCopies s.ctx pid ∨
    pubackCopies (call.perform s.ctx).2 pid = pubackCopies s.ctx pid + 1 ∧
      ∃ p, call = .publish p ∧ p.qospid = .atLeastOnce pid ∧
        Delivered p s.ctx (call.perform s.ctx).2
  pubrec : ∀ pid, pubrecCopies (call.perform s.ctx).2 pid = pubrecCopies s.ctx pid ∨
    pubrecCopies (call.perform s.ctx).2 pid = pubrecCopies s.ctx pid + 1 ∧
      ∃ p, call = .publish p ∧ p.qospid = .exactlyOnce pid ∧
        (Delivered p s.ctx (call.perform s.ctx).2 ∨ pid ∈ s.copied)
  failed : ∀ x, (call.perform s.ctx).1 = .error x → (∀ answers, call ≠ .send answers) →
    (call.perform s.ctx).2.inner.toReceivesInner = s.ctx.inner.toReceivesInner

variable (s : Reception BUFFER TOPIC_SIZE PARALLEL_RECEIVES)

/-- A QoS 2 publish for which there is room in `send_pubrec` fits if its pid is in no queue. If its pid
is in one, the application has got a message of the present exchange. -/
def Covered : Receives.Call → Prop
  | .publish p => ∀ pid ∈ p.exchange, s.ctx.inner.sendPubrec.isFull = false →
      (s.ctx.inner.isDup pid = false → p.Fits BUFFER TOPIC_SIZE) ∧
        (s.ctx.inner.isDup pid = true → pid ∈ s.copied)
  | _ => True

instance : (call : Receives.Call) → Decidable (s.Covered call)
  | .publish p => inferInstanceAs (Decidable (∀ pid ∈ p.exchange, _ → _))
  | .pubrel _ | .send _ => isTrue trivial

variable {s : Reception BUFFER TOPIC_SIZE PARALLEL_RECEIVES} {call : Receives.Call} {p : Publish}
  {q : Pid}

/-- A call that queues nothing. -/
theorem AcksDelivered.of_copies
    (hpuback : ∀ pid, pubackCopies (call.perform s.ctx).2 pid = pubackCopies s.ctx pid)
    (hpubrec : ∀ pid, pubrecCopies (call.perform s.ctx).2 pid = pubrecCopies s.ctx pid)
    (hfailed : ∀ x, (call.perform s.ctx).1 = .error x → (∀ answers, call ≠ .send answers) →
      (call.perform s.ctx).2.inner.toReceivesInner = s.ctx.inner.toReceivesInner) :
    s.AcksDelivered call :=
  ⟨fun pid => .inl (hpuback pid), fun pid => .inl (hpubrec pid), hfailed⟩

/-- A publish of QoS 1 is acknowledged after its message has been delivered. -/
theorem acksDelivered_atLeastOnce (hq : p.qospid = .atLeastOnce q) :
    s.AcksDelivered (.publish p) := by
  rcases onPublish_atLeastOnce_cases s.ctx hq with
    ⟨m, pubacks, hm, hpush, h⟩ | ⟨m, e, -, h⟩ | ⟨e, h⟩
  · have hsend : ((onPublish p).exec s.ctx).2.inner.sendPuback = pubacks := by rw [h]
    have hcount := pubackCopies_push (onPublish_env s.ctx p) (hsend.symm ▸ hpush)
    rw [h] at hcount
    refine ⟨fun pid => ?_, fun pid => .inl ?_, ?_⟩ <;> simp only [Receives.Call.perform, h]
    · rw [hcount]
      split
      · rename_i heq
        exact .inr ⟨rfl, p, rfl, heq ▸ hq, m, hm, rfl⟩
      · exact .inl rfl
    · exact pubrecCopies_eq rfl rfl pid
    · intro x hx
      cases hx
  · refine .of_copies (fun pid => ?_) (fun pid => ?_) fun _ _ _ => ?_ <;>
      simp only [Receives.Call.perform, h]
    · exact pubackCopies_eq rfl rfl pid
    · exact pubrecCopies_eq rfl rfl pid
  · refine .of_copies (fun pid => ?_) (fun pid => ?_) fun _ _ _ => ?_ <;>
      simp only [Receives.Call.perform, h]

/-- A publish of QoS 2 that has been queued for its PUBREC. -/
theorem acksDelivered_pushed {pubrecs : BoundedVec Pid PARALLEL_RECEIVES}
    (hq : p.qospid = .exactlyOnce q) (hpush : s.ctx.inner.sendPubrec.push q = some pubrecs)
    (hpuback : ((onPublish p).exec s.ctx).2.inner.sendPuback = s.ctx.inner.sendPuback)
    (hpubrec : ((onPublish p).exec s.ctx).2.inner.sendPubrec = pubrecs) :
    s.AcksDelivered (.publish p) ↔
      (Delivered p s.ctx ((onPublish p).exec s.ctx).2 ∨ q ∈ s.copied) ∧
        ∃ u, ((onPublish p).exec s.ctx).1 = .ok u := by
  have henv := onPublish_env s.ctx p
  have hcount := pubrecCopies_push henv (hpubrec.symm ▸ hpush)
  constructor
  · intro h
    refine ⟨?_, ?_⟩
    · rcases h.pubrec q with hsame | ⟨-, p', hp, hq', hor⟩
      · have := hcount q
        simp only [Receives.Call.perform] at hsame
        rw [if_pos rfl] at this
        omega
      · cases hp
        exact hor
    · cases hr : ((onPublish p).exec s.ctx).1 with
      | ok u => exact ⟨u, rfl⟩
      | error x =>
        have hsame := h.failed x hr fun _ => Receives.Call.noConfusion
        have hne := ne_of_push hpush
        exact absurd (hpubrec.symm.trans (congrArg ReceivesInner.sendPubrec hsame)) hne
  · rintro ⟨hor, u, hu⟩
    refine ⟨fun pid => .inl (pubackCopies_eq henv hpuback pid), fun pid => ?_, fun x hx => ?_⟩
    · simp only [Receives.Call.perform, hcount]
      split
      · rename_i heq
        exact .inr ⟨rfl, p, rfl, heq ▸ hq, heq ▸ hor⟩
      · exact .inl rfl
    · simp only [Receives.Call.perform, hu] at hx
      cases hx

/-- A QoS 2 publish is acknowledged rightly exactly if it is covered. -/
theorem acksDelivered_exactlyOnce (hq : p.qospid = .exactlyOnce q) :
    s.AcksDelivered (.publish p) ↔ s.Covered (.publish p) := by
  have hexchange : p.exchange = some q := by simp [Publish.exchange, hq]
  have hcovered : s.Covered (.publish p) ↔ (s.ctx.inner.sendPubrec.isFull = false →
      (s.ctx.inner.isDup q = false → p.Fits BUFFER TOPIC_SIZE) ∧
        (s.ctx.inner.isDup q = true → q ∈ s.copied)) := by
    simp [Covered, hexchange]
  rcases onPublish_exactlyOnce_cases s.ctx hq with
    ⟨hfull, e, h⟩ | ⟨pubrecs, hpush, hcases⟩
  · refine iff_of_true ?_ (hcovered.mpr fun hroom => Bool.noConfusion (hfull.symm.trans hroom))
    refine .of_copies (fun pid => ?_) (fun pid => ?_) fun _ _ _ => ?_ <;>
      simp only [Receives.Call.perform, h]
  · have hroom : s.ctx.inner.sendPubrec.isFull = false :=
      BoundedVec.not_isFull_iff.mpr (BoundedVec.push_eq_some_iff.mp hpush).1
    rw [hcovered, forall_prop_of_true hroom]
    rcases hcases with ⟨hdup, h⟩ | ⟨hdup, m, hm, h⟩ | ⟨hdup, e, he, h⟩ <;>
      rw [acksDelivered_pushed hq hpush (by rw [h]) (by rw [h]), h]
    · -- a copy: it is not delivered
      have hnot : ¬Delivered p s.ctx
          { s.ctx with inner := { s.ctx.inner with sendPubrec := pubrecs } } := by
        rintro ⟨m, -, hqueue⟩
        simp at hqueue
      constructor
      · rintro ⟨hor, -⟩
        exact ⟨fun hnodup => Bool.noConfusion (hdup.symm.trans hnodup),
          fun _ => hor.resolve_left hnot⟩
      · rintro ⟨-, hcopied⟩
        exact ⟨.inr (hcopied hdup), _, rfl⟩
    · refine iff_of_true ⟨.inl ⟨m, hm, rfl⟩, _, rfl⟩ ⟨fun _ => ?_, fun htrue => ?_⟩
      · exact ReceivedPublish.exists_tryFrom_iff.mp ⟨m, hm⟩
      · exact Bool.noConfusion (hdup.symm.trans htrue)
    · refine iff_of_false (fun hacks => ?_) fun hfits => ?_
      · obtain ⟨u, hu⟩ := hacks.2
        cases hu
      · obtain ⟨m, hm⟩ := ReceivedPublish.exists_tryFrom_iff.mpr (hfits.1 hdup)
        cases he.symm.trans hm

/-- A call acknowledges what was not delivered exactly at the steps that are not covered. -/
theorem acksDelivered_iff : s.AcksDelivered call ↔ s.Covered call := by
  cases call with
  | publish p =>
    cases hq : p.qospid with
    | atMostOnce =>
      have hexchange : p.exchange = none := by simp [Publish.exchange, hq]
      refine iff_of_true ?_ fun pid hpid => absurd (hpid.symm.trans hexchange) (Option.some_ne_none _)
      rcases onPublish_atMostOnce_cases s.ctx hq with ⟨m, -, h⟩ | ⟨e, h⟩ <;>
        refine .of_copies (fun pid => ?_) (fun pid => ?_) fun _ _ _ => ?_ <;>
        simp only [Receives.Call.perform, h]
      · exact pubackCopies_eq rfl rfl pid
      · exact pubrecCopies_eq rfl rfl pid
    | atLeastOnce q =>
      have hexchange : p.exchange = none := by simp [Publish.exchange, hq]
      exact iff_of_true (acksDelivered_atLeastOnce hq)
        fun pid hpid => absurd (hpid.symm.trans hexchange) (Option.some_ne_none _)
    | exactlyOnce q => exact acksDelivered_exactlyOnce hq
  | pubrel pid =>
    refine iff_of_true ?_ trivial
    rcases onPubrel_exec_cases s.ctx pid with ⟨e, h⟩ | ⟨_, _, -, -, h⟩ <;>
      refine .of_copies (fun pid => ?_) (fun pid => ?_) fun x hx _ => ?_ <;>
      simp only [Receives.Call.perform, h] at *
    · exact pubackCopies_eq rfl rfl pid
    · exact pubrecCopies_eq rfl rfl pid
    · cases hx
  | send answers =>
    refine iff_of_true ?_ trivial
    have h := sendPackets_copies { s.ctx with env := { s.ctx.env with answers } }
    refine .of_copies (fun pid => ?_) (fun pid => ?_) fun _ _ hne => absurd rfl (hne answers) <;>
      simp only [Receives.Call.perform, exec_map]
    · exact (h pid).1
    · exact (h pid).2

/-! ## Runs -/

/-- The calls of a run acknowledge only what was delivered if and only if they are all covered. -/
theorem acknowledges_delivered (calls : List Receives.Call) :
    AllSteps next AcksDelivered (new : Reception BUFFER TOPIC_SIZE PARALLEL_RECEIVES) calls ↔
      AllSteps next Covered (new : Reception BUFFER TOPIC_SIZE PARALLEL_RECEIVES) calls :=
  AllSteps.congr fun _ _ => acksDelivered_iff

/-- A message of QoS 2 that comes twice, with a PUBREL for each PUBREC, then another message under its
pid and a message of QoS 1. -/
theorem acknowledges_delivered_of_copy :
    let calls : List Receives.Call :=
      [incoming (.exactlyOnce ⟨7, by decide, by decide⟩),
        incoming (.exactlyOnce ⟨7, by decide, by decide⟩), .send [.ok true],
        .pubrel ⟨7, by decide, by decide⟩, .send [.ok true, .ok true],
        .pubrel ⟨7, by decide, by decide⟩, .send [.ok true],
        incoming (.exactlyOnce ⟨7, by decide, by decide⟩),
        incoming (.atLeastOnce ⟨7, by decide, by decide⟩), .send [.ok true, .ok true]]
    (run next (new : Reception 8 8 4) calls).map (fun t =>
        (t.ctx.inner.queue.length, (pubrecPids t.ctx.env.written).length)) = some (3, 3) ∧
      AllSteps next AcksDelivered (new : Reception 8 8 4) calls := by
  intro calls
  exact ⟨by decide +kernel, (acknowledges_delivered calls).mpr (by decide +kernel)⟩

/-- A topic of nine bytes does not fit, its PUBREC is written all the same. A PUBREL that nothing
was published for makes the first copy of a message look like another one, and so does a message that
came twice before its PUBREL: after the PUBCOMP its pid is still in `await_pubrel`. -/
theorem undelivered_acknowledged :
    let pid : Pid := ⟨7, by decide, by decide⟩
    let long : Publish :=
      { dup := false, qospid := .exactlyOnce pid, retain := false
        topicName := [1, 2, 3, 4, 5, 6, 7, 8, 9], payload := [] }
    let second : Publish :=
      { dup := false, qospid := .exactlyOnce pid, retain := false, topicName := [116], payload := [2] }
    let twice : List Receives.Call :=
      [incoming (.exactlyOnce pid), .send [.ok true], incoming (.exactlyOnce pid), .send [.ok true],
        .pubrel pid, .send [.ok true], .publish second, .send [.ok true]]
    ¬AllSteps next AcksDelivered (new : Reception 8 8 4) [.publish long] ∧
      (run next (new : Reception 8 8 4) [.publish long, .send [.ok true]]).map (fun t =>
        (t.ctx.inner.queue.length, (pubrecPids t.ctx.env.written).length)) = some (0, 1) ∧
      (run next (new : Reception 8 8 4) [.pubrel pid, incoming (.exactlyOnce pid)]).map (fun t =>
        (t.ctx.inner.queue.length, t.ctx.inner.sendPubrec.len)) = some (0, 1) ∧
      ¬AllSteps next AcksDelivered (new : Reception 8 8 4) twice ∧
      (run next (new : Reception 8 8 4) twice).map (fun t =>
        (t.ctx.inner.queue.map (·.payload.toList), (pubrecPids t.ctx.env.written).length)) =
          some ([[1]], 3) := by
  intro pid long second twice
  rw [AllSteps.congr fun _ _ => acksDelivered_iff, AllSteps.congr fun _ _ => acksDelivered_iff]
  refine ⟨?_, ?_, ?_, ?_, ?_⟩ <;> decide +kernel

end Reception

end EmbeddedMqttc
