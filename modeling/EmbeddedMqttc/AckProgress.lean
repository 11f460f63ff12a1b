import EmbeddedMqttc.AckDelivery
import EmbeddedMqttc.ConformingBroker

/-!
# No acknowledgement waits for long

The loops of `Receives::send_packets` pass over every second entry of a queue, and new entries come
while a pass is over. An entry that is passed over comes nearer to the front all the same, and a pass
that goes through its whole queue halves its distance: a reply is written after a number of such
passes that is logarithmic in the number of entries before it, whatever arrives behind it.
-/

namespace EmbeddedMqttc

open Prog Run

variable {QUEUE BUFFER TOPIC : Nat}

namespace Receives

variable {BUFFER TOPIC_SIZE PARALLEL_RECEIVES : Nat}

/-- The replies that `Receives` owes to the sender. -/
inductive Reply where
  | puback
  | pubrec
  | pubcomp
  deriving DecidableEq

namespace Reply

def queue (self : ReceivesInner PARALLEL_RECEIVES) : Reply → BoundedVec Pid PARALLEL_RECEIVES
  | puback => self.sendPuback
  | pubrec => self.sendPubrec
  | pubcomp => self.sendPubcomp

def packet : Reply → Pid → Packet
  | puback => .puback
  | pubrec => .pubrec
  | pubcomp => .pubcomp

/-- How many of these replies a pass offers when none is refused. -/
def limit (self : ReceivesInner PARALLEL_RECEIVES) : Reply → Nat
  | puback => pubackLimit self
  | pubrec => pubrecLimit self
  | pubcomp => pubcompLimit self

/-- How many of these replies a pass writes. -/
def count (c : Ctx (Receives BUFFER TOPIC_SIZE PARALLEL_RECEIVES)) : Reply → Nat
  | puback => pubackCount c
  | pubrec => pubrecCount c
  | pubcomp => pubcompCount c

end Reply

variable {c s : Ctx (Receives BUFFER TOPIC_SIZE PARALLEL_RECEIVES)}
  {r : Except (Stop MqttError) SendResult}

/-- A pass for one kind of replies. -/
theorem Passed.reply (h : Passed c r s) (kind : Reply) :
    (kind.queue s.inner.toReceivesInner).toList =
        (kind.queue c.inner.toReceivesInner).toList.skipped (kind.count c) ∧
      ∃ ws, s.env.written = c.env.written ++ ws ∧
        ∀ pid ∈ ((kind.queue c.inner.toReceivesInner).toList.take (2 * kind.count c)).evens,
          ⟨kind.packet pid, none⟩ ∈ ws := by
  cases kind with
  | puback =>
    refine ⟨h.sendPuback, _, h.written, fun pid hpid => ?_⟩
    exact List.mem_append_left _ (List.mem_append_left _ (List.mem_map_of_mem hpid))
  | pubrec =>
    refine ⟨h.sendPubrec, _, h.written, fun pid hpid => ?_⟩
    exact List.mem_append_left _ (List.mem_append_right _ (List.mem_map_of_mem hpid))
  | pubcomp =>
    refine ⟨h.sendPubcomp, _, h.written, fun pid hpid => ?_⟩
    exact List.mem_append_right _ (List.mem_map_of_mem hpid)

/-- A pass in which nothing is refused writes all that it offers. -/
theorem Passed.count_eq (h : Passed c r s) (hr : r = .ok .sentAll) (kind : Reply) :
    kind.count c = kind.limit c.inner.toReceivesInner := by
  have hall := h.sentAll.mp hr
  unfold passLimit at hall
  cases kind with
  | puback => exact Nat.min_eq_right (by omega)
  | pubrec => exact Nat.min_eq_right (by omega)
  | pubcomp => exact Nat.min_eq_right (by omega)

/-- A publish that arrives queues a reply at most. -/
theorem onPublish_grows (c : Ctx (Receives BUFFER TOPIC_SIZE PARALLEL_RECEIVES)) (message : Publish)
    (kind : Reply) :
    ∃ new, (kind.queue ((onPublish message).exec c).2.inner.toReceivesInner).toList =
      (kind.queue c.inner.toReceivesInner).toList ++ new := by
  have hsame {queue : List (ReceivedPublish BUFFER TOPIC_SIZE)} :
      ∃ new, (kind.queue { c.inner with queue }.toReceivesInner).toList =
        (kind.queue c.inner.toReceivesInner).toList ++ new := ⟨[], (List.append_nil _).symm⟩
  cases hq : message.qospid with
  | atMostOnce =>
    rcases onPublish_atMostOnce_cases c hq with ⟨m, -, h⟩ | ⟨e, h⟩ <;> rw [h] <;> exact hsame
  | atLeastOnce pid =>
    rcases onPublish_atLeastOnce_cases c hq with
      ⟨m, pubacks, -, hpush, h⟩ | ⟨m, e, -, h⟩ | ⟨e, h⟩ <;> rw [h]
    · cases kind with
      | puback => exact ⟨_, (BoundedVec.push_eq_some_iff.mp hpush).2⟩
      | _ => exact hsame
    · exact hsame
    · exact hsame
  | exactlyOnce pid =>
    have hpushed {pubrecs : BoundedVec Pid PARALLEL_RECEIVES}
        (hpush : c.inner.sendPubrec.push pid = some pubrecs)
        {queue : List (ReceivedPublish BUFFER TOPIC_SIZE)} :
        ∃ new, (kind.queue { c.inner with sendPubrec := pubrecs, queue }.toReceivesInner).toList =
          (kind.queue c.inner.toReceivesInner).toList ++ new := by
      cases kind with
      | pubrec => exact ⟨_, (BoundedVec.push_eq_some_iff.mp hpush).2⟩
      | _ => exact hsame
    rcases onPublish_exactlyOnce_cases c hq with ⟨-, e, h⟩ |
      ⟨pubrecs, hpush, ⟨-, h⟩ | ⟨-, m, -, h⟩ | ⟨-, e, -, h⟩⟩ <;> rw [h]
    · exact hsame
    · exact hpushed hpush
    · exact hpushed hpush
    · exact hpushed hpush

end Receives

namespace Client

open Receives

variable {topicPathCapacity : Nat} {s s' : Client QUEUE BUFFER TOPIC} {l : Label} {kind : Reply}
  {pid : Pid} {i : Nat}

variable (s kind) in
/-- Whether a step is a send pass that refuses nothing and goes through the whole queue of a kind of
replies: for PUBRECs there has to be room in `await_pubrel`. -/
def servesAll : Label → Bool
  | .sendReceives answers =>
    decide (((s.scripted answers []).callReceives Receives.sendPackets).1 = .ok .sentAll) &&
      decide (kind.limit s.receives.toReceivesInner =
        turns (kind.queue s.receives.toReceivesInner).len)
  | _ => false

/-- How many such passes there are in a run. -/
def servedPasses (topicPathCapacity : Nat) (kind : Reply) :
    Client QUEUE BUFFER TOPIC → List Label → Nat
  | _, [] => 0
  | s, l :: ls =>
    (s.servesAll kind l).toNat + servedPasses topicPathCapacity kind (s.outcome topicPathCapacity l).2 ls

variable (s topicPathCapacity) in
theorem sendReceives_passed (answers : List (Except MqttError Bool)) :
    ∃ c', Passed (⟨s.receives, (s.scripted answers []).env⟩ : Ctx (Receives BUFFER TOPIC QUEUE))
        ((s.scripted answers []).callReceives Receives.sendPackets).1 c' ∧
      (s.outcome topicPathCapacity (.sendReceives answers)).2 =
        { s.scripted answers [] with receives := c'.inner, env := c'.env } := by
  obtain ⟨r, c', hexec, hpassed⟩ :=
    sendPackets_passed (⟨s.receives, (s.scripted answers []).env⟩ : Ctx (Receives BUFFER TOPIC QUEUE))
  have hcall : (s.scripted answers []).callReceives Receives.sendPackets =
      (r, { s.scripted answers [] with receives := c'.inner, env := c'.env }) := by
    rw [callReceives]
    exact congrArg (fun p => (p.1, { s.scripted answers [] with receives := p.2.inner, env := p.2.env }))
      hexec
  refine ⟨c', ?_, ?_⟩
  · rw [hcall]
    exact hpassed
  · simp only [outcome, sent, hcall]

variable (s) in
theorem sendReceives_reply (answers : List (Except MqttError Bool))
    (hi : (kind.queue s.receives.toReceivesInner).get? i = some pid) :
    (∃ ws, (s.outcome topicPathCapacity (.sendReceives answers)).2.env.written =
        s.env.written ++ ws ∧ ⟨kind.packet pid, none⟩ ∈ ws) ∨
      ∃ j ≤ i, (kind.queue (s.outcome topicPathCapacity (.sendReceives answers)).2.receives.toReceivesInner).get?
          j = some pid ∧ (s.servesAll kind (.sendReceives answers) = true → 2 * (j + 1) = i + 1) := by
  obtain ⟨c', hpassed, hnext⟩ := s.sendReceives_passed topicPathCapacity answers
  obtain ⟨hqueue, ws, hwritten, hws⟩ := hpassed.reply kind
  rw [hnext]
  rcases List.evens_or_skipped (kind.count ⟨s.receives, (s.scripted answers []).env⟩) hi with
    hmem | ⟨j, hj, hget, -, hhalf⟩
  · exact .inl ⟨ws, hwritten, hws pid hmem⟩
  · refine .inr ⟨j, hj, (congrArg (·[j]?) hqueue).trans hget, fun hall => hhalf ?_⟩
    obtain ⟨hr, hlimit⟩ := Bool.and_eq_true_iff.mp hall
    have hcount := hpassed.count_eq (of_decide_eq_true hr) kind
    have hturns := of_decide_eq_true hlimit
    rw [hcount]
    dsimp only
    rw [hturns]
    unfold turns BoundedVec.len
    omega

variable (s topicPathCapacity) in
/-- Only a send pass takes replies out of their queues. -/
theorem replies_grow (kind : Reply) (hl : ∀ answers, l ≠ .sendReceives answers) :
    ∃ new, (kind.queue (s.outcome topicPathCapacity l).2.receives.toReceivesInner).toList =
      (kind.queue s.receives.toReceivesInner).toList ++ new := by
  have hsame : ∃ new, (kind.queue s.receives.toReceivesInner).toList =
      (kind.queue s.receives.toReceivesInner).toList ++ new := ⟨[], (List.append_nil _).symm⟩
  by_cases hrequest : l.isRequest = true
  · obtain ⟨sendPublish, sendRequest, pool, waiting, autoSubscribe, issued, h⟩ :=
      s.outcome_request topicPathCapacity hrequest
    rw [h]
    exact hsame
  cases l with
  | sendReceives answers => exact absurd rfl (hl answers)
  | receive packet =>
    cases packet with
    | publish message =>
      exact onPublish_grows ⟨s.receives, s.env⟩ message kind
    | pubrel pid =>
      simp only [outcome, processPacket, callReceives]
      rcases onPubrel_exec_cases ⟨s.receives, s.env⟩ pid with
        ⟨e, h⟩ | ⟨pubcomps, awaitPubrel, hpush, -, h⟩ <;> rw [h]
      · exact hsame
      · cases kind with
        | pubcomp => exact ⟨_, (BoundedVec.push_eq_some_iff.mp hpush).2⟩
        | _ => exact hsame
    | _ => exact hsame
  | sendPublishes | sendSubscribes | sendPing | wait => exact hsame
  | _ => exact absurd rfl hrequest

variable (s topicPathCapacity l) in
/-- In every step a reply that waits is written or stays, or comes nearer to the front. -/
theorem outcome_reply (hi : (kind.queue s.receives.toReceivesInner).get? i = some pid) :
    (∃ ws, (s.outcome topicPathCapacity l).2.env.written = s.env.written ++ ws ∧
        ⟨kind.packet pid, none⟩ ∈ ws) ∨
      ∃ j ≤ i, (kind.queue (s.outcome topicPathCapacity l).2.receives.toReceivesInner).get? j =
          some pid ∧ (s.servesAll kind l = true → 2 * (j + 1) = i + 1) := by
  by_cases hl : ∃ answers, l = .sendReceives answers
  · obtain ⟨answers, rfl⟩ := hl
    exact sendReceives_reply s answers hi
  · obtain ⟨new, hnew⟩ := s.replies_grow topicPathCapacity kind fun answers heq => hl ⟨answers, heq⟩
    refine .inr ⟨i, Nat.le_refl i, ?_, fun hall => ?_⟩
    · obtain ⟨hlt, -⟩ := List.getElem?_eq_some_iff.mp hi
      rw [BoundedVec.get?, hnew, List.getElem?_append_left hlt]
      exact hi
    · cases l with
      | sendReceives answers => exact absurd ⟨answers, rfl⟩ hl
      | _ => cases hall

/-- What is written stays written. -/
theorem written_of_run {ls : List Label}
    (hr : run (fun s l => s.next topicPathCapacity l) s ls = some s') :
    ∃ ws, s'.env.written = s.env.written ++ ws := by
  induction ls generalizing s with
  | nil =>
    obtain rfl := Option.some.inj hr
    exact ⟨[], (List.append_nil _).symm⟩
  | cons l ls ih =>
    obtain ⟨s₁, hstep, hr⟩ := run_cons_iff.mp hr
    obtain rfl := Option.some.inj hstep
    obtain ⟨ofPublish, hasks⟩ := @outcome_asksNone _ _ _ s topicPathCapacity l
    obtain ⟨ws₀, -, -, hwritten₀⟩ := hasks.packets
    obtain ⟨ws, hwritten⟩ := ih hr
    exact ⟨ws₀ ++ ws, by rw [hwritten, hwritten₀, List.append_assoc]⟩

/-- A reply with `i` others before it is written within any run with so many passes that serve its
whole queue that `i + 1 < 2 ^ k`, whatever arrives and is refused in between. -/
theorem reply_written {ls : List Label}
    (hi : (kind.queue s.receives.toReceivesInner).get? i = some pid)
    (hr : run (fun s l => s.next topicPathCapacity l) s ls = some s')
    (hk : i + 1 < 2 ^ servedPasses topicPathCapacity kind s ls) :
    ∃ ws, s'.env.written = s.env.written ++ ws ∧ ⟨kind.packet pid, none⟩ ∈ ws := by
  induction ls generalizing s i with
  | nil => exact absurd hk (by simp [servedPasses])
  | cons l ls ih =>
    obtain ⟨s₁, hstep, hr⟩ := run_cons_iff.mp hr
    obtain rfl := Option.some.inj hstep
    rcases s.outcome_reply topicPathCapacity l hi with ⟨ws, hwritten, hmem⟩ | ⟨j, hj, hget, hhalf⟩
    · obtain ⟨ws', hwritten'⟩ := written_of_run hr
      refine ⟨ws ++ ws', ?_, List.mem_append_left _ hmem⟩
      rw [hwritten', hwritten, List.append_assoc]
    · have hlater : j + 1 < 2 ^ servedPasses topicPathCapacity kind
          (s.outcome topicPathCapacity l).2 ls := by
        rw [servedPasses, Nat.pow_add] at hk
        cases hserves : s.servesAll kind l with
        | true =>
          have := hhalf hserves
          rw [hserves, Bool.toNat_true, pow_one] at hk
          omega
        | false =>
          rw [hserves, Bool.toNat_false, pow_zero] at hk
          omega
      obtain ⟨ws, hwritten, hmem⟩ := ih hget hr hlater
      obtain ⟨ofPublish, hasks⟩ := @outcome_asksNone _ _ _ s topicPathCapacity l
      obtain ⟨ws₀, -, -, hwritten₀⟩ := hasks.packets
      refine ⟨ws₀ ++ ws, ?_, List.mem_append_right _ hmem⟩
      rw [hwritten, hwritten₀, List.append_assoc]

/-- A message of QoS 1 from the broker. -/
def arriving (pid : Pid) : Label := .receive (.publish ⟨false, .atLeastOnce pid, false, [116], [1]⟩)

/-- Of three PUBACKs the one in the middle is passed over, and another one comes before the next
pass. -/
theorem reply_written_on_passedOver :
    let queued : List Label := [arriving ⟨1, Nat.one_pos, Pid.one_lt⟩,
      arriving ⟨2, by decide, by decide⟩, arriving ⟨3, by decide, by decide⟩]
    let later : List Label := [.sendReceives [.ok true, .ok true],
      arriving ⟨4, by decide, by decide⟩, .sendReceives [.ok true]]
    ∃ s s' : Client 4 8 8, run (fun s l => s.next 16 l) new queued = some s ∧
      run (fun s l => s.next 16 l) s later = some s' ∧ s.env.written = [] ∧
      ⟨.puback ⟨2, by decide, by decide⟩, none⟩ ∈ s'.env.written := by
  intro queued later
  obtain ⟨s, hs, hnothing, hqueued, hpasses⟩ : ∃ s : Client 4 8 8,
      run (fun s l => s.next 16 l) new queued = some s ∧ s.env.written = [] ∧
        (Reply.puback.queue s.receives.toReceivesInner).get? 1 = some ⟨2, by decide, by decide⟩ ∧
        1 + 1 < 2 ^ servedPasses 16 .puback s later := ⟨_, rfl, by decide +kernel⟩
  obtain ⟨s', hs'⟩ : ∃ s', run (fun s l => s.next 16 l) s later = some s' := ⟨_, rfl⟩
  obtain ⟨ws, hwritten, hmem⟩ := reply_written hqueued hs' hpasses
  refine ⟨s, s', hs, hs', hnothing, ?_⟩
  rw [hwritten]
  exact List.mem_append_right _ hmem

end Client

end EmbeddedMqttc
