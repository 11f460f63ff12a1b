import EmbeddedMqttc.AckProgress
import EmbeddedMqttc.Library.Progress

/-!
# The exchanges that a broker opens

A message of QoS 2 is acknowledged in two steps: its PUBREC is written and its pid waits in
`await_pubrel`, and the PUBREL that the broker sends queues the PUBCOMP. When no pid waits for ever,
both are written in the end (`receipts_completed`). While `await_pubrel` is full no PUBREC is written,
also not when a PUBLISH is repeated because its PUBREC was lost: when that has happened to all pids
that wait, no PUBREC is written any more (`pubrecs_withheld`).
-/

namespace EmbeddedMqttc

open Prog EmbeddedMqttc.Comp Run Filter

variable {QUEUE BUFFER TOPIC : Nat}

namespace Receives

variable {BUFFER TOPIC_SIZE PARALLEL_RECEIVES : Nat}
  {c s : Ctx (Receives BUFFER TOPIC_SIZE PARALLEL_RECEIVES)}
  {r : Except (Stop MqttError) SendResult} {kind : Reply} {pid : Pid} {i : Nat}

/-- A pass writes a reply, or brings it nearer to the front, or it writes no reply of this kind. A pid
whose PUBREC is written waits for its PUBREL. -/
theorem Passed.reply_moves (h : Passed c r s)
    (hi : (kind.queue c.inner.toReceivesInner).get? i = some pid) :
    ((∃ ws, s.env.written = c.env.written ++ ws ∧ ⟨kind.packet pid, none⟩ ∈ ws) ∧
        (kind = .pubrec → pid ∈ s.inner.awaitPubrel)) ∨
      (∃ j < i, (kind.queue s.inner.toReceivesInner).get? j = some pid) ∨
      (kind.count c = 0 ∧ (kind.queue s.inner.toReceivesInner).get? i = some pid) := by
  obtain ⟨hqueue, ws, hwritten, hws⟩ := h.reply kind
  rcases List.evens_or_skipped (kind.count c) hi with hmem | ⟨j, hj, hget, hnearer, -⟩
  · refine .inl ⟨⟨ws, hwritten, hws pid hmem⟩, ?_⟩
    rintro rfl
    have hpid : pid ∈ s.inner.awaitPubrel.toList := by
      rw [h.awaitPubrel]
      exact List.mem_append_right _ hmem
    exact hpid
  · rcases Nat.eq_zero_or_pos (kind.count c) with hzero | hpos
    · rw [hzero, List.skipped_zero] at hqueue
      exact .inr (.inr ⟨hzero, (congrArg (·[i]?) hqueue).trans hi⟩)
    · exact .inr (.inl ⟨j, hnearer hpos, (congrArg (·[j]?) hqueue).trans hget⟩)

/-- No pid goes to `await_pubrel` without its PUBREC. -/
theorem Passed.awaitPubrel_of_none (h : Passed c r s) (hnone : pubrecCount c = 0) :
    s.inner.awaitPubrel.toList = c.inner.awaitPubrel.toList := by
  rw [h.awaitPubrel, hnone, wrote_zero, List.append_nil]

/-- When nothing is refused and a reply waits, only a full `await_pubrel` holds it back. -/
theorem Passed.full_of_none (h : Passed c r s) (hr : r = .ok .sentAll) (hnone : kind.count c = 0)
    (hi : (kind.queue c.inner.toReceivesInner).get? i = some pid) :
    kind = .pubrec ∧ c.inner.awaitPubrel.isFull = true := by
  have hlimit := (h.count_eq hr kind).symm.trans hnone
  obtain ⟨hlen, -⟩ := List.getElem?_eq_some_iff.mp hi
  cases kind with
  | pubrec =>
    refine ⟨rfl, BoundedVec.isFull_iff.mpr ?_⟩
    have hle := c.inner.awaitPubrel.length_le
    simp only [Reply.limit, Reply.queue, pubrecLimit, turns, BoundedVec.len] at hlimit hlen
    omega
  | puback =>
    simp only [Reply.limit, Reply.queue, pubackLimit, turns, BoundedVec.len] at hlimit hlen
    omega
  | pubcomp =>
    simp only [Reply.limit, Reply.queue, pubcompLimit, turns, BoundedVec.len] at hlimit hlen
    omega

theorem pubrecCount_of_full (h : c.inner.awaitPubrel.isFull = true) : pubrecCount c = 0 := by
  have hfull := BoundedVec.isFull_iff.mp h
  unfold pubrecCount pubrecLimit BoundedVec.len
  omega

theorem onPublish_awaitPubrel (c : Ctx (Receives BUFFER TOPIC_SIZE PARALLEL_RECEIVES))
    (message : Publish) :
    ((onPublish message).exec c).2.inner.awaitPubrel = c.inner.awaitPubrel := by
  cases hq : message.qospid with
  | atMostOnce => rcases onPublish_atMostOnce_cases c hq with ⟨m, -, h⟩ | ⟨e, h⟩ <;> rw [h]
  | atLeastOnce pid =>
    rcases onPublish_atLeastOnce_cases c hq with
      ⟨m, pubacks, -, -, h⟩ | ⟨m, e, -, h⟩ | ⟨e, h⟩ <;> rw [h]
  | exactlyOnce pid =>
    rcases onPublish_exactlyOnce_cases c hq with ⟨-, e, h⟩ |
      ⟨pubrecs, -, ⟨-, h⟩ | ⟨-, m, -, h⟩ | ⟨-, e, -, h⟩⟩ <;> rw [h]

/-- A PUBREL that finds room for its PUBCOMP takes the pid out of `await_pubrel`. -/
theorem onPubrel_takes (c : Ctx (Receives BUFFER TOPIC_SIZE PARALLEL_RECEIVES)) (pid : Pid) :
    (c.inner.sendPubcomp.isFull = true ∧ ((onPubrel pid).exec c).2 = c) ∨
      c.inner.sendPubcomp.isFull = false ∧
        ((onPubrel pid).exec c).2.inner.awaitPubrel.toList = c.inner.awaitPubrel.toList.erase pid ∧
        pid ∈ ((onPubrel pid).exec c).2.inner.sendPubcomp := by
  unfold onPubrel
  rw [exec_get_bind]
  cases hpush : c.inner.sendPubcomp.push pid with
  | none => exact .inl ⟨BoundedVec.push_eq_none_iff.mp hpush, rfl⟩
  | some pubcomps =>
    obtain ⟨hroom, hqueue⟩ := BoundedVec.push_eq_some_iff.mp hpush
    have hmem : pid ∈ pubcomps.toList := by simp [hqueue]
    simp only [modifyInner_bind_exec]
    refine .inr ⟨BoundedVec.not_isFull_iff.mpr hroom, ?_⟩
    rw [List.erase_eq_eraseIdx]
    cases hpos : c.inner.awaitPubrel.position (· == pid) with
    | none =>
      have hidx : c.inner.awaitPubrel.toList.idxOf? pid = none := hpos
      rw [hidx]
      exact ⟨rfl, hmem⟩
    | some i =>
      have hidx : c.inner.awaitPubrel.toList.idxOf? pid = some i := hpos
      rw [hidx]
      exact ⟨rfl, hmem⟩

end Receives

namespace Client

open Receives

variable {topicPathCapacity : Nat} {s s' : Client QUEUE BUFFER TOPIC} {l : Label} {kind : Reply}
  {pid : Pid} {i n : Nat}

/-- The pid whose PUBREL a step processes. Without room for the PUBCOMP it fails. -/
def released (s : Client QUEUE BUFFER TOPIC) : Label → Option Pid
  | .receive (.pubrel pid) => if s.receives.sendPubcomp.isFull then none else some pid
  | _ => none

variable (s topicPathCapacity) in
/-- Apart from the send passes only a PUBREL touches `await_pubrel`. -/
theorem outcome_released (hl : ∀ answers, l ≠ .sendReceives answers) :
    (s.released l = none ∧
        (s.outcome topicPathCapacity l).2.receives.awaitPubrel = s.receives.awaitPubrel) ∨
      ∃ pid, s.released l = some pid ∧
        (s.outcome topicPathCapacity l).2.receives.awaitPubrel.toList =
          s.receives.awaitPubrel.toList.erase pid ∧
        pid ∈ (s.outcome topicPathCapacity l).2.receives.sendPubcomp := by
  by_cases hrequest : l.isRequest = true
  · obtain ⟨sendPublish, sendRequest, pool, waiting, autoSubscribe, issued, h⟩ :=
      s.outcome_request topicPathCapacity hrequest
    rw [h]
    refine .inl ⟨?_, rfl⟩
    cases l with
    | receive => cases hrequest
    | _ => rfl
  cases l with
  | sendReceives answers => exact absurd rfl (hl answers)
  | receive packet =>
    cases packet with
    | publish message => exact .inl ⟨rfl, onPublish_awaitPubrel ⟨s.receives, s.env⟩ message⟩
    | pubrel pid =>
      simp only [released, outcome, processPacket, callReceives]
      rcases onPubrel_takes ⟨s.receives, s.env⟩ pid with ⟨hfull, h⟩ | ⟨hroom, hawait, hmem⟩
      · rw [h, if_pos hfull]
        exact .inl ⟨rfl, rfl⟩
      · rw [if_neg (Bool.not_eq_true _ ▸ hroom)]
        exact .inr ⟨pid, rfl, hawait, hmem⟩
    | _ => exact .inl ⟨rfl, rfl⟩
  | sendPublishes | sendSubscribes | sendPing | wait => exact .inl ⟨rfl, rfl⟩
  | _ => exact absurd rfl hrequest

/-! ## What waits -/

section

variable (x : Execution (fun s : Client QUEUE BUFFER TOPIC => s.next topicPathCapacity))

/-- A reply is written in the step at `n`. -/
def Writes (packet : Packet) (n : Nat) : Prop :=
  ∃ ws, (x.state (n + 1)).env.written = (x.state n).env.written ++ ws ∧ ⟨packet, none⟩ ∈ ws

/-- The step at `n` is a send pass of the receives that is refused nothing. -/
def SendsReplies (n : Nat) : Prop :=
  ∃ answers, x.label n = .sendReceives answers ∧
    (((x.state n).scripted answers []).callReceives Receives.sendPackets).1 = .ok .sentAll

/-- There are passes that are refused nothing again and again, and the broker sends a PUBREL for each
pid that would wait for ever, at a time at which there is room for the PUBCOMP. -/
structure FairToReceipts : Prop where
  passes : ∃ᶠ n in atTop, SendsReplies x n
  releases : ∀ pid n, (∀ m, n ≤ m → pid ∈ (x.state m).receives.awaitPubrel) →
    ∃ m, n ≤ m ∧ (x.state m).released (x.label m) = some pid

/-- A reply has been written in the last step, and after its PUBREC a pid waits. -/
def Replied (kind : Reply) (pid : Pid) (n : Nat) : Prop :=
  ∃ k, n = k + 1 ∧ Writes x (kind.packet pid) k ∧
    (kind = .pubrec → pid ∈ (x.state n).receives.awaitPubrel)

/-- A full `await_pubrel` holds back the PUBRECs. -/
def HeldBack (kind : Reply) (n : Nat) : Prop :=
  kind = .pubrec ∧ (x.state n).receives.awaitPubrel.isFull = true

/-- What stands in a queue of replies. -/
def replies (kind : Reply) (n : Nat) : List Pid :=
  (kind.queue (x.state n).receives.toReceivesInner).toList

variable {x}

theorem state_succ (n : Nat) :
    x.state (n + 1) = ((x.state n).outcome topicPathCapacity (x.label n)).2 :=
  (Option.some.inj (x.step n)).symm

/-- A send pass and the replies of one kind. -/
theorem sendReceives_replies {answers : List (Except MqttError Bool)}
    (hlabel : x.label n = .sendReceives answers) (hi : (replies x kind n)[i]? = some pid) :
    Replied x kind pid (n + 1) ∨ (∃ j < i, (replies x kind (n + 1))[j]? = some pid) ∨
      ((replies x kind (n + 1))[i]? = some pid ∧
        (HeldBack x kind (n + 1) → HeldBack x kind n) ∧
        (SendsReplies x n → HeldBack x kind n)) := by
  obtain ⟨c', hpassed, hnext⟩ := (x.state n).sendReceives_passed topicPathCapacity answers
  rw [← hlabel, ← state_succ] at hnext
  have hreceives : (x.state (n + 1)).receives = c'.inner := by rw [hnext]
  have hwrites : (x.state (n + 1)).env = c'.env := by rw [hnext]
  rcases hpassed.reply_moves hi with ⟨⟨ws, hwritten, hmem⟩, hawait⟩ | hnearer | ⟨hnone, hstays⟩
  · refine .inl ⟨n, rfl, ⟨ws, ?_, hmem⟩, fun hkind => ?_⟩
    · rw [hwrites, hwritten]
      rfl
    · rw [hreceives]
      exact hawait hkind
  · unfold replies
    rw [hreceives]
    exact .inr (.inl hnearer)
  · refine .inr (.inr ⟨?_, ?_, ?_⟩)
    · unfold replies
      rw [hreceives]
      exact hstays
    · rintro ⟨rfl, hfull⟩
      refine ⟨rfl, ?_⟩
      rw [BoundedVec.isFull_iff, hreceives, hpassed.awaitPubrel_of_none hnone] at hfull
      exact BoundedVec.isFull_iff.mpr hfull
    · rintro ⟨answers', hlabel', hres⟩
      cases hlabel.symm.trans hlabel'
      exact hpassed.full_of_none hres hnone hi

theorem replies_line (kind : Reply) : Line (replies x kind) (Replied x kind) (HeldBack x kind) := by
  refine ⟨fun n i pid hi => ?_⟩
  by_cases hlabel : ∃ answers, x.label n = .sendReceives answers
  · obtain ⟨answers, hlabel⟩ := hlabel
    rcases sendReceives_replies hlabel hi with hreplied | hnearer | ⟨hstays, hheld, -⟩
    · exact .inr (.inl hreplied)
    · exact .inr (.inr hnearer)
    · exact .inl ⟨hstays, hheld⟩
  · have hl (answers : List (Except MqttError Bool)) : x.label n ≠ .sendReceives answers :=
      fun heq => hlabel ⟨answers, heq⟩
    refine .inl ⟨?_, ?_⟩
    · obtain ⟨new, hnew⟩ := (x.state n).replies_grow topicPathCapacity kind hl
      obtain ⟨hlt, -⟩ := List.getElem?_eq_some_iff.mp hi
      rw [replies, state_succ, hnew]
      exact (List.getElem?_append_left hlt).trans hi
    · rintro ⟨hkind, hfull⟩
      refine ⟨hkind, ?_⟩
      rw [state_succ] at hfull
      rcases (x.state n).outcome_released topicPathCapacity hl with ⟨-, hawait⟩ | ⟨pid, -, hawait, -⟩
      · exact hawait ▸ hfull
      · have hlength := BoundedVec.isFull_iff.mp hfull
        have hle := (x.state n).receives.awaitPubrel.length_le
        have herase := @List.length_erase_le _ _ pid (x.state n).receives.awaitPubrel.toList
        rw [hawait] at hlength
        exact BoundedVec.isFull_iff.mpr (by omega)

theorem awaitPubrel_awaiting : Awaiting (fun n => (x.state n).receives.awaitPubrel.toList) id
    (fun n => (x.state n).released (x.label n)) fun pid n => pid ∈ (x.state n).receives.sendPubcomp := by
  refine .of_erase fun n => ?_
  by_cases hlabel : ∃ answers, x.label n = .sendReceives answers
  · obtain ⟨answers, hlabel⟩ := hlabel
    obtain ⟨c', hpassed, hnext⟩ := (x.state n).sendReceives_passed topicPathCapacity answers
    rw [← hlabel, ← state_succ] at hnext
    rw [hlabel, hnext]
    exact .inl ⟨rfl, _, hpassed.awaitPubrel⟩
  · rw [state_succ]
    rcases (x.state n).outcome_released topicPathCapacity fun answers heq => hlabel ⟨answers, heq⟩ with
      ⟨hnone, hawait⟩ | hreleased
    · refine .inl ⟨hnone, [], ?_⟩
      rw [hawait, List.append_nil]
    · exact .inr hreleased

namespace FairToReceipts

theorem drop (h : FairToReceipts x) (n : Nat) : FairToReceipts (x.drop n) where
  passes := by
    refine frequently_atTop.mpr fun k => ?_
    obtain ⟨m, hm, hpass⟩ := frequently_atTop.mp h.passes (n + k)
    obtain ⟨j, rfl⟩ := Nat.exists_eq_add_of_le (Nat.le_trans (Nat.le_add_right n k) hm)
    exact ⟨j, by omega, hpass⟩
  releases pid k hever := by
    obtain ⟨m, hm, hreleased⟩ := h.releases pid (n + k) fun m hm => by
      obtain ⟨j, rfl⟩ := Nat.exists_eq_add_of_le (Nat.le_trans (Nat.le_add_right n k) hm)
      exact hever j (by omega)
    obtain ⟨j, rfl⟩ := Nat.exists_eq_add_of_le (Nat.le_trans (Nat.le_add_right n k) hm)
    exact ⟨j, by omega, hreleased⟩

variable (h : FairToReceipts x)
include h

/-- What waits in `await_pubrel` is released, and so there is room again. -/
theorem room (n : Nat) (hheld : HeldBack x kind n) (hqueue : 0 < QUEUE) :
    ∃ m, n ≤ m ∧ ¬HeldBack x kind m := by
  have hlength := BoundedVec.isFull_iff.mp hheld.2
  have hne : (x.state n).receives.awaitPubrel.toList ≠ [] := by
    intro hnil
    rw [hnil] at hlength
    exact absurd hlength (Nat.ne_of_lt hqueue)
  obtain ⟨m, hm, hroom⟩ := awaitPubrel_awaiting.room h.releases
    (fun n => (x.state n).receives.awaitPubrel.length_le) hne
  exact ⟨m, hm, fun hheld => absurd (BoundedVec.isFull_iff.mp hheld.2) (Nat.ne_of_lt hroom)⟩

theorem replied (kind : Reply) (pid : Pid) :
    LeadsTo (fun n => pid ∈ replies x kind n) (Replied x kind pid) := by
  intro n hn
  have hqueue : 0 < QUEUE :=
    Nat.lt_of_lt_of_le (List.length_pos_of_mem hn) (BoundedVec.length_le _)
  refine (replies_line kind).leadsTo (h.passes.mono fun k hpass => ?_)
    (fun k hheld => h.room k hheld hqueue) pid n hn
  by_cases hheld : HeldBack x kind k
  · exact .inr hheld
  · refine .inl fun i pid hi => ?_
    obtain ⟨answers, hlabel, -⟩ := id hpass
    rcases sendReceives_replies hlabel hi with hreplied | hnearer | ⟨-, -, hblocked⟩
    · exact .inl hreplied
    · exact .inr hnearer
    · exact absurd (hblocked hpass) hheld

/-- What stands in a queue of replies is written. -/
theorem writes (kind : Reply) (hn : pid ∈ replies x kind n) :
    ∃ m, n ≤ m ∧ Writes x (kind.packet pid) m ∧
      (kind = .pubrec → pid ∈ (x.state (m + 1)).receives.awaitPubrel) := by
  obtain ⟨_, -, k, rfl, hwrites, hawait⟩ := (h.drop n).replied kind pid 0 hn
  exact ⟨n + k, Nat.le_add_right n k, hwrites, hawait⟩

end FairToReceipts

/-- Every message of QoS 2 for which a PUBREC is queued gets it, and then its PUBCOMP. -/
theorem receipts_completed (h : FairToReceipts x)
    (hn : pid ∈ (x.state n).receives.sendPubrec) :
    ∃ m k, n ≤ m ∧ m < k ∧ Writes x (.pubrec pid) m ∧ Writes x (.pubcomp pid) k := by
  obtain ⟨m, hm, hpubrec, hawait⟩ := h.writes .pubrec hn
  obtain ⟨j, hj, hqueued⟩ :=
    awaitPubrel_awaiting.leadsTo h.releases pid (m + 1) (hawait rfl)
  obtain ⟨k, hk, hpubcomp, -⟩ := h.writes .pubcomp hqueued
  exact ⟨m, k, hm, by omega, hpubrec, hpubcomp⟩

end

/-- A message of QoS 2 from the broker. -/
def arrivingQos2 (dup : Bool) (pid : Pid) : Label :=
  .receive (.publish ⟨dup, .exactlyOnce pid, false, [116], [1]⟩)

def receiptPid (i : Fin 5) : Pid := ⟨i.val + 1, Nat.succ_pos _, by omega⟩

/-- A pass on a connection that takes everything. -/
def fullPass : Label := .sendReceives (List.replicate 4 (.ok true))

/-- Five messages of QoS 2. The first passes leave out every second PUBREC, and the next one finds
`await_pubrel` full with the PUBREC of the fourth message still to be written. -/
def fiveReceiptsLabels : List Label :=
  [0, 1, 2, 3].map (fun i => arrivingQos2 false (receiptPid i)) ++
    [fullPass, arrivingQos2 false (receiptPid 4), fullPass, fullPass,
      .receive (.pubrel (receiptPid 0)), fullPass, fullPass,
      .receive (.pubrel (receiptPid 2)), .receive (.pubrel (receiptPid 1)), fullPass,
      .receive (.pubrel (receiptPid 4)), fullPass, .receive (.pubrel (receiptPid 3)),
      fullPass, fullPass]

/-- These labels, and then passes that have nothing to write any more. -/
def fiveReceipts : Execution (fun s : Client 4 8 8 => s.next 16) :=
  .ofTotal (fun s l => (s.outcome 16 l).2) new fun n => fiveReceiptsLabels.getD n (.sendReceives [])

theorem fiveReceipts_label (k : Nat) : fiveReceipts.label (19 + k) = .sendReceives [] :=
  List.getD_eq_default _ _ (Nat.le_add_right 19 k)

/-- No reply waits. -/
def idle (queue : List (ReceivedPublish BUFFER TOPIC)) : Receives BUFFER TOPIC QUEUE :=
  { sendPuback := .empty, sendPubrec := .empty, awaitPubrel := .empty, sendPubcomp := .empty, queue }

theorem eq_idle {r : Receives BUFFER TOPIC QUEUE}
    (h : r.toReceivesInner = ⟨.empty, .empty, .empty, .empty⟩) : r = idle r.queue := by
  rw [idle, ← h]

theorem sendPackets_idle (queue : List (ReceivedPublish BUFFER TOPIC)) (e : Env) :
    Receives.sendPackets.exec ⟨(idle queue : Receives BUFFER TOPIC QUEUE), e⟩ =
      (.ok .sentAll, ⟨idle queue, e⟩) := rfl

theorem fiveReceipts_idle (k : Nat) :
    ∃ queue, (fiveReceipts.state (19 + k)).receives = idle queue := by
  induction k with
  | zero =>
    have hempty : (fiveReceipts.state (19 + 0)).receives.toReceivesInner =
        ⟨.empty, .empty, .empty, .empty⟩ := by decide +kernel
    exact ⟨_, eq_idle hempty⟩
  | succ k ih =>
    obtain ⟨queue, hreceives⟩ := ih
    have hstep : fiveReceipts.state (19 + (k + 1)) =
        ((fiveReceipts.state (19 + k)).outcome 16 (fiveReceipts.label (19 + k))).2 := rfl
    rw [hstep, fiveReceipts_label]
    simp only [outcome, sent, callReceives, scripted, hreceives, sendPackets_idle]
    exact ⟨queue, rfl⟩

theorem fiveReceipts_fair : FairToReceipts fiveReceipts where
  passes := by
    refine frequently_atTop.mpr fun n =>
      ⟨19 + n, Nat.le_add_left n 19, [], fiveReceipts_label n, ?_⟩
    obtain ⟨queue, hreceives⟩ := fiveReceipts_idle n
    simp only [callReceives, scripted, hreceives, sendPackets_idle]
  releases pid n hever := by
    obtain ⟨queue, hreceives⟩ := fiveReceipts_idle n
    have hmem := hever (19 + n) (Nat.le_add_left n 19)
    rw [hreceives] at hmem
    cases hmem

/-- The fourth message is passed over twice and then waits for room in `await_pubrel`. -/
theorem receipts_completed_on_fiveReceipts :
    ∃ x : Execution (fun s : Client 4 8 8 => s.next 16), FairToReceipts x ∧
      receiptPid 3 ∈ (x.state 4).receives.sendPubrec ∧
      (x.state 8).receives.sendPubrec.toList = [receiptPid 3] ∧
      (x.state 8).receives.awaitPubrel.isFull = true ∧
      ∃ m k, 4 ≤ m ∧ m < k ∧ Writes x (.pubrec (receiptPid 3)) m ∧
        Writes x (.pubcomp (receiptPid 3)) k := by
  have hqueued : receiptPid 3 ∈ (fiveReceipts.state 4).receives.sendPubrec := by decide +kernel
  exact ⟨fiveReceipts, fiveReceipts_fair, hqueued, by decide +kernel, by decide +kernel,
    receipts_completed fiveReceipts_fair hqueued⟩

end Client

/-! ## PUBRECs that are lost -/

/-- The pid of a PUBREC. -/
def Packet.pubrec? : Packet → Option Pid
  | .pubrec pid => some pid
  | _ => none

/-- The PUBRECs that have been written. -/
def Env.pubrecs (e : Env) : List Pid := e.written.filterMap (·.packet.pubrec?)

theorem Env.pubrecs_wrote {e : Env} {w : Written} (hw : w.packet.pubrec? = none) :
    (e.wrote w).pubrecs = e.pubrecs := by
  simp [pubrecs, hw]

theorem PublishesInner.sendPackets_pubrecs (c : Ctx (PublishesInner QUEUE BUFFER TOPIC)) :
    (sendPackets.exec c).2.env.pubrecs = c.env.pubrecs := by
  let I (c' : Ctx (PublishesInner QUEUE BUFFER TOPIC)) : Prop := c'.env.pubrecs = c.env.pubrecs
  have hstep : ∀ c₁ c₂, Move c₁ c₂ → I c₁ → I c₂ := by
    intro c₁ c₂ hmove h
    cases hmove with
    | asked | read => exact h
    | _ => exact (Env.pubrecs_wrote rfl).trans h
  exact sendPackets_moves.invariant (I := I) hstep rfl

theorem SubRequest.pubrec?_createPacket {topicPathCapacity : Nat} {r : SubRequest TOPIC}
    {packet : Packet} (h : r.createPacket topicPathCapacity = .ok packet) :
    packet.pubrec? = none := by
  have hasks := asks_createPacket h
  cases packet with
  | pubrec pid => cases hasks
  | _ => rfl

theorem SubsInner.send_pubrecs (topicPathCapacity : Nat) (c : Ctx (SubsInner TOPIC QUEUE)) :
    ((send topicPathCapacity).exec c).2.env.pubrecs = c.env.pubrecs := by
  let I (c' : Ctx (SubsInner TOPIC QUEUE)) : Prop := c'.env.pubrecs = c.env.pubrecs
  have hstep : ∀ c₁ c₂, Move topicPathCapacity c₁ c₂ → I c₁ → I c₂ := by
    intro c₁ c₂ hmove h
    cases hmove with
    | asked | read => exact h
    | request _ hpacket | resend _ _ hpacket =>
      exact (Env.pubrecs_wrote (SubRequest.pubrec?_createPacket hpacket)).trans h
  exact send_moves.invariant (I := I) hstep rfl

theorem PingStateInner.send_pubrecs (c : Ctx PingStateInner) :
    (send.exec c).2.env.pubrecs = c.env.pubrecs := by
  let I (c' : Ctx PingStateInner) : Prop := c'.env.pubrecs = c.env.pubrecs
  have hstep : ∀ c₁ c₂, Move c₁ c₂ → I c₁ → I c₂ := by
    intro c₁ c₂ hmove h
    cases hmove with
    | asked | read => exact h
    | request => exact (Env.pubrecs_wrote rfl).trans h
  exact send_moves.invariant (I := I) hstep rfl

theorem Receives.Passed.pubrecs_of_full {c s : Ctx (Receives BUFFER TOPIC QUEUE)}
    {r : Except (Stop MqttError) SendResult} (h : Passed c r s)
    (hfull : c.inner.awaitPubrel.isFull = true) : s.env.pubrecs = c.env.pubrecs := by
  have hnone := pubrecCount_of_full hfull
  rw [Env.pubrecs, h.written, hnone, wrote_zero]
  simp [Env.pubrecs, Packet.pubrec?, Receives.ack, List.filterMap_map]

namespace Client

variable {topicPathCapacity : Nat} {s s' : Client QUEUE BUFFER TOPIC} {l : Label}

variable (s topicPathCapacity) in
/-- Only a pass of the receives writes PUBRECs. -/
theorem outcome_pubrecs (hl : ∀ answers, l ≠ .sendReceives answers) :
    (s.outcome topicPathCapacity l).2.env.pubrecs = s.env.pubrecs := by
  by_cases hrequest : l.isRequest = true
  · obtain ⟨sendPublish, sendRequest, pool, waiting, autoSubscribe, issued, h⟩ :=
      s.outcome_request topicPathCapacity hrequest
    rw [h]
    rfl
  cases l with
  | sendReceives answers => exact absurd rfl (hl answers)
  | sendPublishes answers ticks =>
    exact PublishesInner.sendPackets_pubrecs ⟨s.publishes, (s.scripted answers ticks).env⟩
  | sendSubscribes answers ticks =>
    exact SubsInner.send_pubrecs topicPathCapacity ⟨s.subscribes, (s.scripted answers ticks).env⟩
  | sendPing answers ticks =>
    exact PingStateInner.send_pubrecs ⟨s.ping, (s.scripted answers ticks).env⟩
  | receive packet =>
    rw [Env.pubrecs, (s.receive_unwritten topicPathCapacity packet).2.1]
    rfl
  | wait d => rfl
  | _ => exact absurd rfl hrequest

/-- A PUBREL answers a PUBREC that has been written after those of `before`. -/
def AnswersPubrec (before : List Pid) (s : Client QUEUE BUFFER TOPIC) : Label → Prop
  | .receive (.pubrel pid) => ∃ new, s.env.pubrecs = before ++ new ∧ pid ∈ new
  | _ => True

/-- When `await_pubrel` is full and the PUBRECs written so far are lost, a broker that waits for them
waits for ever: however often it repeats its messages, no PUBREC is written. -/
theorem pubrecs_withheld {ls : List Label} (hfull : s.receives.awaitPubrel.isFull = true)
    (hbroker : AllSteps (fun s l => s.next topicPathCapacity l) (AnswersPubrec s.env.pubrecs) s ls)
    (hr : run (fun s l => s.next topicPathCapacity l) s ls = some s') :
    s'.env.pubrecs = s.env.pubrecs ∧
      s'.receives.awaitPubrel.toList = s.receives.awaitPubrel.toList := by
  let I (t : Client QUEUE BUFFER TOPIC) : Prop := t.env.pubrecs = s.env.pubrecs ∧
    t.receives.awaitPubrel.toList = s.receives.awaitPubrel.toList
  have hstep : ∀ t l t', I t → AnswersPubrec s.env.pubrecs t l →
      t.next topicPathCapacity l = some t' → I t' := by
    intro t l t' ⟨hpubrecs, hawait⟩ hanswers hnext
    obtain rfl := Option.some.inj hnext
    by_cases hlabel : ∃ answers, l = .sendReceives answers
    · obtain ⟨answers, rfl⟩ := hlabel
      obtain ⟨c', hpassed, hnext⟩ := t.sendReceives_passed topicPathCapacity answers
      have hfull' : t.receives.awaitPubrel.isFull = true := by
        rw [BoundedVec.isFull_iff, hawait]
        exact BoundedVec.isFull_iff.mp hfull
      rw [hnext]
      exact ⟨(hpassed.pubrecs_of_full hfull').trans hpubrecs,
        (hpassed.awaitPubrel_of_none (Receives.pubrecCount_of_full hfull')).trans hawait⟩
    · have hl (answers : List (Except MqttError Bool)) : l ≠ .sendReceives answers :=
        fun heq => hlabel ⟨answers, heq⟩
      refine ⟨(t.outcome_pubrecs topicPathCapacity hl).trans hpubrecs, ?_⟩
      rcases t.outcome_released topicPathCapacity hl with ⟨-, hsame⟩ | ⟨pid, hreleased, -, -⟩
      · rw [hsame]
        exact hawait
      · obtain ⟨new, hnew, hmem⟩ : ∃ new, t.env.pubrecs = s.env.pubrecs ++ new ∧ pid ∈ new := by
          unfold released at hreleased
          split at hreleased
          · obtain rfl : _ = pid := (Option.ite_none_left_eq_some.mp hreleased).2 |> Option.some.inj
            exact hanswers
          · cases hreleased
        rw [List.self_eq_append_right.mp (hpubrecs.symm.trans hnew)] at hmem
        cases hmem
  exact AllSteps.invariant (I := I) hstep ⟨rfl, rfl⟩ hbroker hr

/-- The PUBRECs of two messages are lost, and the messages are repeated. -/
theorem pubrecs_withheld_on_repeated :
    let taken : List Label := [arrivingQos2 false ⟨1, Nat.one_pos, Pid.one_lt⟩,
      arrivingQos2 false ⟨2, by decide, by decide⟩, .sendReceives [.ok true],
      .sendReceives [.ok true]]
    let repeated : List Label := [arrivingQos2 true ⟨1, Nat.one_pos, Pid.one_lt⟩,
      arrivingQos2 true ⟨2, by decide, by decide⟩, .sendReceives [.ok true, .ok true]]
    ∃ s s' : Client 2 8 8, run (fun s l => s.next 16 l) new taken = some s ∧
      run (fun s l => s.next 16 l) s repeated = some s' ∧
      s'.receives.sendPubrec.len = 2 ∧
      s'.env.pubrecs = [⟨1, Nat.one_pos, Pid.one_lt⟩, ⟨2, by decide, by decide⟩] := by
  intro taken repeated
  obtain ⟨s, s', hs, hr, hfull, hpubrecs, hqueued⟩ : ∃ s s' : Client 2 8 8,
      run (fun s l => s.next 16 l) new taken = some s ∧
        run (fun s l => s.next 16 l) s repeated = some s' ∧
        s.receives.awaitPubrel.isFull = true ∧
        s.env.pubrecs = [⟨1, Nat.one_pos, Pid.one_lt⟩, ⟨2, by decide, by decide⟩] ∧
        s'.receives.sendPubrec.len = 2 := ⟨_, _, rfl, rfl, by decide +kernel⟩
  have hbroker : AllSteps (fun s l => s.next 16 l) (AnswersPubrec s.env.pubrecs) s repeated := by
    refine .of_forall fun l hl t => ?_
    rcases List.mem_cons.mp hl with rfl | hl
    · trivial
    rcases List.mem_cons.mp hl with rfl | hl
    · trivial
    obtain rfl := List.mem_singleton.mp hl
    trivial
  refine ⟨s, s', hs, hr, hqueued, ?_⟩
  rw [(pubrecs_withheld hfull hbroker hr).1, hpubrecs]

end Client

end EmbeddedMqttc
