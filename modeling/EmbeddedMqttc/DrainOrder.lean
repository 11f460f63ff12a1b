import EmbeddedMqttc.ReceiveCalls
import EmbeddedMqttc.Library.Skipping

/-!
# The order of the acknowledgements

Each loop of `Receives::send_packets` goes on at the next index after it has removed an entry, so it
passes over every second one. What a pass writes and leaves is stated exactly, and from it when the
pass drains the queues in order.
-/

namespace EmbeddedMqttc

open Prog EmbeddedMqttc.Comp Run

namespace Receives

variable {BUFFER TOPIC_SIZE PARALLEL_RECEIVES : Nat}

/-- A packet of an acknowledgement, as it is recorded. -/
def ack (packet : Pid → Packet) (pid : Pid) : Written := ⟨packet pid, none⟩

/-- What a pass from `c` to `c'` that gives `r` has to do: it writes an initial segment of each
queue and leaves the rest. -/
structure Drains (c : Ctx (Receives BUFFER TOPIC_SIZE PARALLEL_RECEIVES))
    (r : Except (Stop MqttError) SendResult)
    (c' : Ctx (Receives BUFFER TOPIC_SIZE PARALLEL_RECEIVES))
    (pubacks pubrecs pubcomps : List Pid) : Prop where
  written : c'.env.written = c.env.written ++
    (pubacks.map (ack .puback) ++ pubrecs.map (ack .pubrec) ++ pubcomps.map (ack .pubcomp))
  sendPuback : pubacks ++ c'.inner.sendPuback.toList = c.inner.sendPuback.toList
  sendPubrec : pubrecs ++ c'.inner.sendPubrec.toList = c.inner.sendPubrec.toList
  sendPubcomp : pubcomps ++ c'.inner.sendPubcomp.toList = c.inner.sendPubcomp.toList
  /-- The pids whose PUBREC was written are in `await_pubrel`, which limits their number. -/
  awaitPubrel : c'.inner.awaitPubrel.toList = c.inner.awaitPubrel.toList ++ pubrecs
  emptied : pubrecs ≠ [] → c'.inner.sendPuback.toList = []
  notRefused : pubcomps ≠ [] →
    ∀ answer ∈ c.env.answers.take (pubacks.length + pubrecs.length), answer = .ok true
  sentAll : r = .ok .sentAll → c'.inner.sendPuback.toList = [] ∧ c'.inner.sendPubcomp.toList = [] ∧
    (c'.inner.sendPubrec.toList = [] ∨ c'.inner.awaitPubrel.isFull = true)

/-- A pass drains the queues in order. -/
def DrainsInOrder (c : Ctx (Receives BUFFER TOPIC_SIZE PARALLEL_RECEIVES)) : Prop :=
  ∃ pubacks pubrecs pubcomps,
    Drains c (sendPackets.exec c).1 (sendPackets.exec c).2 pubacks pubrecs pubcomps

/-! ## What a pass does -/

/-- How many entries a loop writes of a queue of this length when none is refused. -/
def turns (len : Nat) : Nat := (len + 1) / 2

variable {c s s' : Ctx (Receives BUFFER TOPIC_SIZE PARALLEL_RECEIVES)} {k i limit : Nat} {pid : Pid}
  {queue : ReceivesInner PARALLEL_RECEIVES → BoundedVec Pid PARALLEL_RECEIVES}
  {packet : Pid → Packet}
  {turn : Nat → ReceivesCall BUFFER TOPIC_SIZE PARALLEL_RECEIVES (SendResult ⊕ Nat)}
  {sent : Nat → Pid → Receives BUFFER TOPIC_SIZE PARALLEL_RECEIVES →
    Receives BUFFER TOPIC_SIZE PARALLEL_RECEIVES}

/-- The entries of a queue that `k` turns of a loop write. -/
def wrote (queue : ReceivesInner PARALLEL_RECEIVES → BoundedVec Pid PARALLEL_RECEIVES)
    (c : Ctx (Receives BUFFER TOPIC_SIZE PARALLEL_RECEIVES)) (k : Nat) : List Pid :=
  ((queue c.inner.toReceivesInner).toList.take (2 * k)).evens

/-- A loop over `queue` that began in `c` has written `k` entries. -/
structure Skipped (queue : ReceivesInner PARALLEL_RECEIVES → BoundedVec Pid PARALLEL_RECEIVES)
    (packet : Pid → Packet) (c : Ctx (Receives BUFFER TOPIC_SIZE PARALLEL_RECEIVES)) (k : Nat)
    (s : Ctx (Receives BUFFER TOPIC_SIZE PARALLEL_RECEIVES)) : Prop where
  left : (queue s.inner.toReceivesInner).toList =
    (queue c.inner.toReceivesInner).toList.skipped k
  written : s.env.written = c.env.written ++ (wrote queue c k).map (ack packet)
  acceptances : s.env.acceptances + k = c.env.acceptances

theorem Skipped.refl : Skipped queue packet c 0 c := by
  constructor <;> simp [wrote, List.evens]

/-- The turn at index `k` finds an entry when half of the queue is not yet behind it. -/
theorem Skipped.lt_turns (h : Skipped queue packet c k s)
    (hk : k ≤ turns (queue c.inner.toReceivesInner).len) :
    k < (queue s.inner.toReceivesInner).len ↔ k < turns (queue c.inner.toReceivesInner).len := by
  unfold turns BoundedVec.len at *
  rw [h.left, List.lt_length_skipped_iff (by omega)]
  omega

theorem writeTurn_accepted (hget : (queue s.inner.toReceivesInner).get? i = some pid)
    (ha : 0 < s.env.acceptances) : (writeTurn queue packet sent i).exec s =
      (.ok (.inr (i + 1)), { inner := sent i pid s.inner, env := s.env.wrote (ack packet pid) }) := by
  unfold writeTurn
  rw [exec_get_bind, hget, exec_unwrap_some_bind, exec_bind_ok (tryWritePacket_accepted s _ ha),
    if_pos rfl, modifyInner_bind_exec, exec_pure]
  rfl

theorem writeTurn_refused (hget : (queue s.inner.toReceivesInner).get? i = some pid)
    (ha : s.env.acceptances = 0) :
    (writeTurn queue packet sent i).exec s =
        (.ok (.inl .partiallySent), { s with env := s.env.asked }) ∨
      ∃ e, (writeTurn queue packet sent i).exec s =
        (.error (.fail e), { s with env := s.env.asked }) := by
  unfold writeTurn
  rw [exec_get_bind, hget, exec_unwrap_some_bind]
  rcases tryWritePacket_refused s ⟨packet pid, none⟩ ha with h | ⟨e, h⟩
  · exact .inl (exec_bind_ok h)
  · exact .inr ⟨e, exec_bind_error h⟩

/-- What a loop does to the queues, and what it gives. `rest` relates what else it changes to the
entries that it has written; `limit` bounds their number. -/
structure Looped (queue : ReceivesInner PARALLEL_RECEIVES → BoundedVec Pid PARALLEL_RECEIVES)
    (packet : Pid → Packet)
    (rest : List Pid → Receives BUFFER TOPIC_SIZE PARALLEL_RECEIVES → Prop) (limit : Nat)
    (c : Ctx (Receives BUFFER TOPIC_SIZE PARALLEL_RECEIVES)) (r : Except (Stop MqttError) SendResult)
    (s : Ctx (Receives BUFFER TOPIC_SIZE PARALLEL_RECEIVES)) : Prop where
  left : (queue s.inner.toReceivesInner).toList =
    (queue c.inner.toReceivesInner).toList.skipped (min c.env.acceptances limit)
  written : s.env.written =
    c.env.written ++ (wrote queue c (min c.env.acceptances limit)).map (ack packet)
  rest : rest (wrote queue c (min c.env.acceptances limit)) s.inner
  sentAll : r = .ok .sentAll ∧ s.env.acceptances + limit = c.env.acceptances ∨
    (r = .ok .partiallySent ∨ ∃ e, r = .error (.fail e)) ∧ c.env.acceptances < limit

theorem Skipped.looped {rest : List Pid → Receives BUFFER TOPIC_SIZE PARALLEL_RECEIVES → Prop}
    {r : Except (Stop MqttError) SendResult} (h : Skipped queue packet c k s)
    (hinner : s'.inner = s.inner)
    (hwritten : s'.env.written = c.env.written ++ (wrote queue c k).map (ack packet))
    (hrest : rest (wrote queue c k) s.inner) (hk : min c.env.acceptances limit = k)
    (hr : r = .ok .sentAll ∧ s'.env.acceptances + limit = c.env.acceptances ∨
      (r = .ok .partiallySent ∨ ∃ e, r = .error (.fail e)) ∧ c.env.acceptances < limit) :
    Looped queue packet rest limit c r s' := by
  refine ⟨?_, ?_, ?_, hr⟩ <;> rw [hk]
  · rw [hinner]
    exact h.left
  · exact hwritten
  · rwa [hinner]

/-- The turn at index `k` writes the entry behind those that the loop has passed over. -/
theorem Skipped.wrote_succ (h : Skipped queue packet c k s)
    (hk : 2 * k < (queue c.inner.toReceivesInner).toList.length)
    (hget : (queue s.inner.toReceivesInner).get? k = some pid) :
    wrote queue c (k + 1) = wrote queue c k ++ [pid] := by
  rw [BoundedVec.get?, h.left, List.getElem?_skipped hk] at hget
  cases hget
  exact List.evens_take_succ hk

theorem Skipped.accepted (h : Skipped queue packet c k s)
    (hk : 2 * k < (queue c.inner.toReceivesInner).toList.length)
    (hget : (queue s.inner.toReceivesInner).get? k = some pid)
    (hqueue : queue (sent k pid s.inner).toReceivesInner =
      (queue s.inner.toReceivesInner).removeAt k) (ha : 0 < s.env.acceptances) :
    Skipped queue packet c (k + 1)
      { inner := sent k pid s.inner, env := s.env.wrote (ack packet pid) } := by
  have hone := s.env.acceptances_wrote (ack packet pid) ha
  have hacc := h.acceptances
  constructor
  · rw [hqueue, BoundedVec.toList_removeAt, h.left, List.eraseIdx_skipped hk]
  · rw [Env.wrote_written, h.written, h.wrote_succ hk hget, List.map_append, List.append_assoc]
    rfl
  · dsimp only at hone ⊢
    omega

/-- The invariant of a loop of writes. Its turn at index `k` comes when `k` entries have been
written. -/
def Looping (queue : ReceivesInner PARALLEL_RECEIVES → BoundedVec Pid PARALLEL_RECEIVES)
    (packet : Pid → Packet)
    (rest : List Pid → Receives BUFFER TOPIC_SIZE PARALLEL_RECEIVES → Prop) (limit : Nat)
    (c : Ctx (Receives BUFFER TOPIC_SIZE PARALLEL_RECEIVES)) (k : Nat)
    (s : Ctx (Receives BUFFER TOPIC_SIZE PARALLEL_RECEIVES)) : Prop :=
  Skipped queue packet c k s ∧ rest (wrote queue c k) s.inner ∧ k ≤ limit

section

variable {rest : List Pid → Receives BUFFER TOPIC_SIZE PARALLEL_RECEIVES → Prop}

theorem Looping.ends (h : Looping queue packet rest limit c k s)
    (hlimit : limit ≤ turns (queue c.inner.toReceivesInner).len)
    (hlen : (queue s.inner.toReceivesInner).len ≤ k) :
    Looped queue packet rest limit c (.ok .sentAll) s := by
  obtain ⟨hskip, hrest, hk⟩ := h
  have hturns := mt (hskip.lt_turns (Nat.le_trans hk hlimit)).mpr (Nat.not_lt.mpr hlen)
  have hacc := hskip.acceptances
  exact hskip.looped rfl hskip.written hrest (by omega) (.inl ⟨rfl, by omega⟩)

variable (hrefl : rest [] c.inner) (hlimit : limit ≤ turns (queue c.inner.toReceivesInner).len)
  (hturn : ∀ k s, rest (wrote queue c k) s.inner → (wrote queue c k).length = k →
    k < turns (queue c.inner.toReceivesInner).len → (turn k).exec s =
      if k < limit then (writeTurn queue packet sent k).exec s else (.ok (.inl .sentAll), s))
  (hsent : ∀ k pid r, rest (wrote queue c k) r → (wrote queue c k).length = k → k < limit →
    (queue r.toReceivesInner).get? k = some pid →
    queue (sent k pid r).toReceivesInner = (queue r.toReceivesInner).removeAt k ∧
      rest (wrote queue c k ++ [pid]) (sent k pid r))
include hlimit hturn hsent

theorem turn_looped :
    LoopTurns (fun s : Ctx (Receives BUFFER TOPIC_SIZE PARALLEL_RECEIVES) =>
        (queue s.inner.toReceivesInner).len) turn
      (Looping queue packet rest limit c) (Looped queue packet rest limit c) := by
  rintro i s ⟨hskip, hrest, hi⟩ hlen
  dsimp only at hlen ⊢
  have hturns := (hskip.lt_turns (Nat.le_trans hi hlimit)).mp hlen
  have hacc := hskip.acceptances
  have h2 : 2 * i < (queue c.inner.toReceivesInner).toList.length := by
    unfold turns BoundedVec.len at hturns
    omega
  have hlength : (wrote queue c i).length = i := by
    rw [wrote, List.length_evens, List.length_take_two_mul h2]
    omega
  have hexec := hturn i s hrest hlength hturns
  by_cases hroom : i < limit
  · rw [if_pos hroom] at hexec
    obtain ⟨pid, hget⟩ : ∃ pid, (queue s.inner.toReceivesInner).get? i = some pid :=
      ⟨_, List.getElem?_eq_getElem hlen⟩
    obtain ⟨hqueue, hnext⟩ := hsent i pid s.inner hrest hlength hroom hget
    rcases Nat.eq_zero_or_pos s.env.acceptances with hzero | hpos
    · have hmin : min c.env.acceptances limit = i := by omega
      rcases writeTurn_refused hget hzero with h | ⟨e, h⟩ <;> rw [hexec, h]
      · exact hskip.looped rfl hskip.written hrest hmin (.inr ⟨.inl rfl, by omega⟩)
      · exact hskip.looped rfl hskip.written hrest hmin (.inr ⟨.inr ⟨e, rfl⟩, by omega⟩)
    · rw [hexec, writeTurn_accepted hget hpos]
      have hlength := BoundedVec.removeAt_length hget
      refine ⟨⟨hskip.accepted h2 hget hqueue hpos, hskip.wrote_succ h2 hget ▸ hnext, hroom⟩, ?_⟩
      dsimp only
      rw [hqueue]
      omega
  · rw [hexec, if_neg hroom]
    exact hskip.looped rfl hskip.written hrest (by omega) (.inl ⟨rfl, by omega⟩)

include hrefl

variable (queue sent) in
/-- The rule for a loop of writes. -/
theorem whileIndex_looped :
    ∃ r s, (whileIndex (fun c => (queue c.inner.toReceivesInner).len) turn .sentAll
        (queue c.inner.toReceivesInner).len 0).exec c = (r, s) ∧
      Looped queue packet rest limit c r s := by
  have hstart : Looping queue packet rest limit c 0 c := by
    refine ⟨.refl, ?_, Nat.zero_le _⟩
    rwa [wrote, List.evens_take_zero]
  exact (turn_looped hlimit hturn hsent).exec (fun _ _ h hlen => h.ends hlimit hlen) hstart

end

/-! ## The whole pass -/

def pubackLimit (r : ReceivesInner PARALLEL_RECEIVES) : Nat := turns r.sendPuback.len

/-- The loop over `send_pubrec` also ends when `await_pubrel` is full. -/
def pubrecLimit (r : ReceivesInner PARALLEL_RECEIVES) : Nat :=
  min (turns r.sendPubrec.len) (PARALLEL_RECEIVES - r.awaitPubrel.len)

def pubcompLimit (r : ReceivesInner PARALLEL_RECEIVES) : Nat := turns r.sendPubcomp.len

/-- How many PUBACKs a pass writes. -/
def pubackCount (c : Ctx (Receives BUFFER TOPIC_SIZE PARALLEL_RECEIVES)) : Nat :=
  min c.env.acceptances (pubackLimit c.inner.toReceivesInner)

def pubrecCount (c : Ctx (Receives BUFFER TOPIC_SIZE PARALLEL_RECEIVES)) : Nat :=
  min (c.env.acceptances - pubackLimit c.inner.toReceivesInner) (pubrecLimit c.inner.toReceivesInner)

def pubcompCount (c : Ctx (Receives BUFFER TOPIC_SIZE PARALLEL_RECEIVES)) : Nat :=
  min (c.env.acceptances - pubackLimit c.inner.toReceivesInner -
    pubrecLimit c.inner.toReceivesInner) (pubcompLimit c.inner.toReceivesInner)

/-- How many packets a pass offers when none is refused. -/
def passLimit (c : Ctx (Receives BUFFER TOPIC_SIZE PARALLEL_RECEIVES)) : Nat :=
  pubackLimit c.inner.toReceivesInner + pubrecLimit c.inner.toReceivesInner +
    pubcompLimit c.inner.toReceivesInner

/-- What the loop over `send_puback` does. -/
def PubacksLooped (c : Ctx (Receives BUFFER TOPIC_SIZE PARALLEL_RECEIVES)) :
    Except (Stop MqttError) SendResult → Ctx (Receives BUFFER TOPIC_SIZE PARALLEL_RECEIVES) → Prop :=
  Looped (·.sendPuback) .puback (fun _ r =>
    r.sendPubrec = c.inner.sendPubrec ∧ r.awaitPubrel = c.inner.awaitPubrel ∧
      r.sendPubcomp = c.inner.sendPubcomp) (pubackLimit c.inner.toReceivesInner) c

/-- What the loop over `send_pubrec` does. -/
def PubrecsLooped (c : Ctx (Receives BUFFER TOPIC_SIZE PARALLEL_RECEIVES)) :
    Except (Stop MqttError) SendResult → Ctx (Receives BUFFER TOPIC_SIZE PARALLEL_RECEIVES) → Prop :=
  Looped (·.sendPubrec) .pubrec (fun pids r =>
    r.sendPuback = c.inner.sendPuback ∧
      r.awaitPubrel.toList = c.inner.awaitPubrel.toList ++ pids ∧
      r.sendPubcomp = c.inner.sendPubcomp) (pubrecLimit c.inner.toReceivesInner) c

/-- What the loop over `send_pubcomp` does. -/
def PubcompsLooped (c : Ctx (Receives BUFFER TOPIC_SIZE PARALLEL_RECEIVES)) :
    Except (Stop MqttError) SendResult → Ctx (Receives BUFFER TOPIC_SIZE PARALLEL_RECEIVES) → Prop :=
  Looped (·.sendPubcomp) .pubcomp (fun _ r =>
    r.sendPuback = c.inner.sendPuback ∧ r.sendPubrec = c.inner.sendPubrec ∧
      r.awaitPubrel = c.inner.awaitPubrel) (pubcompLimit c.inner.toReceivesInner) c

variable (c) in
theorem pubackLoop :
    ∃ r s, (whileIndex (fun c => c.inner.sendPuback.len) sendPubackTurn .sentAll
        c.inner.sendPuback.len 0).exec c = (r, s) ∧ PubacksLooped c r s := by
  refine whileIndex_looped (·.sendPuback)
    (fun i _ r => { r with sendPuback := r.sendPuback.removeAt i }) ⟨rfl, rfl, rfl⟩ (Nat.le_refl _)
    (fun k s _ _ hk => ?_) fun k pid r hr _ _ _ => ⟨rfl, hr⟩
  rw [pubackLimit, if_pos hk]
  rfl

variable (c) in
theorem pubcompLoop :
    ∃ r s, (whileIndex (fun c => c.inner.sendPubcomp.len) sendPubcompTurn .sentAll
        c.inner.sendPubcomp.len 0).exec c = (r, s) ∧ PubcompsLooped c r s := by
  refine whileIndex_looped (·.sendPubcomp)
    (fun i _ r => { r with sendPubcomp := r.sendPubcomp.removeAt i }) ⟨rfl, rfl, rfl⟩ (Nat.le_refl _)
    (fun k s _ _ hk => ?_) fun k pid r hr _ _ _ => ⟨rfl, hr⟩
  rw [pubcompLimit, if_pos hk]
  rfl

variable (c) in
theorem pubrecLoop :
    ∃ r s, (whileIndex (fun c => c.inner.sendPubrec.len) sendPubrecTurn .sentAll
        c.inner.sendPubrec.len 0).exec c = (r, s) ∧ PubrecsLooped c r s := by
  refine whileIndex_looped (·.sendPubrec)
    (fun i pid r =>
      { r with
        sendPubrec := r.sendPubrec.removeAt i
        awaitPubrel := (r.awaitPubrel.push pid).getD r.awaitPubrel })
    ⟨rfl, (List.append_nil _).symm, rfl⟩ (Nat.min_le_left ..)
    (fun k s hrest hlen hk => ?_) fun k pid r hrest hlen hk hget => ?_
  · obtain ⟨-, hawait, -⟩ := hrest
    have hlimit : k < pubrecLimit c.inner.toReceivesInner ↔
        s.inner.awaitPubrel.isFull = false := by
      have hbound := s.inner.awaitPubrel.length_le
      rw [BoundedVec.not_isFull_iff]
      rw [hawait, List.length_append, hlen] at hbound ⊢
      unfold pubrecLimit BoundedVec.len
      unfold BoundedVec.len at hk
      omega
    unfold sendPubrecTurn
    rw [exec_get_bind]
    cases hfull : s.inner.awaitPubrel.isFull with
    | true =>
      have hno : ¬k < pubrecLimit c.inner.toReceivesInner := by
        rw [hlimit, hfull]
        exact nofun
      rw [if_pos rfl, if_neg hno, exec_pure]
    | false => rw [if_neg Bool.false_ne_true, if_pos (hlimit.mpr hfull)]
  · obtain ⟨hpuback, hawait, hpubcomp⟩ := hrest
    have hroom : r.awaitPubrel.toList.length < PARALLEL_RECEIVES := by
      have := Nat.min_le_right (turns c.inner.sendPubrec.len)
        (PARALLEL_RECEIVES - c.inner.awaitPubrel.len)
      rw [hawait, List.length_append, hlen]
      unfold pubrecLimit at hk
      unfold BoundedVec.len at this hk
      omega
    obtain ⟨pubrels, hpush⟩ := BoundedVec.exists_push (BoundedVec.not_isFull_iff.mpr hroom) pid
    refine ⟨rfl, hpuback, ?_, hpubcomp⟩
    simp only [hpush, Option.getD_some, (BoundedVec.push_eq_some_iff.mp hpush).2, hawait,
      List.append_assoc]

/-- What a pass does, whatever is accepted. -/
structure Passed (c : Ctx (Receives BUFFER TOPIC_SIZE PARALLEL_RECEIVES))
    (r : Except (Stop MqttError) SendResult)
    (s : Ctx (Receives BUFFER TOPIC_SIZE PARALLEL_RECEIVES)) : Prop where
  written : s.env.written = c.env.written ++
    ((wrote (·.sendPuback) c (pubackCount c)).map (ack .puback) ++
    (wrote (·.sendPubrec) c (pubrecCount c)).map (ack .pubrec) ++
    (wrote (·.sendPubcomp) c (pubcompCount c)).map (ack .pubcomp))
  sendPuback : s.inner.sendPuback.toList = c.inner.sendPuback.toList.skipped (pubackCount c)
  sendPubrec : s.inner.sendPubrec.toList = c.inner.sendPubrec.toList.skipped (pubrecCount c)
  sendPubcomp : s.inner.sendPubcomp.toList = c.inner.sendPubcomp.toList.skipped (pubcompCount c)
  awaitPubrel : s.inner.awaitPubrel.toList =
    c.inner.awaitPubrel.toList ++ wrote (·.sendPubrec) c (pubrecCount c)
  sentAll : r = .ok .sentAll ↔ passLimit c ≤ c.env.acceptances

@[simp] theorem wrote_zero : wrote queue c 0 = [] := List.evens_take_zero _

/-- A refused packet ends the pass. -/
theorem refused_bind {m : ReceivesCall BUFFER TOPIC_SIZE PARALLEL_RECEIVES SendResult}
    {f : SendResult → ReceivesCall BUFFER TOPIC_SIZE PARALLEL_RECEIVES SendResult}
    {r : Except (Stop MqttError) SendResult} (hf : f .partiallySent = pure .partiallySent)
    (h : m.exec c = (r, s)) (hr : r = .ok .partiallySent ∨ ∃ e, r = .error (.fail e)) :
    (m >>= f).exec c = (r, s) := by
  rcases hr with rfl | ⟨e, rfl⟩
  · rw [exec_bind_ok h, hf, exec_pure]
  · exact exec_bind_error h

theorem not_sentAll {r : Except (Stop MqttError) SendResult}
    (hr : r = .ok .partiallySent ∨ ∃ e, r = .error (.fail e)) : r ≠ .ok .sentAll := by
  rcases hr with rfl | ⟨e, rfl⟩ <;> exact nofun

section

variable {s₁ s₂ : Ctx (Receives BUFFER TOPIC_SIZE PARALLEL_RECEIVES)}
  {r : Except (Stop MqttError) SendResult}

theorem PubacksLooped.passed (h : PubacksLooped c r s)
    (hr : r = .ok .partiallySent ∨ ∃ e, r = .error (.fail e))
    (hacc : c.env.acceptances < pubackLimit c.inner.toReceivesInner) : Passed c r s := by
  obtain ⟨hleft, hwritten, ⟨hpubrecs, hawait, hpubcomps⟩, -⟩ := h
  have hpubrec : pubrecCount c = 0 := by
    unfold pubrecCount
    omega
  have hpubcomp : pubcompCount c = 0 := by
    unfold pubcompCount
    omega
  refine ⟨?_, hleft, ?_, ?_, ?_, ?_⟩
  · rw [hpubrec, hpubcomp, hwritten]
    simp [pubackCount]
  · rw [hpubrec, hpubrecs, List.skipped_zero]
  · rw [hpubcomp, hpubcomps, List.skipped_zero]
  · rw [hpubrec, hawait, wrote_zero, List.append_nil]
  · refine iff_of_false (not_sentAll hr) ?_
    unfold passLimit
    omega

/-- The pass up to the end of the second loop. -/
structure PassedPubrecs (c : Ctx (Receives BUFFER TOPIC_SIZE PARALLEL_RECEIVES))
    (s : Ctx (Receives BUFFER TOPIC_SIZE PARALLEL_RECEIVES)) : Prop where
  written : s.env.written = c.env.written ++
    ((wrote (·.sendPuback) c (pubackCount c)).map (ack .puback) ++
    (wrote (·.sendPubrec) c (pubrecCount c)).map (ack .pubrec))
  sendPuback : s.inner.sendPuback.toList = c.inner.sendPuback.toList.skipped (pubackCount c)
  sendPubrec : s.inner.sendPubrec.toList = c.inner.sendPubrec.toList.skipped (pubrecCount c)
  sendPubcomp : s.inner.sendPubcomp = c.inner.sendPubcomp
  awaitPubrel : s.inner.awaitPubrel.toList =
    c.inner.awaitPubrel.toList ++ wrote (·.sendPubrec) c (pubrecCount c)

theorem PubacksLooped.pubrecLimit_eq (h : PubacksLooped c r s) :
    pubrecLimit s.inner.toReceivesInner = pubrecLimit c.inner.toReceivesInner := by
  obtain ⟨-, -, ⟨hpubrec, hawait, -⟩, -⟩ := h
  rw [pubrecLimit, pubrecLimit, hpubrec, hawait]

theorem PubrecsLooped.passedPubrecs {r₁ : Except (Stop MqttError) SendResult}
    (h : PubrecsLooped s₁ r s₂) (h₁ : PubacksLooped c r₁ s₁)
    (hacc : s₁.env.acceptances + pubackLimit c.inner.toReceivesInner = c.env.acceptances) :
    PassedPubrecs c s₂ := by
  have hlimit := h₁.pubrecLimit_eq
  have hcount : min s₁.env.acceptances (pubrecLimit s₁.inner.toReceivesInner) = pubrecCount c := by
    rw [hlimit, pubrecCount]
    omega
  obtain ⟨hleft₁, hwritten₁, ⟨hpubrec₁, hawait₁, hpubcomp₁⟩, -⟩ := h₁
  obtain ⟨hleft₂, hwritten₂, ⟨hpuback₂, hawait₂, hpubcomp₂⟩, -⟩ := h
  have hwrote : wrote (·.sendPubrec) s₁ (pubrecCount c) =
      wrote (·.sendPubrec) c (pubrecCount c) := by
    rw [wrote, wrote, hpubrec₁]
  rw [hcount] at hleft₂ hwritten₂ hawait₂
  rw [hwrote] at hwritten₂ hawait₂
  refine ⟨?_, ?_, ?_, hpubcomp₂.trans hpubcomp₁, ?_⟩
  · rw [hwritten₂, hwritten₁, List.append_assoc]
    rfl
  · rw [hpuback₂]
    exact hleft₁
  · rw [hleft₂, hpubrec₁]
  · rw [hawait₂, hawait₁]

theorem PassedPubrecs.refused (h : PassedPubrecs c s)
    (hr : r = .ok .partiallySent ∨ ∃ e, r = .error (.fail e))
    (hacc : c.env.acceptances <
      pubackLimit c.inner.toReceivesInner + pubrecLimit c.inner.toReceivesInner) :
    Passed c r s := by
  have hpubcomp : pubcompCount c = 0 := by
    unfold pubcompCount
    omega
  refine ⟨?_, h.sendPuback, h.sendPubrec, ?_, h.awaitPubrel, ?_⟩
  · rw [h.written, hpubcomp, wrote_zero, List.map_nil, List.append_nil]
  · rw [hpubcomp, h.sendPubcomp, List.skipped_zero]
  · refine iff_of_false (not_sentAll hr) ?_
    unfold passLimit
    omega

theorem PubcompsLooped.passed (h : PubcompsLooped s₂ r s) (h₂ : PassedPubrecs c s₂)
    (hacc : s₂.env.acceptances + pubackLimit c.inner.toReceivesInner +
      pubrecLimit c.inner.toReceivesInner = c.env.acceptances) : Passed c r s := by
  have hlimit : pubcompLimit s₂.inner.toReceivesInner = pubcompLimit c.inner.toReceivesInner := by
    rw [pubcompLimit, pubcompLimit, h₂.sendPubcomp]
  have hcount : min s₂.env.acceptances (pubcompLimit s₂.inner.toReceivesInner) = pubcompCount c := by
    rw [hlimit, pubcompCount]
    omega
  obtain ⟨hleft, hwritten, ⟨hpuback, hpubrec, hawait⟩, hr⟩ := h
  have hwrote : wrote (·.sendPubcomp) s₂ (pubcompCount c) =
      wrote (·.sendPubcomp) c (pubcompCount c) := by
    rw [wrote, wrote, h₂.sendPubcomp]
  rw [hcount] at hleft hwritten
  refine ⟨?_, ?_, ?_, ?_, ?_, ?_⟩
  · rw [hwritten, h₂.written, hwrote, List.append_assoc]
  · rw [hpuback, h₂.sendPuback]
  · rw [hpubrec, h₂.sendPubrec]
  · rw [hleft, h₂.sendPubcomp]
  · rw [hawait, h₂.awaitPubrel]
  · unfold passLimit
    rcases hr with ⟨rfl, hacc'⟩ | ⟨hr, hacc'⟩
    · exact iff_of_true rfl (by omega)
    · exact iff_of_false (not_sentAll hr) (by omega)

end

variable (c) in
theorem sendPackets_passed : ∃ r s, sendPackets.exec c = (r, s) ∧ Passed c r s := by
  obtain ⟨r₁, s₁, h₁, hloop₁⟩ := pubackLoop c
  rw [sendPackets, exec_get_bind]
  rcases hloop₁.sentAll with ⟨rfl, hacc₁⟩ | ⟨hr₁, hacc₁⟩
  · rw [exec_bind_ok h₁]
    obtain ⟨r₂, s₂, h₂, hloop₂⟩ := pubrecLoop s₁
    have hpassed := hloop₂.passedPubrecs hloop₁ hacc₁
    have hlimit := hloop₁.pubrecLimit_eq
    rw [hloop₁.rest.1] at h₂
    dsimp only
    rcases hloop₂.sentAll with ⟨rfl, hacc₂⟩ | ⟨hr₂, hacc₂⟩
    · rw [exec_bind_ok h₂]
      obtain ⟨r₃, s₃, h₃, hloop₃⟩ := pubcompLoop s₂
      rw [hpassed.sendPubcomp] at h₃
      exact ⟨r₃, s₃, h₃, hloop₃.passed hpassed (by omega)⟩
    · exact ⟨r₂, s₂, refused_bind rfl h₂ hr₂, hpassed.refused hr₂ (by omega)⟩
  · exact ⟨r₁, s₁, refused_bind rfl h₁ hr₁, hloop₁.passed hr₁ hacc₁⟩

/-! ## When a pass drains in order -/

/-- When a pass drains the queues in order. No loop writes an entry after it has passed over one,
unless their pids make no difference; and where all that is offered is accepted, no loop has passed
over an entry, or `await_pubrel` is full. -/
structure KeepsOrder (c : Ctx (Receives BUFFER TOPIC_SIZE PARALLEL_RECEIVES)) : Prop where
  pubacks : c.inner.sendPuback.toList.Unshuffled (pubackCount c)
  pubrecs : c.inner.sendPubrec.toList.Unshuffled (pubrecCount c)
  pubcomps : c.inner.sendPubcomp.toList.Unshuffled (pubcompCount c)
  emptied : pubrecCount c = 0 ∨ c.inner.sendPuback.len ≤ 1
  sentAll : c.env.acceptances < passLimit c ∨
    c.inner.sendPuback.len ≤ 1 ∧ c.inner.sendPubcomp.len ≤ 1 ∧
      (c.inner.sendPubrec.len ≤ 1 ∨
        PARALLEL_RECEIVES - c.inner.awaitPubrel.len ≤ turns c.inner.sendPubrec.len)

theorem pubackPids_append (l m : List Written) : pubackPids (l ++ m) = pubackPids l ++ pubackPids m :=
  List.filterMap_append

theorem pubrecPids_append (l m : List Written) : pubrecPids (l ++ m) = pubrecPids l ++ pubrecPids m :=
  List.filterMap_append

theorem pubackPids_acks (pubacks pubrecs pubcomps : List Pid) :
    pubackPids (pubacks.map (ack .puback) ++ pubrecs.map (ack .pubrec) ++
      pubcomps.map (ack .pubcomp)) = pubacks := by
  simp [pubackPids, ack, List.filterMap_map, Function.comp_def]

theorem pubrecPids_acks (pubacks pubrecs pubcomps : List Pid) :
    pubrecPids (pubacks.map (ack .puback) ++ pubrecs.map (ack .pubrec) ++
      pubcomps.map (ack .pubcomp)) = pubrecs := by
  simp [pubrecPids, ack, List.filterMap_map, Function.comp_def]

theorem ack_injective_pubcomp : Function.Injective (ack .pubcomp) := by
  intro p q h
  cases h
  rfl

theorem Drains.unique {r : Except (Stop MqttError) SendResult} {pubacks pubrecs pubcomps : List Pid}
    (hdrains : Drains c r s pubacks pubrecs pubcomps) (hpassed : Passed c r s) :
    pubacks = wrote (·.sendPuback) c (pubackCount c) ∧
      pubrecs = wrote (·.sendPubrec) c (pubrecCount c) ∧
      pubcomps = wrote (·.sendPubcomp) c (pubcompCount c) := by
  have heq := List.append_cancel_left (hdrains.written.symm.trans hpassed.written)
  have hpubacks := congrArg pubackPids heq
  have hpubrecs := congrArg pubrecPids heq
  rw [pubackPids_acks, pubackPids_acks] at hpubacks
  rw [pubrecPids_acks, pubrecPids_acks] at hpubrecs
  rw [hpubacks, hpubrecs] at heq
  exact ⟨hpubacks, hpubrecs,
    List.map_injective_iff.mpr ack_injective_pubcomp (List.append_cancel_left heq)⟩

theorem length_wrote (hk : k ≤ turns (queue c.inner.toReceivesInner).len) :
    (wrote queue c k).length = k := by
  rw [wrote, List.length_evens, List.length_take]
  unfold turns BoundedVec.len at hk
  omega

/-- A loop that has offered all that it can has emptied a queue of one entry at most. -/
theorem skipped_eq_nil_iff {l : List Pid} (hk : k ≤ turns l.length) :
    l.skipped k = [] ↔ l.length ≤ 1 ∧ k = l.length := by
  rw [← List.length_eq_zero_iff, List.length_skipped]
  unfold turns at hk
  omega

theorem pubackCount_le : pubackCount c ≤ turns c.inner.sendPuback.len := Nat.min_le_right ..

theorem pubrecCount_le : pubrecCount c ≤ turns c.inner.sendPubrec.len :=
  Nat.le_trans (Nat.min_le_right ..) (Nat.min_le_left ..)

theorem isFull_awaitPubrel_iff {r : Except (Stop MqttError) SendResult} (h : Passed c r s) :
    s.inner.awaitPubrel.isFull = true ↔
      PARALLEL_RECEIVES ≤ c.inner.awaitPubrel.len + pubrecCount c := by
  have hbound := s.inner.awaitPubrel.length_le
  rw [BoundedVec.isFull_iff]
  rw [h.awaitPubrel, List.length_append, length_wrote pubrecCount_le] at hbound ⊢
  unfold BoundedVec.len
  omega

/-- The queues after a pass in which nothing is refused. -/
theorem sentAll_iff {r : Except (Stop MqttError) SendResult} (h : Passed c r s)
    (hall : passLimit c ≤ c.env.acceptances) :
    (s.inner.sendPuback.toList = [] ∧ s.inner.sendPubcomp.toList = [] ∧
      (s.inner.sendPubrec.toList = [] ∨ s.inner.awaitPubrel.isFull = true)) ↔
    c.inner.sendPuback.len ≤ 1 ∧ c.inner.sendPubcomp.len ≤ 1 ∧
      (c.inner.sendPubrec.len ≤ 1 ∨
        PARALLEL_RECEIVES - c.inner.awaitPubrel.len ≤ turns c.inner.sendPubrec.len) := by
  unfold passLimit at hall
  have hpuback : pubackCount c = turns c.inner.sendPuback.toList.length := by
    rw [pubackCount, Nat.min_eq_right (by omega)]
    rfl
  have hpubrec : pubrecCount c = min (turns c.inner.sendPubrec.toList.length)
      (PARALLEL_RECEIVES - c.inner.awaitPubrel.len) := by
    rw [pubrecCount, Nat.min_eq_right (by omega)]
    rfl
  have hpubcomp : pubcompCount c = turns c.inner.sendPubcomp.toList.length := by
    rw [pubcompCount, Nat.min_eq_right (by omega)]
    rfl
  rw [isFull_awaitPubrel_iff h, h.sendPuback, h.sendPubrec, h.sendPubcomp,
    skipped_eq_nil_iff (Nat.le_of_eq hpuback), skipped_eq_nil_iff (Nat.le_of_eq hpubcomp),
    skipped_eq_nil_iff (hpubrec ▸ Nat.min_le_left ..), hpuback, hpubrec, hpubcomp]
  unfold BoundedVec.len turns
  omega

/-- The PUBACKs that the pass leaves when it writes a PUBREC. -/
theorem emptied_iff {r : Except (Stop MqttError) SendResult} (h : Passed c r s)
    (hpubrec : pubrecCount c ≠ 0) :
    s.inner.sendPuback.toList = [] ↔ c.inner.sendPuback.len ≤ 1 := by
  have hpuback : pubackCount c = turns c.inner.sendPuback.toList.length := by
    unfold pubrecCount at hpubrec
    rw [pubackCount, Nat.min_eq_right (by omega)]
    rfl
  rw [h.sendPuback, skipped_eq_nil_iff (Nat.le_of_eq hpuback), hpuback]
  unfold BoundedVec.len turns
  omega

theorem wrote_pubrec_eq_nil_iff : wrote (·.sendPubrec) c (pubrecCount c) = [] ↔ pubrecCount c = 0 := by
  rw [← List.length_eq_zero_iff, length_wrote pubrecCount_le]

/-- Once a PUBCOMP has been written, all that was offered before it has been accepted. -/
theorem notRefused (h : wrote (·.sendPubcomp) c (pubcompCount c) ≠ []) :
    ∀ answer ∈ c.env.answers.take ((wrote (·.sendPuback) c (pubackCount c)).length +
      (wrote (·.sendPubrec) c (pubrecCount c)).length), answer = .ok true := by
  apply Env.accepted_of_le_acceptances
  have hpos : 0 < pubcompCount c := by
    rcases Nat.eq_zero_or_pos (pubcompCount c) with hzero | hpos
    · rw [hzero, wrote_zero] at h
      exact absurd rfl h
    · exact hpos
  rw [length_wrote pubackCount_le, length_wrote pubrecCount_le]
  unfold pubackCount pubrecCount
  unfold pubcompCount at hpos
  omega

theorem drains_iff : DrainsInOrder c ↔ KeepsOrder c := by
  obtain ⟨r, s, hexec, hpassed⟩ := sendPackets_passed c
  rw [DrainsInOrder, hexec]
  constructor
  · rintro ⟨pubacks, pubrecs, pubcomps, hdrains⟩
    obtain ⟨rfl, rfl, rfl⟩ := hdrains.unique hpassed
    refine ⟨?_, ?_, ?_, ?_, ?_⟩
    · exact List.unshuffled_iff.mpr (hpassed.sendPuback ▸ hdrains.sendPuback)
    · exact List.unshuffled_iff.mpr (hpassed.sendPubrec ▸ hdrains.sendPubrec)
    · exact List.unshuffled_iff.mpr (hpassed.sendPubcomp ▸ hdrains.sendPubcomp)
    · refine or_iff_not_imp_left.mpr fun hcount => (emptied_iff hpassed hcount).mp ?_
      exact hdrains.emptied (mt wrote_pubrec_eq_nil_iff.mp hcount)
    · refine (Nat.lt_or_ge c.env.acceptances (passLimit c)).imp_right fun hall => ?_
      exact (sentAll_iff hpassed hall).mp (hdrains.sentAll (hpassed.sentAll.mpr hall))
  · intro hkeeps
    refine ⟨_, _, _, hpassed.written, ?_, ?_, ?_, hpassed.awaitPubrel, ?_, notRefused, ?_⟩
    · exact hpassed.sendPuback ▸ List.unshuffled_iff.mp hkeeps.pubacks
    · exact hpassed.sendPubrec ▸ List.unshuffled_iff.mp hkeeps.pubrecs
    · exact hpassed.sendPubcomp ▸ List.unshuffled_iff.mp hkeeps.pubcomps
    · intro hne
      have hcount := mt wrote_pubrec_eq_nil_iff.mpr hne
      exact (emptied_iff hpassed hcount).mpr (hkeeps.emptied.resolve_left hcount)
    · intro hr
      have hall := hpassed.sentAll.mp hr
      exact (sentAll_iff hpassed hall).mpr (hkeeps.sentAll.resolve_left (by omega))

instance : Decidable (KeepsOrder c) :=
  decidable_of_iff (_ ∧ _ ∧ _ ∧ _ ∧ _) ⟨fun ⟨h₁, h₂, h₃, h₄, h₅⟩ => ⟨h₁, h₂, h₃, h₄, h₅⟩,
    fun ⟨h₁, h₂, h₃, h₄, h₅⟩ => ⟨h₁, h₂, h₃, h₄, h₅⟩⟩

end Receives

/-! ## Runs -/

namespace Reception

open Receives

variable {s s' : Reception BUFFER TOPIC_SIZE PARALLEL_RECEIVES} {call : Receives.Call}

/-- The send passes of a run keep the order. -/
def SendsInOrder (s : Reception BUFFER TOPIC_SIZE PARALLEL_RECEIVES) : Receives.Call → Prop
  | .send answers => KeepsOrder { s.ctx with env := { s.ctx.env with answers } }
  | _ => True

instance : (call : Receives.Call) → Decidable (s.SendsInOrder call)
  | .send _ => inferInstanceAs (Decidable (KeepsOrder _))
  | .publish _ | .pubrel _ => isTrue trivial

/-- The acknowledgements that were written, and those that wait after them, are in the order in
which their publishes arrived. -/
structure AcksInOrder (s : Reception BUFFER TOPIC_SIZE PARALLEL_RECEIVES) : Prop where
  pubacks : pubackPids s.ctx.env.written ++ s.ctx.inner.sendPuback.toList = s.pubacks
  pubrecs : pubrecPids s.ctx.env.written ++ s.ctx.inner.sendPubrec.toList = s.pubrecs

theorem AcksInOrder.step (h : s.AcksInOrder) (hsend : s.SendsInOrder call)
    (hnext : s.next call = some s') : s'.AcksInOrder := by
  obtain ⟨hpubacks, hpubrecs⟩ := h
  cases call with
  | publish p =>
    cases hnext
    obtain ⟨hpuback, hpubrec⟩ := onPublish_acks s.ctx p
    have henv := onPublish_env s.ctx p
    refine ⟨?_, ?_⟩ <;> dsimp only [Receives.Call.perform]
    · rw [henv, hpuback, ← List.append_assoc, hpubacks]
      rfl
    · rw [henv, hpubrec, ← List.append_assoc, hpubrecs]
      rfl
  | pubrel pid =>
    cases hnext
    rcases onPubrel_exec_cases s.ctx pid with ⟨e, hexec⟩ | ⟨_, _, -, -, hexec⟩ <;>
      exact ⟨by simp [Receives.Call.perform, hexec, hpubacks],
        by simp [Receives.Call.perform, hexec, hpubrecs]⟩
  | send answers =>
    cases hnext
    obtain ⟨pubacks, pubrecs, pubcomps, hdrains⟩ := drains_iff.mpr hsend
    refine ⟨?_, ?_⟩ <;> dsimp only [Receives.Call.perform] <;> rw [exec_map, hdrains.written]
    · rw [pubackPids_append, pubackPids_acks, List.append_assoc, hdrains.sendPuback]
      exact hpubacks
    · rw [pubrecPids_append, pubrecPids_acks, List.append_assoc, hdrains.sendPubrec]
      exact hpubrecs

/-- A pass drains the queues in order if and only if the condition holds, and where every pass of a
run meets it, the acknowledgements are written in the order of arrival. -/
theorem acknowledgements_in_order :
    (∀ c : Ctx (Receives BUFFER TOPIC_SIZE PARALLEL_RECEIVES), DrainsInOrder c ↔ KeepsOrder c) ∧
      ∀ (calls : List Receives.Call) (t : Reception BUFFER TOPIC_SIZE PARALLEL_RECEIVES),
        AllSteps next SendsInOrder (new : Reception BUFFER TOPIC_SIZE PARALLEL_RECEIVES) calls →
        run next new calls = some t → t.AcksInOrder := by
  refine ⟨fun _ => drains_iff, fun calls t hsends hr => ?_⟩
  let I (s : Reception BUFFER TOPIC_SIZE PARALLEL_RECEIVES) : Prop := s.AcksInOrder
  have hstep : ∀ s call s', I s → SendsInOrder s call → next s call = some s' → I s' :=
    fun _ _ _ h hsend hnext => AcksInOrder.step h hsend hnext
  exact hsends.invariant hstep ⟨rfl, rfl⟩ hr

/-- A publish on the topic `t`. -/
def incoming (qospid : QosPid) : Receives.Call := .publish ⟨false, qospid, false, [116], [1]⟩

/-- A message of each QoS, all that is offered is accepted. -/
theorem acknowledgements_in_order_of_two :
    let calls : List Receives.Call :=
      [incoming (.atLeastOnce ⟨1, by decide, by decide⟩),
        incoming (.exactlyOnce ⟨2, by decide, by decide⟩), .send [.ok true, .ok true]]
    ∃ t : Reception 8 8 4, run next new calls = some t ∧ t.AcksInOrder ∧
      pubackPids t.ctx.env.written = [⟨1, by decide, by decide⟩] ∧
      pubrecPids t.ctx.env.written = [⟨2, by decide, by decide⟩] := by
  intro calls
  have hrun : (run next (new : Reception 8 8 4) calls).any (fun t => decide
      (pubackPids t.ctx.env.written = [⟨1, by decide, by decide⟩] ∧
        pubrecPids t.ctx.env.written = [⟨2, by decide, by decide⟩])) = true := by decide +kernel
  obtain ⟨t, ht, hpids⟩ := (Option.any_eq_true _ _).mp hrun
  exact ⟨t, ht, acknowledgements_in_order.2 calls t (by decide +kernel) ht, of_decide_eq_true hpids⟩

/-- Of three PUBACKs the second is passed over and written last, although all that is offered is
accepted. -/
theorem second_puback_passed_over :
    ∃ s t : Reception 8 8 4, run next new
        [incoming (.atLeastOnce ⟨1, by decide, by decide⟩),
          incoming (.atLeastOnce ⟨2, by decide, by decide⟩),
          incoming (.atLeastOnce ⟨3, by decide, by decide⟩)] = some s ∧
      ¬DrainsInOrder
        { s.ctx with env := { s.ctx.env with answers := [.ok true, .ok true, .ok true] } } ∧
      run next s [.send [.ok true, .ok true, .ok true], .send [.ok true]] = some t ∧
      t.pubacks.map Pid.val = [1, 2, 3] ∧ (pubackPids t.ctx.env.written).map Pid.val = [1, 3, 2] := by
  have hrun : (run next (new : Reception 8 8 4)
        [incoming (.atLeastOnce ⟨1, by decide, by decide⟩),
          incoming (.atLeastOnce ⟨2, by decide, by decide⟩),
          incoming (.atLeastOnce ⟨3, by decide, by decide⟩)]).any (fun s => decide
      (¬KeepsOrder { s.ctx with env := { s.ctx.env with answers := [.ok true, .ok true, .ok true] } } ∧
        (run next s [.send [.ok true, .ok true, .ok true], .send [.ok true]]).any (fun t => decide
          (t.pubacks.map Pid.val = [1, 2, 3] ∧
            (pubackPids t.ctx.env.written).map Pid.val = [1, 3, 2])) = true)) = true := by
    decide +kernel
  obtain ⟨s, hs, h⟩ := (Option.any_eq_true _ _).mp hrun
  obtain ⟨hkeeps, h⟩ := of_decide_eq_true h
  obtain ⟨t, ht, h⟩ := (Option.any_eq_true _ _).mp h
  exact ⟨s, t, hs, mt drains_iff.mp hkeeps, ht, of_decide_eq_true h⟩

end Reception

end EmbeddedMqttc
