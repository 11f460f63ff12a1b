import EmbeddedMqttc.Component

/-!
# What a scan writes again

A scan over packets that wait for an answer writes those again that are due. It ends early only when
a packet is refused or cannot be built. That a packet was refused shows in the answers of the
connection: more of them have been used than packets were written.
-/

namespace EmbeddedMqttc

open Prog EmbeddedMqttc.Comp

variable {σ α : Type} {n : Nat}

/-- A phase of a send pass comes when those before it have sent all. -/
theorem SendResult.bind_next_sentAll {m f : Comp σ SendResult} {c s : Ctx σ}
    (h : m.exec c = (.ok .sentAll, s)) : (m >>= fun r => r.next f).exec c = f.exec s := by
  rw [exec_bind_ok h, SendResult.next, if_pos nofun]
  rcases hf : f.exec s with ⟨x | r, s'⟩
  · exact exec_bind_error hf
  · rw [exec_bind_ok hf]
    cases r <;> rfl

theorem SendResult.bind_next_of_ne {m f : Comp σ SendResult} {c s : Ctx σ}
    {r : Except (Stop MqttError) SendResult} (h : m.exec c = (r, s)) (hr : r ≠ .ok .sentAll) :
    (m >>= fun r => r.next f).exec c = (r, s) := by
  rcases r with x | _ | _
  · exact exec_bind_error h
  · exact exec_bind_ok h
  · exact absurd rfl hr

namespace Env

/-- The answers that are left, and the packets that others were used for. -/
def credit (e : Env) : Nat := e.answers.length + e.written.length

/-- Not everything that was offered between `e` and `e'` was accepted. -/
def RefusedSince (e e' : Env) : Prop := e'.credit < e.credit

/-- The script tells of a packet that will be refused, so that it does not end before. -/
def Scripted (e : Env) : Prop := e.acceptances < e.answers.length

variable {e : Env} {w : Written}

theorem credit_wrote (h : 0 < e.acceptances) : (e.wrote w).credit = e.credit := by
  obtain ⟨answers, h⟩ := List.head?_eq_some_iff.mp (e.acceptances_pos_iff.mp h)
  simp [credit, wrote, asked, h]
  omega

theorem Scripted.wrote (hs : e.Scripted) (h : 0 < e.acceptances) : (e.wrote w).Scripted := by
  have hone := e.acceptances_wrote w h
  have hlen : (e.wrote w).answers.length = e.answers.length - 1 := List.length_tail
  unfold Scripted at *
  omega

theorem Scripted.credit_asked (hs : e.Scripted) : e.asked.credit < e.credit := by
  have hlen : e.asked.answers.length = e.answers.length - 1 := List.length_tail
  have hwritten : e.asked.written = e.written := rfl
  unfold Scripted at hs
  unfold credit
  rw [hlen, hwritten]
  omega

theorem Scripted.congr {e' : Env} (hs : e.Scripted) (h : e'.answers = e.answers) : e'.Scripted := by
  unfold Scripted acceptances at *
  rwa [h]

/-- A script that ends with a refusal. -/
theorem scripted_refusal (e : Env) (answers : List (Except MqttError Bool)) :
    Scripted { e with answers := answers ++ [.ok false] } := by
  unfold Scripted acceptances
  induction answers with
  | nil => simp
  | cons a answers ih =>
    by_cases ha : a = .ok true
    · simpa [ha] using ih
    · simp [ha]

theorem credit_congr {e' : Env} (h : e'.answers = e.answers) (hw : e'.written = e.written) :
    e'.credit = e.credit := by
  rw [credit, h, hw, credit]

end Env

namespace Resend

variable (r : Resend σ α n) (now : Instant)

/-- What a scan at `now` writes for an entry. -/
def again (a : α) : Option Written :=
  if r.due now a then
    match r.packet a with
    | .ok packet => some ⟨packet, some (r.request a)⟩
    | .error _ => none
  else none

/-- What a scan would write earlier it writes. -/
theorem again_mono {now' : Instant} (hnow : now ≤ now') {a : α} {w : Written}
    (h : r.again now a = some w) : r.again now' a = some w := by
  unfold again at *
  split at h
  · rename_i hdue
    have hdue' : r.due now' a := Nat.lt_of_lt_of_le hdue (Nat.sub_le_sub_right hnow _)
    rwa [if_pos hdue']
  · cases h

theorem filterMap_again_sublist {now' : Instant} (hnow : now ≤ now') (l : List α) :
    (l.filterMap (r.again now)).Sublist (l.filterMap (r.again now')) := by
  induction l with
  | nil => exact .slnil
  | cons a l ih =>
    cases h : r.again now a with
    | some w =>
      rw [List.filterMap_cons_some h, List.filterMap_cons_some (r.again_mono now hnow h)]
      exact ih.cons_cons w
    | none =>
      rw [List.filterMap_cons_none h]
      cases h' : r.again now' a with
      | some w =>
        rw [List.filterMap_cons_some h']
        exact ih.cons w
      | none => rwa [List.filterMap_cons_none h']

/-- A scan changes its queue, and it gives an entry that it has written again a new time. -/
structure Lawful : Prop where
  queue_modify : ∀ f s, r.queue (r.modify f s) = f (r.queue s)
  sentAt_mark : ∀ t a, r.sentAt (r.mark t a) = t

/-- The new time of an entry is not before `now`. -/
def StampsFrom (stamp : Comp σ Instant) : Prop :=
  ∀ c : Ctx σ, now ≤ c.env.now → ∃ t env, stamp.exec c = (.ok t, { c with env }) ∧ now ≤ t ∧
    now ≤ env.now ∧ env.answers = c.env.answers ∧ env.written = c.env.written

/-- What a scan from `c` gives and leaves. -/
structure Scanned (c : Ctx σ) (res : Except (Stop MqttError) SendResult) (c' : Ctx σ) : Prop where
  written : ∃ k, (res = .ok .sentAll → k = (r.queue c.inner).len) ∧
    c'.env.written = c.env.written ++ ((r.queue c.inner).toList.take k).filterMap (r.again now)
  settled : res = .ok .sentAll → ∀ a ∈ r.queue c'.inner, ¬r.due now a
  credit : res = .ok .sentAll → c'.env.credit = c.env.credit
  refused : res ≠ .ok .sentAll → c.env.Scripted →
    c.env.RefusedSince c'.env ∨ ∃ a ∈ r.queue c.inner, ∃ e, r.packet a = .error e

variable {r now} {c c' : Ctx σ} {stamp : Comp σ Instant} {i : Nat}

theorem stampsFrom_timeNow : StampsFrom now (timeNow : Comp σ Instant) := by
  intro c hc
  have hread : now ≤ c.env.read.now := Nat.le_trans hc c.env.now_le_read
  exact ⟨_, _, timeNow_exec c, hread, hread, rfl, rfl⟩

theorem stampsFrom_pure : StampsFrom now (pure now : Comp σ Instant) :=
  fun _ hc => ⟨now, _, rfl, Nat.le_refl _, hc, rfl, rfl⟩

variable (r now) in
/-- Where a scan stands that has passed `i` entries. -/
structure ScanState (c : Ctx σ) (i : Nat) (s : Ctx σ) : Prop where
  passed : ∀ k < i, ∀ a, (r.queue s.inner).get? k = some a → ¬r.due now a
  ahead : ∀ k, i ≤ k → (r.queue s.inner).get? k = (r.queue c.inner).get? k
  len : (r.queue s.inner).len = (r.queue c.inner).len
  written : s.env.written =
    c.env.written ++ ((r.queue c.inner).toList.take i).filterMap (r.again now)
  now_le : now ≤ s.env.now
  scripted : c.env.Scripted → s.env.Scripted
  credit : s.env.credit = c.env.credit

theorem ScanState.sentAll {s : Ctx σ} (h : ScanState r now c i s)
    (hi : (r.queue c.inner).len ≤ i) : Scanned r now c (.ok .sentAll) s := by
  refine ⟨⟨(r.queue c.inner).len, fun _ => rfl, ?_⟩, fun _ a ha => ?_, fun _ => h.credit,
    fun hne => absurd rfl hne⟩
  · rw [h.written, List.take_of_length_le hi, BoundedVec.len, List.take_length]
  · obtain ⟨k, hk, rfl⟩ := List.getElem_of_mem ha
    exact h.passed k (by have := h.len; unfold BoundedVec.len at this hi; omega) _
      (List.getElem?_eq_getElem hk)

/-- A scan that is stopped at an entry. -/
theorem ScanState.stopped {s s' : Ctx σ} {res : Except (Stop MqttError) SendResult}
    (h : ScanState r now c i s) (hres : res ≠ .ok .sentAll) (hwritten : s'.env.written = s.env.written)
    (hrefused : s.env.Scripted → s'.env.credit < s.env.credit ∨
      ∃ a ∈ r.queue c.inner, ∃ e, r.packet a = .error e) : Scanned r now c res s' := by
  refine ⟨⟨i, fun heq => absurd heq hres, hwritten.trans h.written⟩, fun heq => absurd heq hres,
    fun heq => absurd heq hres, fun _ hs => (hrefused (h.scripted hs)).imp_left fun hlt => ?_⟩
  rw [Env.RefusedSince, ← h.credit]
  exact hlt

/-- An entry that is passed over or written again. -/
theorem ScanState.next {s s' : Ctx σ} {a : α} (h : ScanState r now c i s)
    (ha : (r.queue s.inner).get? i = some a)
    (hqueue : ∀ k b, (r.queue s'.inner).get? k = some b →
      (k = i ∧ ¬r.due now b) ∨ (k ≠ i ∧ (r.queue s.inner).get? k = some b))
    (hlen : (r.queue s'.inner).len = (r.queue s.inner).len)
    (hwritten : s'.env.written = s.env.written ++ (r.again now a).toList)
    (hnow : now ≤ s'.env.now) (hscripted : s.env.Scripted → s'.env.Scripted)
    (hcredit : s'.env.credit = s.env.credit) : ScanState r now c (i + 1) s' := by
  have hget : (r.queue c.inner).toList[i]? = some a := (h.ahead i (Nat.le_refl i)).symm.trans ha
  refine ⟨fun k hk b hb => ?_, fun k hk => ?_, hlen.trans h.len, ?_, hnow,
    fun hs => hscripted (h.scripted hs), hcredit.trans h.credit⟩
  · rcases hqueue k b hb with ⟨-, hdue⟩ | ⟨hne, hb⟩
    · exact hdue
    · exact h.passed k (by omega) b hb
  · rw [← h.ahead k (by omega)]
    cases hb : (r.queue s'.inner).get? k with
    | some b =>
      rcases hqueue k b hb with ⟨rfl, -⟩ | ⟨-, hb⟩
      · omega
      · exact hb.symm
    | none =>
      rw [BoundedVec.get?_eq_none_iff, hlen, ← BoundedVec.get?_eq_none_iff] at hb
      exact hb.symm
  · rw [hwritten, h.written, List.append_assoc, List.take_add_one, hget, Option.toList_some,
      List.filterMap_append]
    cases hagain : r.again now a <;> simp [hagain]

/-- An entry that is due is written again, and then it is not due any more. -/
theorem ScanState.again {s : Ctx σ} {a : α} {packet : Packet} (h : ScanState r now c i s)
    (hr : r.Lawful) (hstamp : StampsFrom now stamp) (ha : (r.queue s.inner).get? i = some a)
    (hdue : r.due now a) (hpacket : r.packet a = .ok packet) (hpos : 0 < s.env.acceptances) :
    ∃ s', (r.turn now stamp i).exec s = (.ok (.inr (i + 1)), s') ∧ ScanState r now c (i + 1) s' ∧
      (r.queue s'.inner).len = (r.queue s.inner).len := by
  obtain ⟨t, env, hst, ht, hnow, hanswers, hwritten⟩ :=
    hstamp { s with env := s.env.wrote ⟨packet, some (r.request a)⟩ } h.now_le
  have hlen : (r.queue (r.modify (·.modifyAt i (r.mark t)) s.inner)).len =
      (r.queue s.inner).len := by
    rw [hr.queue_modify, BoundedVec.len, BoundedVec.modifyAt, List.length_modify, BoundedVec.len]
  refine ⟨⟨r.modify (·.modifyAt i (r.mark t)) s.inner, env⟩, ?_,
    h.next ha (fun k b hb => ?_) hlen ?_ hnow (fun hs => ?_) ?_, hlen⟩
  · unfold turn
    rw [exec_get_bind, ha, exec_unwrap_some_bind, if_pos hdue, hpacket]
    dsimp only
    rw [exec_bind_ok (tryWritePacket_accepted s _ hpos), if_pos rfl, exec_bind_ok hst,
      modifyInner_bind_exec]
    rfl
  · dsimp only at hb
    rw [hr.queue_modify] at hb
    rcases BoundedVec.get?_modifyAt hb with ⟨rfl, b', -, rfl⟩ | hb
    · refine .inl ⟨rfl, ?_⟩
      rw [due, hr.sentAt_mark, Nat.sub_eq_zero_of_le ht]
      exact Nat.not_lt_zero _
    · exact .inr hb
  · rw [Resend.again, if_pos hdue, hpacket, hwritten]
    rfl
  · exact (hs.wrote hpos).congr hanswers
  · exact (Env.credit_congr hanswers hwritten).trans (Env.credit_wrote hpos)

theorem turn_scanned (hr : r.Lawful) (hstamp : StampsFrom now stamp) :
    LoopTurns (fun s : Ctx σ => (r.queue s.inner).len) (r.turn now stamp) (ScanState r now c)
      (Scanned r now c) := by
  intro i s h hi
  dsimp only at hi ⊢
  obtain ⟨a, ha⟩ : ∃ a, (r.queue s.inner).get? i = some a := ⟨_, List.getElem?_eq_getElem hi⟩
  have hmem : a ∈ r.queue c.inner :=
    BoundedVec.mem_of_get? ((h.ahead i (Nat.le_refl i)).symm.trans ha)
  by_cases hdue : r.due now a
  · cases hpacket : r.packet a with
    | error e =>
      unfold turn
      rw [exec_get_bind, ha, exec_unwrap_some_bind, if_pos hdue, hpacket]
      exact h.stopped nofun rfl fun _ => .inr ⟨a, hmem, e, hpacket⟩
    | ok packet =>
      rcases Nat.eq_zero_or_pos s.env.acceptances with hzero | hpos
      · unfold turn
        rw [exec_get_bind, ha, exec_unwrap_some_bind, if_pos hdue, hpacket]
        dsimp only
        rcases tryWritePacket_refused s ⟨packet, some (r.request a)⟩ hzero with h' | ⟨e, h'⟩
        · rw [exec_bind_ok h']
          exact h.stopped nofun rfl fun hs => .inl hs.credit_asked
        · rw [exec_bind_error h']
          exact h.stopped nofun rfl fun hs => .inl hs.credit_asked
      · obtain ⟨s', hexec, hnext, hlen⟩ := h.again hr hstamp ha hdue hpacket hpos
        rw [hexec]
        exact ⟨hnext, by omega⟩
  · unfold turn
    rw [exec_get_bind, ha, exec_unwrap_some_bind, if_neg hdue]
    refine ⟨h.next ha (fun k b hb => ?_) rfl ?_ h.now_le id rfl, ?_⟩
    · rcases Decidable.em (k = i) with rfl | hne
      · cases ha.symm.trans hb
        exact .inl ⟨rfl, hdue⟩
      · exact .inr ⟨hne, hb⟩
    · rw [Resend.again, if_neg hdue, Option.toList_none, List.append_nil]
    · omega

/-- The rule for a scan. -/
theorem scan_scanned (hr : r.Lawful) (hstamp : StampsFrom now stamp) (hnow : now ≤ c.env.now) :
    ∃ res c', (r.scan now stamp).exec c = (res, c') ∧ Scanned r now c res c' := by
  have hstart : ScanState r now c 0 c :=
    ⟨fun _ hk => absurd hk (Nat.not_lt_zero _), fun _ _ => rfl, rfl, by simp, hnow, id, rfl⟩
  rw [scan, exec_get_bind]
  exact (turn_scanned hr hstamp).exec (fun _ _ h hi => h.sentAll (h.len ▸ hi)) hstart

end Resend

end EmbeddedMqttc
