import Mathlib

/-!
# Messages that are sent in line, over several connections

A sender takes messages under keys, writes the pending ones in line, and keeps each one that has been
written with the time of this until it is answered. A message that has waited longer than `patience`
for its answer is written again, after the ones that stand before it and have waited too long as well.
A connection that is lost changes nothing of this.

On one connection two messages are first written in the order in which they were taken, unless the
earlier one was already waiting for its answer when the connection began and the later one was not, or
was written before it.
-/

namespace SendingLine

variable {κ : Type}

/-- `written` has an entry for every packet, with a key if it carries a message. -/
structure Queue (κ : Type) where
  pending : List κ
  unanswered : List (κ × Nat)
  written : List (Option κ)

namespace Queue

/-- The keys in line: the ones that were written come first. -/
def line (q : Queue κ) : List κ := q.unanswered.map Prod.fst ++ q.pending

/-- A packet is written. -/
inductive Step (patience : Nat) : Queue κ → Queue κ → Prop
  | first {q : Queue κ} {k : κ} {pending : List κ} (t : Nat) (hpending : q.pending = k :: pending) :
      Step patience q
        { pending, unanswered := q.unanswered ++ [(k, t)], written := q.written ++ [some k] }
  | again {q : Queue κ} {k : κ} {u : Nat} {before after : List (κ × Nat)} (t : Nat)
      (hunanswered : q.unanswered = before ++ (k, u) :: after) (hdue : patience < t - u)
      (hbefore : ∀ e ∈ before, ¬ patience < t - e.2) :
      Step patience q
        { q with
          unanswered := before ++ (k, t) :: after
          written := q.written ++ [some k] }
  | other {q : Queue κ} : Step patience q { q with written := q.written ++ [none] }

theorem Step.others {patience : Nat} {q : Queue κ} {ws : List (Option κ)} (h : ∀ o ∈ ws, o = none) :
    Relation.ReflTransGen (Step patience) q { q with written := q.written ++ ws } := by
  induction ws generalizing q with
  | nil => simpa using Relation.ReflTransGen.refl
  | cons o ws ih =>
    obtain rfl := h o List.mem_cons_self
    have hrest := @ih { q with written := q.written ++ [none] } fun o ho =>
      h o (List.mem_cons_of_mem _ ho)
    simpa using Relation.ReflTransGen.head .other hrest

end Queue

/-- What was taken, where the present connection begins in `written`, and what was unanswered then. -/
structure Sender (κ : Type) extends Queue κ where
  taken : List κ
  since : Nat
  old : List (κ × Nat)

inductive Step (patience : Nat) : Sender κ → Sender κ → Prop
  | send {s : Sender κ} {q : Queue κ} (h : s.toQueue.Step patience q) :
      Step patience s { s with toQueue := q }
  | take {s : Sender κ} {k : κ} (hnew : k ∉ s.taken) :
      Step patience s { s with pending := s.pending ++ [k], taken := s.taken ++ [k] }
  | answer {s : Sender κ} {e : κ × Nat} {before after : List (κ × Nat)}
      (hunanswered : s.unanswered = before ++ e :: after) :
      Step patience s { s with unanswered := before ++ after }
  | connect {s : Sender κ} :
      Step patience s { s with since := s.written.length, old := s.unanswered }

theorem Step.sends {patience : Nat} {s : Sender κ} {q : Queue κ}
    (h : Relation.ReflTransGen (Queue.Step patience) s.toQueue q) :
    Relation.ReflTransGen (Step patience) s { s with toQueue := q } := by
  induction h with
  | refl => exact .refl
  | tail _ hstep ih => exact ih.tail (.send hstep)

/-- The packets of the present connection. -/
def Sender.sent (s : Sender κ) : List (Option κ) := s.written.drop s.since

section

variable [DecidableEq κ] {a b k : κ} {l : List (Option κ)}

/-- The first packet with `a` stands before the first one with `b`. -/
def Precedes (a b : κ) (l : List (Option κ)) : Prop := l.idxOf (some a) < l.idxOf (some b)

instance : Decidable (Precedes a b l) := inferInstanceAs (Decidable (_ < _))

theorem Precedes.mem (h : Precedes a b l) : some a ∈ l :=
  List.idxOf_lt_length_iff.mp (Nat.lt_of_lt_of_le h List.idxOf_le_length)

theorem Precedes.append (h : Precedes a b l) (l' : List (Option κ)) : Precedes a b (l ++ l') := by
  unfold Precedes at h ⊢
  rw [List.idxOf_append_of_mem (Precedes.mem h)]
  by_cases hb : some b ∈ l
  · rwa [List.idxOf_append_of_mem hb]
  · rw [List.idxOf_append_of_notMem hb]
    have hlt := List.idxOf_lt_length_iff.mpr (Precedes.mem h)
    omega

theorem precedes_concat (ha : some a ∈ l) (hb : some b ∉ l) : Precedes a b (l ++ [some b]) := by
  unfold Precedes
  rw [List.idxOf_append_of_mem ha, List.idxOf_append_of_notMem hb]
  have hlt := List.idxOf_lt_length_iff.mpr ha
  omega

end

/-! ## Order in a list without repetitions -/

section

variable {a b : κ} {l l₁ l₂ : List κ}

theorem not_sublist_swap (hl : l.Nodup) (hab : [a, b].Sublist l) : ¬ [b, a].Sublist l := by
  induction l with
  | nil => cases hab
  | cons x l ih =>
    obtain ⟨hx, hl⟩ := List.nodup_cons.mp hl
    intro hba
    cases hab with
    | cons _ hab =>
      cases hba with
      | cons _ hba => exact ih hl hab hba
      | cons_cons _ hba => exact hx (hab.subset (List.mem_cons_of_mem _ List.mem_cons_self))
    | cons_cons _ hab =>
      cases hba with
      | cons _ hba => exact hx (hba.subset (List.mem_cons_of_mem _ List.mem_cons_self))
      | cons_cons _ hba => exact hx (hba.subset List.mem_cons_self)

/-- What comes earlier in a list does not stand behind. -/
theorem mem_left_of_sublist (hl : l.Nodup) (hab : [a, b].Sublist l)
    (hline : (l₁ ++ b :: l₂).Sublist l) (ha : a ∈ l₁ ++ b :: l₂) : a ∈ l₁ := by
  rcases List.mem_append.mp ha with ha | ha
  · exact ha
  · rcases List.mem_cons.mp ha with rfl | ha
    · exact absurd hab (not_sublist_swap hl hab)
    · have hba : [b, a].Sublist (b :: l₂) := (List.singleton_sublist.mpr ha).cons_cons b
      have hsublist := (List.sublist_append_right l₁ (b :: l₂)).trans hline
      exact absurd (hba.trans hsublist) (not_sublist_swap hl hab)

end

/-! ## The invariant -/

/-- How the two messages were waiting when the connection began: the earlier one was not, or the later
one was, too, and had not been written before it. -/
def Fair (old : List (κ × Nat)) (a b : κ) : Prop :=
  ∀ u, (a, u) ∈ old → ∃ v, (b, v) ∈ old ∧ u ≤ v

variable [DecidableEq κ]

structure InLine (s : Sender κ) : Prop where
  nodup : s.taken.Nodup
  line : s.line.Sublist s.taken
  taken : ∀ k, some k ∈ s.written → k ∈ s.taken
  unwritten : ∀ k ∈ s.pending, some k ∉ s.written
  unanswered : ∀ e ∈ s.unanswered, some e.1 ∈ s.written
  since : s.since ≤ s.written.length
  oldWritten : ∀ e ∈ s.old, some e.1 ∈ s.written
  oldNodup : (s.old.map Prod.fst).Nodup
  old : ∀ e ∈ s.unanswered, some e.1 ∉ s.sent → e ∈ s.old
  order : ∀ a b, [a, b].Sublist s.taken → Fair s.old a b → some b ∈ s.sent →
    Precedes a b s.sent ∨ some a ∉ s.sent ∧ a ∉ s.line

theorem InLine.start : InLine (κ := κ) ⟨⟨[], [], []⟩, [], 0, []⟩ where
  nodup := .nil
  line := .refl _
  taken := nofun
  unwritten := nofun
  unanswered := nofun
  since := Nat.le_refl _
  oldWritten := nofun
  oldNodup := .nil
  old := nofun
  order _ _ h := by cases h

namespace InLine

variable {patience : Nat} {s s' : Sender κ} {q : Queue κ} {a b k : κ}

/-- The packets of the connection after one more. -/
theorem sent_concat (h : InLine s) (o : Option κ) :
    (s.written ++ [o]).drop s.since = s.sent ++ [o] := by
  rw [List.drop_append_of_le_length h.since, Sender.sent]

/-- A message in line is written. Those that stand before it have been written on the connection. -/
theorem order_written (h : InLine s) {line : List κ} (hline : ∀ a, a ∈ line → a ∈ s.line)
    (hk : k ∈ s.line) (hbefore : ∀ a, [a, k].Sublist s.taken → Fair s.old a k →
      some k ∉ s.sent → a ∈ s.line → some a ∈ s.sent)
    (hab : [a, b].Sublist s.taken) (hfair : Fair s.old a b) (hb : some b ∈ s.sent ++ [some k]) :
    Precedes a b (s.sent ++ [some k]) ∨ some a ∉ s.sent ++ [some k] ∧ a ∉ line := by
  by_cases hsent : some b ∈ s.sent
  · rcases h.order a b hab hfair hsent with hprec | ⟨ha, hout⟩
    · exact .inl (hprec.append _)
    · refine .inr ⟨fun hmem => ?_, fun hmem => hout (hline a hmem)⟩
      rcases List.mem_append.mp hmem with hmem | hmem
      · exact ha hmem
      · cases List.mem_singleton.mp hmem
        exact hout hk
  · have hkey : b = k := by
      rcases List.mem_append.mp hb with hb | hb
      · exact absurd hb hsent
      · exact Option.some.inj (List.mem_singleton.mp hb)
    subst hkey
    by_cases ha : some a ∈ s.sent
    · exact .inl (precedes_concat ha hsent)
    · refine .inr ⟨fun hmem => ?_, fun hmem => ha (hbefore a hab hfair hsent (hline a hmem))⟩
      rcases List.mem_append.mp hmem with hmem | hmem
      · exact ha hmem
      · cases List.mem_singleton.mp hmem
        exact List.nodup_iff_sublist.mp h.nodup _ hab

/-- An entry that waits, after a packet of its own or of another message. -/
theorem old_of_concat (h : InLine s) {e : κ × Nat} {o : Option κ} (he : e ∈ s.unanswered)
    (hsent : some e.1 ∉ s.sent ++ [o]) : e ∈ s.old :=
  h.old e he fun hmem => hsent (List.mem_append_left _ hmem)

/-- A message that is written for the first time gets behind those that were written before. -/
theorem first (h : InLine s) {pending : List κ} (t : Nat) (hpending : s.pending = k :: pending) :
    InLine { s with
      pending
      unanswered := s.unanswered ++ [(k, t)]
      written := s.written ++ [some k] } := by
  have hk : k ∈ s.pending := by rw [hpending]; exact List.mem_cons_self
  have hline : (s.unanswered ++ [(k, t)]).map Prod.fst ++ pending = s.line := by
    simp [Queue.line, hpending]
  have hnodup : s.line.Nodup := h.line.nodup h.nodup
  have hsplit : s.line = s.unanswered.map Prod.fst ++ k :: pending := by rw [Queue.line, hpending]
  refine
    { nodup := h.nodup
      line := ?_
      taken := fun j hj => ?_
      unwritten := fun j hj hmem => ?_
      unanswered := fun e he => ?_
      since := ?_
      oldWritten := fun e he => List.mem_append_left _ (h.oldWritten e he)
      oldNodup := h.oldNodup
      old := fun e he hsent => ?_
      order := fun a b hab hfair hb => ?_ }
  · rw [Queue.line, hline]
    exact h.line
  · rcases List.mem_append.mp hj with hj | hj
    · exact h.taken j hj
    · cases List.mem_singleton.mp hj
      exact h.line.subset (List.mem_append_right _ hk)
  · rcases List.mem_append.mp hmem with hmem | hmem
    · exact h.unwritten j (by rw [hpending]; exact List.mem_cons_of_mem _ hj) hmem
    · cases List.mem_singleton.mp hmem
      rw [hsplit] at hnodup
      exact (List.nodup_cons.mp hnodup.of_append_right).1 hj
  · rcases List.mem_append.mp he with he | he
    · exact List.mem_append_left _ (h.unanswered e he)
    · cases List.mem_singleton.mp he
      exact List.mem_append_right _ (List.mem_singleton_self _)
  · rw [List.length_append]
    exact Nat.le_add_right_of_le h.since
  · rw [Sender.sent, h.sent_concat] at hsent
    rcases List.mem_append.mp he with he | he
    · exact h.old_of_concat he hsent
    · cases List.mem_singleton.mp he
      exact absurd (List.mem_append_right _ (List.mem_singleton_self _)) hsent
  · rw [Sender.sent, h.sent_concat] at hb ⊢
    refine h.order_written (fun a ha => hline ▸ ha) (List.mem_append_right _ hk)
      (fun a hak hfair _ ha => ?_) hab hfair hb
    -- a message that stands before this one was written, but not on another connection
    rw [hsplit] at ha
    obtain ⟨e, he, rfl⟩ :=
      List.mem_map.mp (mem_left_of_sublist h.nodup hak (hsplit ▸ h.line) ha)
    by_contra hsent
    obtain ⟨v, hv, -⟩ := hfair e.2 (h.old e he hsent)
    exact h.unwritten k hk (h.oldWritten _ hv)

/-- What is written again stays where it is in line. -/
theorem again (h : InLine s) {u : Nat} {before after : List (κ × Nat)} (t : Nat)
    (hunanswered : s.unanswered = before ++ (k, u) :: after) (hdue : patience < t - u)
    (hbefore : ∀ e ∈ before, ¬ patience < t - e.2) :
    InLine { s with
      unanswered := before ++ (k, t) :: after
      written := s.written ++ [some k] } := by
  have hline : (before ++ (k, t) :: after).map Prod.fst ++ s.pending = s.line := by
    simp [Queue.line, hunanswered]
  have hmem : (k, u) ∈ s.unanswered := by
    rw [hunanswered]
    exact List.mem_append_right _ List.mem_cons_self
  have hsplit : s.line = before.map Prod.fst ++ k :: (after.map Prod.fst ++ s.pending) := by
    simp [Queue.line, hunanswered]
  have hentry (e : κ × Nat) (he : e ∈ before ++ (k, t) :: after) : e = (k, t) ∨ e ∈ s.unanswered := by
    rw [hunanswered]
    simp only [List.mem_append, List.mem_cons] at he ⊢
    tauto
  refine
    { nodup := h.nodup
      line := ?_
      taken := fun j hj => ?_
      unwritten := fun j hj hmem' => ?_
      unanswered := fun e he => ?_
      since := ?_
      oldWritten := fun e he => List.mem_append_left _ (h.oldWritten e he)
      oldNodup := h.oldNodup
      old := fun e he hsent => ?_
      order := fun a b hab hfair hb => ?_ }
  · rw [Queue.line, hline]
    exact h.line
  · rcases List.mem_append.mp hj with hj | hj
    · exact h.taken j hj
    · cases List.mem_singleton.mp hj
      exact h.taken k (h.unanswered _ hmem)
  · rcases List.mem_append.mp hmem' with hmem' | hmem'
    · exact h.unwritten j hj hmem'
    · cases List.mem_singleton.mp hmem'
      exact h.unwritten k hj (h.unanswered _ hmem)
  · rcases hentry e he with rfl | he
    · exact List.mem_append_right _ (List.mem_singleton_self _)
    · exact List.mem_append_left _ (h.unanswered e he)
  · rw [List.length_append]
    exact Nat.le_add_right_of_le h.since
  · rw [Sender.sent, h.sent_concat] at hsent
    rcases hentry e he with rfl | he
    · exact absurd (List.mem_append_right _ (List.mem_singleton_self _)) hsent
    · exact h.old_of_concat he hsent
  · rw [Sender.sent, h.sent_concat] at hb ⊢
    refine h.order_written (fun a ha => hline ▸ ha) (hsplit ▸ by simp)
      (fun a hak hfair hk ha => ?_) hab hfair hb
    rw [hsplit] at ha
    obtain ⟨e, he, rfl⟩ :=
      List.mem_map.mp (mem_left_of_sublist h.nodup hak (hsplit ▸ h.line) ha)
    by_contra hsent
    -- it has waited at least as long as this one, so it is due as well
    have he' : e ∈ s.unanswered := by
      rw [hunanswered]
      exact List.mem_append_left _ he
    obtain ⟨v, hv, hle⟩ := hfair e.2 (h.old e he' hsent)
    have huv : v = u := by
      have hinj := List.inj_on_of_nodup_map h.oldNodup hv (h.old _ hmem hk) rfl
      exact congrArg Prod.snd hinj
    have hnot := hbefore e he
    omega

theorem other (h : InLine s) : InLine { s with written := s.written ++ [none] } := by
  have hnone (j : κ) (hj : some j ∈ s.written ++ [none]) : some j ∈ s.written := by simpa using hj
  refine
    { nodup := h.nodup
      line := h.line
      taken := fun j hj => h.taken j (hnone j hj)
      unwritten := fun j hj hmem => h.unwritten j hj (hnone j hmem)
      unanswered := fun e he => List.mem_append_left _ (h.unanswered e he)
      since := ?_
      oldWritten := fun e he => List.mem_append_left _ (h.oldWritten e he)
      oldNodup := h.oldNodup
      old := fun e he hsent => ?_
      order := fun a b hab hfair hb => ?_ }
  · rw [List.length_append]
    exact Nat.le_add_right_of_le h.since
  · rw [Sender.sent, h.sent_concat] at hsent
    exact h.old_of_concat he hsent
  · rw [Sender.sent, h.sent_concat] at hb ⊢
    rcases h.order a b hab hfair (by simpa using hb) with hprec | ⟨ha, hout⟩
    · exact .inl (hprec.append _)
    · exact .inr ⟨by simpa using ha, hout⟩

omit [DecidableEq κ] in
theorem sublist_of_concat {l : List κ} (hab : [a, b].Sublist (l ++ [k])) (hb : b ≠ k) :
    [a, b].Sublist l := by
  obtain ⟨l₁, l₂, heq, h₁, h₂⟩ := List.sublist_append_iff.mp hab
  rcases List.sublist_singleton.mp h₂ with rfl | rfl
  · rwa [heq, List.append_nil]
  · have hlast := congrArg List.getLast? heq
    rw [List.getLast?_concat] at hlast
    exact absurd (Option.some.inj hlast) hb

/-- A new message gets to the end of the line. -/
theorem take (h : InLine s) (hnew : k ∉ s.taken) :
    InLine { s with pending := s.pending ++ [k], taken := s.taken ++ [k] } := by
  have hline : s.unanswered.map Prod.fst ++ (s.pending ++ [k]) = s.line ++ [k] := by
    simp [Queue.line]
  refine
    { h with
      nodup := h.nodup.append (List.nodup_singleton k) (List.disjoint_singleton.mpr hnew)
      line := ?_
      taken := fun j hj => List.mem_append_left _ (h.taken j hj)
      unwritten := fun j hj hmem => ?_
      order := fun a b hab hfair hb => ?_ }
  · rw [Queue.line, hline]
    exact h.line.append_right [k]
  · rcases List.mem_append.mp hj with hj | hj
    · exact h.unwritten j hj hmem
    · cases List.mem_singleton.mp hj
      exact hnew (h.taken k hmem)
  · have hbk : b ≠ k := by
      rintro rfl
      exact hnew (h.taken b (List.mem_of_mem_drop hb))
    have hab := sublist_of_concat hab hbk
    refine (h.order a b hab hfair hb).imp_right fun ⟨ha, hout⟩ => ⟨ha, ?_⟩
    rw [Queue.line, hline]
    intro hmem
    rcases List.mem_append.mp hmem with hmem | hmem
    · exact hout hmem
    · cases List.mem_singleton.mp hmem
      exact hnew (hab.subset List.mem_cons_self)

theorem answer (h : InLine s) {e : κ × Nat} {before after : List (κ × Nat)}
    (hunanswered : s.unanswered = before ++ e :: after) :
    InLine { s with unanswered := before ++ after } := by
  have hsublist : (before ++ after).Sublist s.unanswered := by
    rw [hunanswered]
    exact (List.sublist_cons_self e after).append_left before
  have hline : ((before ++ after).map Prod.fst ++ s.pending).Sublist s.line :=
    (hsublist.map Prod.fst).append_right s.pending
  exact
    { h with
      line := hline.trans h.line
      unanswered := fun e he => h.unanswered e (hsublist.subset he)
      old := fun e he => h.old e (hsublist.subset he)
      order := fun a b hab hfair hb => (h.order a b hab hfair hb).imp_right fun hout =>
        ⟨hout.1, fun ha => hout.2 (hline.subset ha)⟩ }

theorem connect (h : InLine s) :
    InLine { s with since := s.written.length, old := s.unanswered } := by
  have hsent : s.written.drop s.written.length = [] := List.drop_length
  have hnodup : (s.unanswered.map Prod.fst).Nodup := (h.line.nodup h.nodup).of_append_left
  exact
    { h with
      since := Nat.le_refl _
      oldWritten := h.unanswered
      oldNodup := hnodup
      old := fun e he _ => he
      order := fun a b _ _ hb => by simp [Sender.sent] at hb }

theorem step (h : InLine s) (hstep : Step patience s s') : InLine s' := by
  cases hstep with
  | send hsend =>
    cases hsend with
    | first t hpending => exact h.first t hpending
    | again t hunanswered hdue hbefore => exact h.again t hunanswered hdue hbefore
    | other => exact h.other
  | take hnew => exact h.take hnew
  | answer hunanswered => exact h.answer hunanswered
  | connect => exact h.connect

theorem steps (h : InLine s) (hsteps : Relation.ReflTransGen (Step patience) s s') : InLine s' := by
  induction hsteps with
  | refl => exact h
  | tail _ hstep ih => exact ih.step hstep

/-- **Two messages that are both sent on a connection** are first sent in the order in which they were
taken, if they were waiting fairly when it began. -/
theorem precedes (h : InLine s) (hab : [a, b].Sublist s.taken) (hfair : Fair s.old a b)
    (ha : some a ∈ s.sent) (hb : some b ∈ s.sent) : Precedes a b s.sent :=
  (h.order a b hab hfair hb).resolve_right fun hout => hout.1 ha

end InLine

end SendingLine
