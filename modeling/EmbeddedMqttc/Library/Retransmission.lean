import Mathlib

/-!
# Retransmission

A sender accepts messages under fresh keys and writes each of them until it is answered. The first
time a message is written it is not marked, and every later time it is marked as a copy. What it
writes under a key is what it accepted under the key, and it writes no more once there is an answer.
-/

namespace Retransmission

variable {κ μ : Type}

/-- `pending` has not been written yet, and `unanswered` has been. The rest is history: what was
accepted, what was written, with the mark of a copy and with packets of others in between, and how
much had been written when an answer came. -/
structure Sender (κ μ : Type) where
  pending : List (κ × μ)
  unanswered : List (κ × μ)
  accepted : List (κ × μ)
  written : List (Option (κ × Bool × μ))
  answered : List (κ × Nat)

/-- The order of the messages that a sender keeps is of no account. -/
inductive Step : Sender κ μ → Sender κ μ → Prop
  | rearrange {s : Sender κ μ} {pending unanswered : List (κ × μ)}
      (hpending : s.pending.Perm pending) (hunanswered : s.unanswered.Perm unanswered) :
      Step s { s with pending, unanswered }
  | accept {s : Sender κ μ} {k : κ} {m : μ} {pending : List (κ × μ)}
      (hfresh : ∀ m', (k, m') ∉ s.accepted) (hpending : pending.Perm ((k, m) :: s.pending)) :
      Step s { s with pending, accepted := s.accepted ++ [(k, m)] }
  | forget {s : Sender κ μ} {e : κ × μ} {pending : List (κ × μ)}
      (hpending : s.pending.Perm (e :: pending)) : Step s { s with pending }
  /-- A message is written that needs no answer. -/
  | once {s : Sender κ μ} {k : κ} {m : μ} {pending : List (κ × μ)}
      (hpending : s.pending.Perm ((k, m) :: pending)) :
      Step s { s with pending, written := s.written ++ [some (k, false, m)] }
  | first {s : Sender κ μ} {k : κ} {m : μ} {pending unanswered : List (κ × μ)}
      (hpending : s.pending.Perm ((k, m) :: pending))
      (hunanswered : unanswered.Perm ((k, m) :: s.unanswered)) :
      Step s { s with pending, unanswered, written := s.written ++ [some (k, false, m)] }
  | again {s : Sender κ μ} {k : κ} {m : μ} (he : (k, m) ∈ s.unanswered) :
      Step s { s with written := s.written ++ [some (k, true, m)] }
  | answer {s : Sender κ μ} {k : κ} {m : μ} {unanswered : List (κ × μ)}
      (hunanswered : s.unanswered.Perm ((k, m) :: unanswered)) :
      Step s { s with unanswered, answered := s.answered ++ [(k, s.written.length)] }
  | other {s : Sender κ μ} : Step s { s with written := s.written ++ [none] }

/-- Packets of others are written. -/
theorem Step.others {s : Sender κ μ} {l : List (Option (κ × Bool × μ))} (h : ∀ o ∈ l, o = none) :
    Relation.ReflTransGen Step s { s with written := s.written ++ l } := by
  induction l generalizing s with
  | nil => rw [List.append_nil]
  | cons o l ih =>
    obtain ⟨rfl, hl⟩ := List.forall_mem_cons.mp h
    have hrest := ih (s := { s with written := s.written ++ [none] }) hl
    rw [List.append_assoc, List.singleton_append] at hrest
    exact .head .other hrest

variable [DecidableEq κ]

/-- What was written under a key, with the marks. -/
def copies (k : κ) (l : List (Option (κ × Bool × μ))) : List (Bool × μ) :=
  l.filterMap fun o => o.bind fun e => if e.1 = k then some e.2 else none

section

variable {k k' : κ} {c : Bool × μ} {l l' : List (Option (κ × Bool × μ))}

@[simp] theorem copies_append : copies k (l ++ l') = copies k l ++ copies k l' :=
  List.filterMap_append

@[simp] theorem copies_none : copies k [(none : Option (κ × Bool × μ))] = [] := rfl

theorem copies_same : copies k [some (k, c)] = [c] := by simp [copies]

theorem copies_of_ne (h : k' ≠ k) : copies k [some (k', c)] = [] := by simp [copies, h]

/-- A key under which nothing new is written. -/
theorem copies_drop_append (n : Nat) (h : copies k (l.drop n) = []) (h' : copies k l' = []) :
    copies k ((l ++ l').drop n) = [] := by
  rw [List.drop_append, copies_append, h, List.nil_append]
  refine List.filterMap_eq_nil_iff.mpr fun o ho => ?_
  exact List.filterMap_eq_nil_iff.mp h' o (List.mem_of_mem_drop ho)

end

/-- The first of the copies is not marked and the others are. -/
def Marked (l : List (Bool × μ)) : Prop :=
  l = [] ∨ ∃ n, l.map Prod.fst = false :: List.replicate n true

theorem Marked.copy {l : List (Bool × μ)} (h : Marked l) (hne : l ≠ []) (m : μ) :
    Marked (l ++ [(true, m)]) := by
  rcases h with h | ⟨n, h⟩
  · exact absurd h hne
  · refine .inr ⟨n + 1, ?_⟩
    rw [List.map_append, h, List.replicate_succ']
    rfl

structure Sender.Faithful (s : Sender κ μ) : Prop where
  once : ((s.pending ++ s.unanswered).map Prod.fst).Nodup
  pending : ∀ e ∈ s.pending, e ∈ s.accepted ∧ copies e.1 s.written = []
  unanswered : ∀ e ∈ s.unanswered, e ∈ s.accepted ∧ copies e.1 s.written ≠ []
  accepted : ∀ k m m', (k, m) ∈ s.accepted → (k, m') ∈ s.accepted → m = m'
  written : ∀ k, ∀ c ∈ copies k s.written, (k, c.2) ∈ s.accepted
  marked : ∀ k, Marked (copies k s.written)
  answered : ∀ a ∈ s.answered, (∃ m, (a.1, m) ∈ s.accepted) ∧
    (∀ e ∈ s.pending ++ s.unanswered, e.1 ≠ a.1) ∧ copies a.1 (s.written.drop a.2) = []

namespace Sender.Faithful

variable {s s' : Sender κ μ} {k : κ} {m : μ} {d : Bool} {e : κ × μ}

theorem new : Faithful (⟨[], [], [], [], []⟩ : Sender κ μ) :=
  ⟨.nil, nofun, nofun, nofun, nofun, fun _ => .inl rfl, nofun⟩

theorem mem_accepted (h : Faithful s) (he : e ∈ s.pending ++ s.unanswered) : e ∈ s.accepted :=
  (List.mem_append.mp he).elim (fun he => (h.pending e he).1) fun he => (h.unanswered e he).1

/-- The messages that are kept may be fewer, and nothing else has changed. -/
theorem keep (h : Faithful s) {pending unanswered : List (κ × μ)}
    (hnodup : ((pending ++ unanswered).map Prod.fst).Nodup) (hpending : pending ⊆ s.pending)
    (hunanswered : unanswered ⊆ s.unanswered) : Faithful { s with pending, unanswered } where
  once := hnodup
  pending e he := h.pending e (hpending he)
  unanswered e he := h.unanswered e (hunanswered he)
  accepted := h.accepted
  written := h.written
  marked := h.marked
  answered a ha := by
    obtain ⟨haccepted, hnone, hcopies⟩ := h.answered a ha
    refine ⟨haccepted, fun e he => hnone e ?_, hcopies⟩
    exact (List.mem_append.mp he).elim (fun he => List.mem_append_left _ (hpending he))
      fun he => List.mem_append_right _ (hunanswered he)

/-- A message is written that was kept. It is marked when it has been written before. -/
theorem write (h : Faithful s) (he : (k, m) ∈ s.pending ++ s.unanswered)
    (hd : d = false ∧ copies k s.written = [] ∨ d = true ∧ copies k s.written ≠ [])
    {pending unanswered : List (κ × μ)} (hnodup : ((pending ++ unanswered).map Prod.fst).Nodup)
    (hpending : ∀ e ∈ pending, e ∈ s.pending ∧ e.1 ≠ k)
    (hunanswered : ∀ e ∈ unanswered, e ∈ s.unanswered ∨ e = (k, m)) :
    Faithful { s with pending, unanswered, written := s.written ++ [some (k, d, m)] } where
  once := hnodup
  pending e he := by
    obtain ⟨he, hne⟩ := hpending e he
    obtain ⟨haccepted, hcopies⟩ := h.pending e he
    exact ⟨haccepted, by rw [copies_append, hcopies, copies_of_ne hne.symm, List.append_nil]⟩
  unanswered e he' := by
    rw [copies_append, ne_eq, List.append_eq_nil_iff]
    rcases hunanswered e he' with he' | rfl
    · obtain ⟨haccepted, hcopies⟩ := h.unanswered e he'
      exact ⟨haccepted, fun hnil => hcopies hnil.1⟩
    · refine ⟨h.mem_accepted he, fun hnil => ?_⟩
      rw [copies_same] at hnil
      cases hnil.2
  accepted := h.accepted
  written k' c hc := by
    rw [copies_append, List.mem_append] at hc
    rcases hc with hc | hc
    · exact h.written k' c hc
    · by_cases hk : k = k'
      · subst hk
        rw [copies_same, List.mem_singleton] at hc
        subst hc
        exact h.mem_accepted he
      · rw [copies_of_ne hk] at hc
        cases hc
  marked k' := by
    rw [copies_append]
    by_cases hk : k = k'
    · subst hk
      rw [copies_same]
      rcases hd with ⟨rfl, hnil⟩ | ⟨rfl, hne⟩
      · rw [hnil]
        exact .inr ⟨0, rfl⟩
      · exact (h.marked k).copy hne m
    · rw [copies_of_ne hk, List.append_nil]
      exact h.marked k'
  answered a ha := by
    obtain ⟨haccepted, hnone, hcopies⟩ := h.answered a ha
    refine ⟨haccepted, fun e he' => ?_, copies_drop_append _ hcopies (copies_of_ne (hnone _ he))⟩
    rcases List.mem_append.mp he' with he' | he'
    · exact hnone e (List.mem_append_left _ (hpending e he').1)
    · rcases hunanswered e he' with he' | rfl
      · exact hnone e (List.mem_append_right _ he')
      · exact hnone _ he

/-- No other message has the key of one that is kept. -/
theorem nodup_of_perm (h : Faithful s) {rest : List (κ × μ)}
    (hperm : (s.pending ++ s.unanswered).Perm ((k, m) :: rest)) :
    (∀ e ∈ rest, e.1 ≠ k) ∧ (rest.map Prod.fst).Nodup := by
  have hnodup : (k :: rest.map Prod.fst).Nodup := (hperm.map Prod.fst).nodup_iff.mp h.once
  obtain ⟨hk, hrest⟩ := List.nodup_cons.mp hnodup
  refine ⟨fun e he heq => hk ?_, hrest⟩
  rw [← heq]
  exact List.mem_map_of_mem he

theorem accept (h : Faithful s) (hfresh : ∀ m, (k, m) ∉ s.accepted) {pending : List (κ × μ)}
    (hpending : pending.Perm ((k, m) :: s.pending)) :
    Faithful { s with pending, accepted := s.accepted ++ [(k, m)] } := by
  have hne : ∀ e ∈ s.pending ++ s.unanswered, e.1 ≠ k := by
    rintro ⟨k', m'⟩ he rfl
    exact hfresh m' (h.mem_accepted he)
  have hnil : copies k s.written = [] :=
    List.eq_nil_iff_forall_not_mem.mpr fun c hc => hfresh _ (h.written k c hc)
  refine ⟨?_, ?_, ?_, ?_, ?_, h.marked, ?_⟩
  · refine ((hpending.append_right s.unanswered).map Prod.fst).nodup_iff.mpr ?_
    refine List.nodup_cons.mpr ⟨fun hk => ?_, h.once⟩
    obtain ⟨e, he, heq⟩ := List.mem_map.mp hk
    exact hne e he heq
  · intro e he
    rcases List.mem_cons.mp (hpending.subset he) with rfl | he
    · exact ⟨List.mem_concat_self, hnil⟩
    · exact (h.pending e he).imp_left (List.mem_append_left _)
  · exact fun e he => (h.unanswered e he).imp_left (List.mem_append_left _)
  · intro k' m₁ m₂ h₁ h₂
    simp only [List.mem_append, List.mem_singleton, Prod.mk.injEq] at h₁ h₂
    rcases h₁ with h₁ | ⟨rfl, rfl⟩ <;> rcases h₂ with h₂ | ⟨hk, rfl⟩
    · exact h.accepted k' m₁ m₂ h₁ h₂
    · exact absurd (hk ▸ h₁) (hfresh m₁)
    · exact absurd h₂ (hfresh m₂)
    · rfl
  · exact fun k' c hc => List.mem_append_left _ (h.written k' c hc)
  · intro a ha
    obtain ⟨⟨m', hm'⟩, hnone, hcopies⟩ := h.answered a ha
    refine ⟨⟨m', List.mem_append_left _ hm'⟩, fun e he => ?_, hcopies⟩
    rcases List.mem_cons.mp ((hpending.append_right s.unanswered).subset he) with rfl | he
    · rintro rfl
      exact hfresh m' hm'
    · exact hnone e he

theorem answer (h : Faithful s) {unanswered : List (κ × μ)}
    (hunanswered : s.unanswered.Perm ((k, m) :: unanswered)) :
    Faithful { s with unanswered, answered := s.answered ++ [(k, s.written.length)] } := by
  obtain ⟨hne, hnodup⟩ := h.nodup_of_perm
    ((hunanswered.append_left s.pending).trans List.perm_middle)
  have hkeep := h.keep hnodup (List.Subset.refl _) fun e he =>
    hunanswered.symm.subset (List.mem_cons_of_mem _ he)
  refine { hkeep with answered := fun a ha => ?_ }
  rcases List.mem_append.mp ha with ha | ha
  · exact hkeep.answered a ha
  · cases List.mem_singleton.mp ha
    have hmem := hunanswered.symm.subset List.mem_cons_self
    exact ⟨⟨m, (h.unanswered _ hmem).1⟩, hne, by rw [List.drop_length]; rfl⟩

/-- Something else is written. -/
theorem other (h : Faithful s) : Faithful { s with written := s.written ++ [none] } := by
  have hcopies (k : κ) : copies k (s.written ++ [none]) = copies k s.written := by
    rw [copies_append, copies_none, List.append_nil]
  refine ⟨h.once, fun e he => ?_, fun e he => ?_, h.accepted, fun k => ?_, fun k => ?_,
    fun a ha => ?_⟩
  · exact (h.pending e he).imp_right (hcopies e.1).trans
  · rw [hcopies]
    exact h.unanswered e he
  · rw [hcopies]
    exact h.written k
  · rw [hcopies]
    exact h.marked k
  · obtain ⟨haccepted, hnone, hdrop⟩ := h.answered a ha
    exact ⟨haccepted, hnone, copies_drop_append _ hdrop rfl⟩

theorem step (h : Faithful s) (hstep : Step s s') : Faithful s' := by
  cases hstep with
  | rearrange hpending hunanswered =>
    refine h.keep ?_ hpending.symm.subset hunanswered.symm.subset
    exact ((hpending.append hunanswered).map Prod.fst).nodup_iff.mp h.once
  | accept hfresh hpending => exact h.accept hfresh hpending
  | forget hpending =>
    have hnodup := ((hpending.append_right s.unanswered).map Prod.fst).nodup_iff.mp h.once
    refine h.keep (List.nodup_cons.mp hnodup).2 (fun e he => ?_) (List.Subset.refl _)
    exact hpending.symm.subset (List.mem_cons_of_mem _ he)
  | once hpending =>
    obtain ⟨hne, hnodup⟩ := h.nodup_of_perm (hpending.append_right s.unanswered)
    have hmem := hpending.symm.subset List.mem_cons_self
    refine h.write (List.mem_append_left _ hmem) (.inl ⟨rfl, (h.pending _ hmem).2⟩) hnodup
      (fun e he => ⟨?_, hne e (List.mem_append_left _ he)⟩) fun e he => .inl he
    exact hpending.symm.subset (List.mem_cons_of_mem _ he)
  | @first k m pending unanswered hpending hunanswered =>
    have hperm := hpending.append_right s.unanswered
    have hsame : (pending ++ unanswered).Perm (s.pending ++ s.unanswered) :=
      ((hunanswered.append_left _).trans List.perm_middle).trans hperm.symm
    obtain ⟨hne, -⟩ := h.nodup_of_perm hperm
    have hmem := hpending.symm.subset List.mem_cons_self
    refine h.write (List.mem_append_left _ hmem) (.inl ⟨rfl, (h.pending _ hmem).2⟩)
      ((hsame.map Prod.fst).nodup_iff.mpr h.once)
      (fun e he => ⟨?_, hne e (List.mem_append_left _ he)⟩) fun e he => ?_
    · exact hpending.symm.subset (List.mem_cons_of_mem _ he)
    · exact (List.mem_cons.mp (hunanswered.subset he)).symm
  | @again k m he =>
    obtain ⟨before, after, hunanswered⟩ := List.append_of_mem he
    have hperm : (s.pending ++ s.unanswered).Perm ((k, m) :: (s.pending ++ (before ++ after))) := by
      rw [hunanswered, ← List.append_assoc]
      exact List.perm_middle.trans (by rw [List.append_assoc])
    obtain ⟨hne, -⟩ := h.nodup_of_perm hperm
    exact h.write (List.mem_append_right _ he) (.inr ⟨rfl, (h.unanswered _ he).2⟩) h.once
      (fun e he => ⟨he, hne e (List.mem_append_left _ he)⟩) fun e he => .inl he
  | answer hunanswered => exact h.answer hunanswered
  | other => exact h.other

theorem steps (h : Faithful s) (hsteps : Relation.ReflTransGen Step s s') : Faithful s' := by
  induction hsteps with
  | refl => exact h
  | tail _ hstep ih => exact ih.step hstep

end Sender.Faithful

end Retransmission
