import Mathlib

/-!
# Letters and answers

A client writes letters and waits for an answer to each. `pending` are the letters it waits for,
`sent` those that the peer has not received yet, and `answers` the answers that the client has not
read yet. An answer tells the key of its letter, and a letter is about a request. A connection is
reliable until it is lost with all that is on it.

`Sound` is what holds as long as no letter is written again while its answer is outstanding: every
answer belongs to a pending letter that the peer has received.
-/

namespace Correspondence

variable {κ ρ : Type}

/-- The keys of the answers that the client has not read: to the letters on their way, and those that
the peer has given or will give. -/
def outstanding (sent : List (κ × ρ)) (answers : List κ) : List κ := sent.map Prod.fst ++ answers

structure Sound (pending sent : List (κ × ρ)) (answers : List κ) (received : κ → ρ → Prop) : Prop where
  pending_nodup : (pending.map Prod.fst).Nodup
  outstanding_nodup : (outstanding sent answers).Nodup
  of_sent : sent ⊆ pending
  of_answer : ∀ k ∈ answers, ∃ r, (k, r) ∈ pending ∧ received k r

theorem outstanding_concat {sent : List (κ × ρ)} {answers : List κ} {k : κ} {r : ρ} :
    (outstanding (sent ++ [(k, r)]) answers).Perm (k :: outstanding sent answers) := by
  simp only [outstanding, List.map_append, List.map_cons, List.map_nil, List.append_assoc]
  exact List.perm_middle

namespace Sound

variable {pending pending' rest : List (κ × ρ)} {sent : List (κ × ρ)}
  {answers answers' : List κ} {received received' : κ → ρ → Prop} {k : κ} {r r' : ρ}

theorem nil : Sound ([] : List (κ × ρ)) [] [] received where
  pending_nodup := List.nodup_nil
  outstanding_nodup := List.nodup_nil
  of_sent := nofun
  of_answer := nofun

theorem perm (h : Sound pending sent answers received) (hp : pending.Perm pending')
    (ha : answers.Perm answers') : Sound pending' sent answers' received where
  pending_nodup := (hp.map _).nodup_iff.mp h.pending_nodup
  outstanding_nodup := (ha.append_left _).nodup_iff.mp h.outstanding_nodup
  of_sent _ ht := hp.mem_iff.mp (h.of_sent ht)
  of_answer k hk := by
    obtain ⟨r, hr, hrec⟩ := h.of_answer k (ha.mem_iff.mpr hk)
    exact ⟨r, hp.mem_iff.mp hr, hrec⟩

theorem mono (h : Sound pending sent answers received) (hrec : ∀ k r, received k r → received' k r) :
    Sound pending sent answers received' where
  pending_nodup := h.pending_nodup
  outstanding_nodup := h.outstanding_nodup
  of_sent := h.of_sent
  of_answer k hk := by
    obtain ⟨r, hr, hrec'⟩ := h.of_answer k hk
    exact ⟨r, hr, hrec k r hrec'⟩

/-- An answer to what is waited for is outstanding. -/
theorem exists_pending (h : Sound pending sent answers received)
    (hk : k ∈ outstanding sent answers) : ∃ r, (k, r) ∈ pending := by
  rcases List.mem_append.mp hk with hk | hk
  · obtain ⟨t, ht, rfl⟩ := List.mem_map.mp hk
    exact ⟨t.2, h.of_sent ht⟩
  · obtain ⟨r, hr, -⟩ := h.of_answer k hk
    exact ⟨r, hr⟩

theorem eq_of_key (h : Sound pending sent answers received) (hr : (k, r) ∈ pending)
    (hr' : (k, r') ∈ pending) : r = r' :=
  (Prod.mk.inj (List.inj_on_of_nodup_map h.pending_nodup hr hr' rfl)).2

/-- A pending letter whose answer is not outstanding is written again. -/
theorem rewrite (h : Sound pending sent answers received) (hmem : (k, r) ∈ pending)
    (hk : k ∉ outstanding sent answers) : Sound pending (sent ++ [(k, r)]) answers received where
  pending_nodup := h.pending_nodup
  outstanding_nodup :=
    outstanding_concat.nodup_iff.mpr (List.nodup_cons.mpr ⟨hk, h.outstanding_nodup⟩)
  of_sent t ht := by
    rcases List.mem_append.mp ht with ht | ht
    · exact h.of_sent ht
    · exact List.mem_singleton.mp ht ▸ hmem
  of_answer := h.of_answer

/-- A letter with a key that is not waited for is written. -/
theorem write (h : Sound pending sent answers received) (hk : k ∉ pending.map Prod.fst) :
    Sound ((k, r) :: pending) (sent ++ [(k, r)]) answers received := by
  have hadd : Sound ((k, r) :: pending) sent answers received :=
    { pending_nodup := List.nodup_cons.mpr ⟨hk, h.pending_nodup⟩
      outstanding_nodup := h.outstanding_nodup
      of_sent := fun _ ht => List.mem_cons_of_mem _ (h.of_sent ht)
      of_answer := fun k hk => by
        obtain ⟨r, hr, hrec⟩ := h.of_answer k hk
        exact ⟨r, List.mem_cons_of_mem _ hr, hrec⟩ }
  refine hadd.rewrite List.mem_cons_self fun hmem => ?_
  obtain ⟨r', hr'⟩ := h.exists_pending hmem
  exact hk (List.mem_map_of_mem hr')

/-- The peer receives a letter and will answer it. -/
theorem arrive (h : Sound pending ((k, r) :: sent) answers received) (hr : received k r) :
    Sound pending sent (k :: answers) received where
  pending_nodup := h.pending_nodup
  outstanding_nodup := List.perm_middle.nodup_iff.mpr h.outstanding_nodup
  of_sent _ ht := h.of_sent (List.mem_cons_of_mem _ ht)
  of_answer k' hk' := by
    rcases List.mem_cons.mp hk' with rfl | hk'
    · exact ⟨r, h.of_sent List.mem_cons_self, hr⟩
    · exact h.of_answer k' hk'

/-- The client reads an answer: the peer has received the letter, and the client waits for it no
longer. -/
theorem consume (h : Sound ((k, r) :: rest) sent (k :: answers) received) :
    received k r ∧ Sound rest sent answers received := by
  have hk : k ∉ rest.map Prod.fst := (List.nodup_cons.mp h.pending_nodup).1
  have hnodup := List.perm_middle.nodup_iff.mp h.outstanding_nodup
  have hout : k ∉ outstanding sent answers := (List.nodup_cons.mp hnodup).1
  obtain ⟨r', hr', hrec⟩ := h.of_answer k List.mem_cons_self
  refine ⟨?_, (List.nodup_cons.mp h.pending_nodup).2, (List.nodup_cons.mp hnodup).2,
    fun t ht => ?_, fun k' hk' => ?_⟩
  · exact h.eq_of_key hr' List.mem_cons_self ▸ hrec
  · refine (List.mem_cons.mp (h.of_sent ht)).resolve_left fun heq => hout ?_
    subst heq
    exact List.mem_append_left _ (List.mem_map_of_mem ht)
  · obtain ⟨r'', hr'', hrec''⟩ := h.of_answer k' (List.mem_cons_of_mem _ hk')
    refine ⟨r'', (List.mem_cons.mp hr'').resolve_left fun heq => hout ?_, hrec''⟩
    cases heq
    exact List.mem_append_right _ hk'

/-- The connection is lost with all that is on it. -/
theorem lose (h : Sound pending sent answers received) : Sound pending [] [] received where
  pending_nodup := h.pending_nodup
  outstanding_nodup := List.nodup_nil
  of_sent := nofun
  of_answer := nofun

end Sound

end Correspondence
