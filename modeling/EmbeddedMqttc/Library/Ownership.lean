import Mathlib

/-!
# Answers to names that are used again

A client writes letters that are about requests. A letter has a key, and the key the name that the
request uses; an answer tells only the key. A letter may be written any number of times, and each copy
that the peer receives is answered. When a request is done, another one may get its name.

`Kept` is what holds as long as no request gets a name to which an answer is outstanding: if a request
uses the name of an outstanding answer, then the peer has received that request or will have when it
gives the answer.
-/

namespace Ownership

variable {κ π ρ : Type}

/-- `owner` tells which request uses a name, `sent` are the letters on their way, and `answers` those
that the client has not read. -/
structure Kept (name : κ → π) (owner : π → ρ → Prop) (sent : Set (κ × ρ)) (answers : Set κ)
    (received : κ → ρ → Prop) : Prop where
  of_sent : ∀ k r, (k, r) ∈ sent → ∀ r', owner (name k) r' → r' = r ∨ received k r'
  of_answer : ∀ k ∈ answers, ∀ r, owner (name k) r → received k r

namespace Kept

variable {name : κ → π} {owner owner' : π → ρ → Prop} {sent sent' : Set (κ × ρ)}
  {answers answers' : Set κ} {received received' : κ → ρ → Prop} {k : κ} {r : ρ}

theorem empty : Kept name owner ∅ ∅ received where
  of_sent := nofun
  of_answer := nofun

/-- Letters and answers are lost or read, and the peer receives more. -/
theorem mono (h : Kept name owner sent answers received) (hsent : sent' ⊆ sent)
    (hanswers : answers' ⊆ answers) (hreceived : ∀ k r, received k r → received' k r) :
    Kept name owner sent' answers' received' where
  of_sent k r ht r' hr' := (h.of_sent k r (hsent ht) r' hr').imp_right (hreceived k r')
  of_answer k hk r hr := hreceived k r (h.of_answer k (hanswers hk) r hr)

/-- Letters are written, for the first time or again, each about the request that uses its name. -/
theorem write (h : Kept name owner sent answers received)
    (hsent : ∀ k r, (k, r) ∈ sent' → (k, r) ∈ sent ∨
      ∀ r', owner (name k) r' → r' = r ∨ received k r') :
    Kept name owner sent' answers received where
  of_sent k r ht := (hsent k r ht).elim (h.of_sent k r) id
  of_answer := h.of_answer

/-- The peer receives a letter and will answer it. -/
theorem arrive (h : Kept name owner sent answers received) (ht : (k, r) ∈ sent)
    (hr : received k r) : Kept name owner sent (insert k answers) received where
  of_sent := h.of_sent
  of_answer k' hk' r' hr' := by
    rcases Set.mem_insert_iff.mp hk' with rfl | hk'
    · rcases h.of_sent k' r ht r' hr' with rfl | hreceived
      · exact hr
      · exact hreceived
    · exact h.of_answer k' hk' r' hr'

/-- Requests are done, and others get names to which no answer is outstanding that could be taken
for theirs. -/
theorem assign (h : Kept name owner sent answers received)
    (howner : ∀ k, (∃ r, (k, r) ∈ sent) ∨ k ∈ answers → ∀ r, owner' (name k) r →
      owner (name k) r ∨ received k r) : Kept name owner' sent answers received where
  of_sent k r ht r' hr' := (howner k (.inl ⟨r, ht⟩) r' hr').elim (h.of_sent k r ht r') .inr
  of_answer k hk r hr := (howner k (.inr hk) r hr).elim (h.of_answer k hk r) id

end Kept

end Ownership
