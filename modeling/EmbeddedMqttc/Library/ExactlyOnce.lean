import Mathlib

/-!
# An exactly-once handshake

A sender and a receiver exchange a message under an identifier. The message may be written any number
of times; the receiver takes it over when it does not remember the identifier, and answers each copy.
The sender then releases the identifier, again any number of times, the receiver forgets it and
answers that the exchange is complete. Then the identifier is used for the next message. The channels
are in order and may lose all that is on them.

`Sound` relates the phase of the sender, what is on its way in both directions and the memory of the
receiver. `taken` counts how often a message was taken over.
-/

namespace ExactlyOnce

variable {α ρ : Type}

theorem all_concat {a : α} {l : List α} (h : ∀ y ∈ l, y = a) : ∀ y ∈ l ++ [a], y = a := by
  intro y hy
  rcases List.mem_append.mp hy with hy | hy
  · exact h y hy
  · exact List.mem_singleton.mp hy

/-- Some `a`s and then some `b`s. -/
def Runs (a b : α) : List α → Prop
  | [] => True
  | x :: l => x = a ∧ Runs a b l ∨ ∀ y ∈ x :: l, y = b

namespace Runs

variable {a b x : α} {l : List α}

theorem of_all (h : ∀ y ∈ l, y = b) : Runs a b l := by
  cases l with
  | nil => exact True.intro
  | cons x l => exact .inr h

theorem of_all_left (h : ∀ y ∈ l, y = a) : Runs a b l := by
  induction l with
  | nil => exact True.intro
  | cons x l ih =>
    obtain ⟨hx, hl⟩ := List.forall_mem_cons.mp h
    exact .inl ⟨hx, ih hl⟩

/-- The end of such a list. -/
theorem tail (h : Runs a b (x :: l)) : Runs a b l := by
  rcases h with ⟨-, h⟩ | h
  · exact h
  · exact of_all (List.forall_mem_cons.mp h).2

/-- After a `b` there are only `b`s. -/
theorem all_of_head (h : Runs a b (b :: l)) (hab : a ≠ b) : ∀ y ∈ l, y = b := by
  rcases h with ⟨hx, -⟩ | h
  · exact absurd hx.symm hab
  · exact (List.forall_mem_cons.mp h).2

theorem head (h : Runs a b (x :: l)) : x = a ∨ x = b := by
  rcases h with ⟨hx, -⟩ | h
  · exact .inl hx
  · exact .inr (List.forall_mem_cons.mp h).1

theorem concat (h : Runs a b l) : Runs a b (l ++ [b]) := by
  induction l with
  | nil => exact .inr (by simp)
  | cons x l ih =>
    rcases h with ⟨hx, h⟩ | h
    · exact .inl ⟨hx, ih h⟩
    · exact .inr (all_concat h)

end Runs

/-- A packet of the sender: a message, or the release of the identifier. -/
inductive Letter (ρ : Type) where
  | message (r : ρ)
  | release
  deriving DecidableEq, Repr

/-- A packet of the receiver. -/
inductive Answer where
  | received
  | complete
  deriving DecidableEq, Repr

/-- Where the sender is with the identifier. `lost` is one that it has abandoned in the middle of an
exchange and does not use again. -/
inductive Phase (ρ : Type) where
  | idle
  | published (r : ρ)
  | received (r : ρ)
  | released (r : ρ)
  | lost
  deriving DecidableEq, Repr

inductive Sound (taken : ρ → Nat) : Phase ρ → List (Letter ρ) → List Answer → Bool → Prop
  | idle {letters answers} (hl : ∀ l ∈ letters, l = .release) (ha : ∀ a ∈ answers, a = .complete) :
      Sound taken .idle letters answers false
  /-- The message has not arrived. -/
  | fresh {r letters answers} (ht : taken r = 0) (hl : Runs .release (.message r) letters)
      (ha : ∀ a ∈ answers, a = .complete) : Sound taken (.published r) letters answers false
  /-- The message has been taken over. -/
  | taken {r letters answers} (ht : taken r = 1) (hl : ∀ l ∈ letters, l = .message r)
      (ha : Runs .complete .received answers) : Sound taken (.published r) letters answers true
  | received {r letters answers} (ht : taken r = 1) (hl : ∀ l ∈ letters, l = .message r)
      (ha : ∀ a ∈ answers, a = .received) : Sound taken (.received r) letters answers true
  /-- The release has not arrived. -/
  | remembered {r letters answers} (ht : taken r = 1) (hl : Runs (.message r) .release letters)
      (ha : ∀ a ∈ answers, a = .received) : Sound taken (.released r) letters answers true
  /-- The receiver has forgotten the identifier. -/
  | forgotten {r letters answers} (ht : taken r = 1) (hl : ∀ l ∈ letters, l = .release)
      (ha : Runs .received .complete answers) : Sound taken (.released r) letters answers false
  | lost {r letters answers} (hl : ∀ l ∈ letters, l = .message r) :
      Sound taken .lost letters answers true

namespace Sound

variable {taken taken' : ρ → Nat} {phase : Phase ρ} {letters : List (Letter ρ)}
  {answers : List Answer} {remembered : Bool} {r : ρ}

/-! ## The sender writes -/

/-- The identifier is used for a message. -/
theorem publish (h : Sound taken .idle letters answers remembered) (hr : taken r = 0) :
    Sound taken (.published r) (letters ++ [.message r]) answers remembered := by
  cases h with
  | idle hl ha => exact .fresh hr (Runs.of_all_left hl).concat ha

theorem publishAgain (h : Sound taken (.published r) letters answers remembered) :
    Sound taken (.published r) (letters ++ [.message r]) answers remembered := by
  cases h with
  | fresh ht hl ha => exact .fresh ht hl.concat ha
  | taken ht hl ha => exact .taken ht (all_concat hl) ha

/-- The identifier is released. -/
theorem release (h : Sound taken (.received r) letters answers remembered) :
    Sound taken (.released r) (letters ++ [.release]) answers remembered := by
  cases h with
  | received ht hl ha => exact .remembered ht (Runs.of_all_left hl).concat ha

theorem releaseAgain (h : Sound taken (.released r) letters answers remembered) :
    Sound taken (.released r) (letters ++ [.release]) answers remembered := by
  cases h with
  | remembered ht hl ha => exact .remembered ht hl.concat ha
  | forgotten ht hl ha => exact .forgotten ht (all_concat hl) ha

/-! ## The sender reads -/

/-- An answer to the message is read, which has been taken over. -/
theorem readReceived (h : Sound taken (.published r) letters (.received :: answers) remembered) :
    Sound taken (.received r) letters answers remembered := by
  cases h with
  | fresh ht hl ha => cases (List.forall_mem_cons.mp ha).1
  | taken ht hl ha => exact .received ht hl (ha.all_of_head nofun)

/-- After an answer to its message the sender may abandon the identifier. -/
theorem abandon (h : Sound taken (.received r) letters answers remembered) :
    Sound taken .lost letters answers remembered := by
  cases h with
  | received ht hl ha => exact .lost hl

/-- The exchange is complete. -/
theorem readComplete (h : Sound taken (.released r) letters (.complete :: answers) remembered) :
    taken r = 1 ∧ Sound taken .idle letters answers remembered := by
  cases h with
  | remembered ht hl ha => cases (List.forall_mem_cons.mp ha).1
  | forgotten ht hl ha => exact ⟨ht, .idle hl (ha.all_of_head nofun)⟩

/-- Any other answer is a copy, and nothing follows from it. -/
theorem readCopy {a : Answer} (h : Sound taken phase letters (a :: answers) remembered) :
    Sound taken phase letters answers remembered := by
  cases h with
  | idle hl ha => exact .idle hl (List.forall_mem_cons.mp ha).2
  | fresh ht hl ha => exact .fresh ht hl (List.forall_mem_cons.mp ha).2
  | taken ht hl ha => exact .taken ht hl ha.tail
  | received ht hl ha => exact .received ht hl (List.forall_mem_cons.mp ha).2
  | remembered ht hl ha => exact .remembered ht hl (List.forall_mem_cons.mp ha).2
  | forgotten ht hl ha => exact .forgotten ht hl ha.tail
  | lost hl => exact .lost hl

/-! ## The receiver -/

/-- A copy of a message that has been taken over arrives. -/
theorem arriveCopy (h : Sound taken phase (.message r :: letters) answers true) :
    Sound taken phase letters (answers ++ [.received]) true := by
  cases h with
  | taken ht hl ha => exact .taken ht (List.forall_mem_cons.mp hl).2 ha.concat
  | received ht hl ha => exact .received ht (List.forall_mem_cons.mp hl).2 (all_concat ha)
  | remembered ht hl ha => exact .remembered ht hl.tail (all_concat ha)
  | lost hl => exact .lost (List.forall_mem_cons.mp hl).2

/-- A message that arrives under an identifier that is not remembered was not taken over before. -/
theorem unseen (h : Sound taken phase (.message r :: letters) answers false) :
    phase = .published r ∧ taken r = 0 := by
  cases h with
  | idle hl ha => cases (List.forall_mem_cons.mp hl).1
  | fresh ht hl ha =>
    rcases hl.head with heq | heq <;> cases heq
    exact ⟨rfl, ht⟩
  | forgotten ht hl ha => cases (List.forall_mem_cons.mp hl).1

/-- It is taken over. -/
theorem arriveMessage (h : Sound taken phase (.message r :: letters) answers false)
    (hr : taken' r = 1) : Sound taken' phase letters (answers ++ [.received]) true := by
  cases h with
  | idle hl ha => cases (List.forall_mem_cons.mp hl).1
  | fresh ht hl ha =>
    rcases hl.head with heq | heq <;> cases heq
    exact .taken hr (hl.all_of_head nofun) (Runs.of_all_left ha).concat
  | forgotten ht hl ha => cases (List.forall_mem_cons.mp hl).1

/-- A release arrives, and the identifier is forgotten. -/
theorem arriveRelease (h : Sound taken phase (.release :: letters) answers remembered) :
    Sound taken phase letters (answers ++ [.complete]) false := by
  cases h with
  | idle hl ha => exact .idle (List.forall_mem_cons.mp hl).2 (all_concat ha)
  | fresh ht hl ha => exact .fresh ht hl.tail (all_concat ha)
  | taken ht hl ha => cases (List.forall_mem_cons.mp hl).1
  | received ht hl ha => cases (List.forall_mem_cons.mp hl).1
  | remembered ht hl ha =>
    exact .forgotten ht (hl.all_of_head nofun) (Runs.of_all_left ha).concat
  | forgotten ht hl ha => exact .forgotten ht (List.forall_mem_cons.mp hl).2 ha.concat
  | lost hl => cases (List.forall_mem_cons.mp hl).1

/-! ## Loss, and messages under other identifiers -/

/-- All that is on its way is lost. -/
theorem reset (h : Sound taken phase letters answers remembered) :
    Sound taken phase [] [] remembered := by
  cases h with
  | idle => exact .idle nofun nofun
  | fresh ht => exact .fresh ht trivial nofun
  | taken ht => exact .taken ht nofun trivial
  | received ht => exact .received ht nofun nofun
  | remembered ht => exact .remembered ht trivial nofun
  | forgotten ht => exact .forgotten ht nofun trivial
  | lost hl =>
    rename_i r'
    exact .lost (r := r') nofun

/-- Another message is taken over. -/
theorem congr (h : Sound taken phase letters answers remembered)
    (hpublished : ∀ r, phase = .published r → taken' r = taken r)
    (htaken : ∀ r, taken r = 1 → taken' r = 1) : Sound taken' phase letters answers remembered := by
  cases h with
  | idle hl ha => exact .idle hl ha
  | fresh ht hl ha => exact .fresh ((hpublished _ rfl).trans ht) hl ha
  | taken ht hl ha => exact .taken (htaken _ ht) hl ha
  | received ht hl ha => exact .received (htaken _ ht) hl ha
  | remembered ht hl ha => exact .remembered (htaken _ ht) hl ha
  | forgotten ht hl ha => exact .forgotten (htaken _ ht) hl ha
  | lost hl => exact .lost hl

end Sound

end ExactlyOnce
