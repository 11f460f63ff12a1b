import Mathlib

/-!
# Self-delimiting encodings

A stream is the concatenation of the encodings of its frames, `frames enc as`. A decoder that waits
on a proper prefix of a frame and recognises a frame whatever follows it recovers the frames of a
stream one after the other, however the stream is cut: `SelfDelimiting.decode_prefix` says what it
answers on any initial segment of a stream.
-/

namespace Framing

variable {α β ε : Type}

/-- The stream of a list of frames. -/
def frames (enc : α → List β) (as : List α) : List β := (as.map enc).flatten

/-- What a decoder of frames in `S` is required to do: it answers `none` on a proper prefix of a
frame, and the frame with its length on a list that starts with one. -/
structure SelfDelimiting (enc : α → List β) (dec : List β → Except ε (Option (Nat × α)))
    (S : α → Prop) : Prop where
  empty : dec [] = .ok none
  partly : ∀ a x, S a → x <+: enc a → x ≠ enc a → dec x = .ok none
  whole : ∀ a rest, S a → dec (enc a ++ rest) = .ok (some ((enc a).length, a))

/-- A decoder that has decided (on a frame or an error) is not swayed by what follows. -/
def Decisive (dec : List β → Except ε (Option (Nat × α))) : Prop :=
  ∀ x y, dec x ≠ .ok none → dec (x ++ y) ≠ .ok none

variable {enc : α → List β} {dec : List β → Except ε (Option (Nat × α))} {S : α → Prop}

@[simp] theorem frames_nil : frames enc [] = [] := rfl

@[simp] theorem frames_cons (a : α) (as : List α) :
    frames enc (a :: as) = enc a ++ frames enc as := rfl

@[simp] theorem frames_append (as bs : List α) :
    frames enc (as ++ bs) = frames enc as ++ frames enc bs := by simp [frames]

theorem frames_concat (as : List α) (a : α) :
    frames enc (as ++ [a]) = frames enc as ++ enc a := by simp

namespace SelfDelimiting

/-- The answer on an initial segment of a stream: nothing yet, and then the segment is shorter than
the first frame, or the first frame. -/
theorem decode_prefix (H : SelfDelimiting enc dec S) (hS : ∀ a ∈ as, S a)
    (hx : x <+: frames enc as) :
    (dec x = .ok none ∧ ∀ a as', as = a :: as' → x.length < (enc a).length) ∨
      ∃ a as', as = a :: as' ∧ enc a <+: x ∧ dec x = .ok (some ((enc a).length, a)) := by
  cases as with
  | nil =>
    rw [frames_nil, List.prefix_nil] at hx
    exact .inl ⟨hx ▸ H.empty, nofun⟩
  | cons a as =>
    have ha := hS a List.mem_cons_self
    have hpre : enc a <+: frames enc (a :: as) := List.prefix_append ..
    rcases Nat.lt_or_ge x.length (enc a).length with hlt | hge
    · refine .inl ⟨H.partly a x ha (List.prefix_of_prefix_length_le hx hpre (Nat.le_of_lt hlt)) ?_, ?_⟩
      · rintro rfl; exact Nat.lt_irrefl _ hlt
      · rintro _ _ h; cases h; exact hlt
    · have hax := List.prefix_of_prefix_length_le hpre hx hge
      obtain ⟨rest, rfl⟩ := hax
      exact .inr ⟨a, as, rfl, List.prefix_append .., H.whole a rest ha⟩

/-- Frames whose stream begins another stream are the first frames of it. -/
theorem prefix_of_frames (H : SelfDelimiting enc dec S) (has : ∀ a ∈ as, S a) (hbs : ∀ b ∈ bs, S b)
    (h : frames enc as <+: frames enc bs) : as <+: bs := by
  induction as generalizing bs with
  | nil => exact List.nil_prefix
  | cons a as ih =>
    obtain ⟨rest, hrest⟩ := h
    rw [frames_cons, List.append_assoc] at hrest
    have hdec := H.whole a (frames enc as ++ rest) (has a List.mem_cons_self)
    rw [hrest] at hdec
    cases bs with
    | nil =>
      rw [frames_nil, H.empty] at hdec
      cases hdec
    | cons b bs =>
      rw [frames_cons, H.whole b _ (hbs b List.mem_cons_self)] at hdec
      obtain ⟨-, rfl⟩ := Prod.mk.inj (Option.some.inj (Except.ok.inj hdec))
      rw [frames_cons] at hrest
      exact List.cons_prefix_cons.mpr ⟨rfl, ih (fun c hc => has c (List.mem_cons_of_mem _ hc))
        (fun c hc => hbs c (List.mem_cons_of_mem _ hc)) ⟨rest, List.append_cancel_left hrest⟩⟩

end SelfDelimiting

end Framing
