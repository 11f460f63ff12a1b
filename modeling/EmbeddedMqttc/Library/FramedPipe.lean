import EmbeddedMqttc.Library.Framing

/-!
# One end of a framed duplex stream

What a connection is for, without buffers and positions: frames are accepted and their encodings
leave in arbitrary pieces; bytes arrive in arbitrary pieces and frames are decoded from them. A
decoded frame is lent out until it is consumed.

Two invariants hold along all steps. Outgoing, the bytes sent and the bytes waiting are the stream
of the accepted frames. Incoming, the frames returned are an initial segment of the frames of the
stream, and the bytes that remain are the stream of the others.
-/

structure FramedPipe (α β : Type) where
  out : List β
  sent : List β
  accepted : List α
  inq : List β
  coming : List β
  returned : List α
  borrowed : Option Nat

namespace FramedPipe

open Framing

variable {α β ε : Type}

inductive Step (enc : α → List β) (dec : List β → Except ε (Option (Nat × α))) :
    FramedPipe α β → FramedPipe α β → Prop
  | accept (s a) : Step enc dec s
      { s with out := s.out ++ enc a, accepted := s.accepted ++ [a] }
  | transmit (s n) : Step enc dec s
      { s with out := s.out.drop n, sent := s.sent ++ s.out.take n }
  | receive (s n) : Step enc dec s
      { s with inq := s.inq ++ s.coming.take n, coming := s.coming.drop n }
  | decode (s n a) : s.borrowed = none → dec s.inq = .ok (some (n, a)) → Step enc dec s
      { s with returned := s.returned ++ [a], borrowed := some n }
  | consume (s n) : s.borrowed = some n → n ≤ s.inq.length → Step enc dec s
      { s with inq := s.inq.drop n, borrowed := none }

/-- The bytes received after the frames that were returned. -/
def unread (s : FramedPipe α β) : List β := s.inq.drop (s.borrowed.getD 0)

def Outgoing (enc : α → List β) (s : FramedPipe α β) : Prop :=
  s.sent ++ s.out = frames enc s.accepted

structure Incoming (enc : α → List β) (stream : List α) (s : FramedPipe α β) : Prop where
  borrowed_le : s.borrowed.getD 0 ≤ s.inq.length
  rest : ∃ rest, stream = s.returned ++ rest ∧ s.unread ++ s.coming = frames enc rest

variable {enc : α → List β} {dec : List β → Except ε (Option (Nat × α))} {S : α → Prop}
  {s s' : FramedPipe α β} {stream : List α}

theorem Outgoing.step (h : Step enc dec s s') (hs : Outgoing enc s) : Outgoing enc s' := by
  unfold Outgoing at hs ⊢
  cases h with
  | accept a => rw [← List.append_assoc, hs, frames_concat]
  | transmit n => rw [List.append_assoc, List.take_append_drop, hs]
  | receive | decode | consume => exact hs

/-- What the decoder answers while nothing is lent out: nothing yet, and then no frame is complete,
or the next frame of the stream. -/
theorem Incoming.decode_cases (H : SelfDelimiting enc dec S) (hS : ∀ a ∈ stream, S a)
    (hs : Incoming enc stream s) (hb : s.borrowed = none) :
    (dec s.inq = .ok none ∧
      ∀ a rest, stream = s.returned ++ a :: rest → s.inq.length < (enc a).length) ∨
    ∃ a rest, stream = s.returned ++ a :: rest ∧ (enc a).length ≤ s.inq.length ∧
      dec s.inq = .ok (some ((enc a).length, a)) := by
  obtain ⟨rest, hrest, hbytes⟩ := hs.rest
  simp only [unread, hb, Option.getD_none, List.drop_zero] at hbytes
  have hmem : ∀ a ∈ rest, S a := fun a ha => hS a (hrest ▸ List.mem_append_right _ ha)
  rcases H.decode_prefix hmem ⟨s.coming, hbytes⟩ with ⟨hd, hlt⟩ | ⟨a, as, rfl, hpre, hd⟩
  · refine .inl ⟨hd, fun a as h => hlt a as ?_⟩
    exact List.append_cancel_left (hrest.symm.trans h)
  · exact .inr ⟨a, as, hrest, hpre.length_le, hd⟩

theorem Incoming.step (H : SelfDelimiting enc dec S) (hS : ∀ a ∈ stream, S a)
    (h : Step enc dec s s') (hs : Incoming enc stream s) : Incoming enc stream s' := by
  have hle := hs.borrowed_le
  cases h with
  | accept | transmit => exact ⟨hle, hs.rest⟩
  | receive n =>
    obtain ⟨rest, hrest, hbytes⟩ := hs.rest
    refine ⟨by simp only [List.length_append]; omega, rest, hrest, ?_⟩
    simp only [unread] at hbytes ⊢
    rw [List.drop_append_of_le_length hle, List.append_assoc, List.take_append_drop, hbytes]
  | decode n a hb hd =>
    rcases hs.decode_cases H hS hb with ⟨hn, -⟩ | ⟨a', rest, hstream, hlen, hd'⟩
    · rw [hn] at hd; cases hd
    · rw [hd'] at hd; cases hd
      obtain ⟨rest', hrest', hbytes⟩ := hs.rest
      refine ⟨hlen, rest, by simp [hstream], ?_⟩
      cases List.append_cancel_left (hrest'.symm.trans hstream)
      simp only [unread, hb, Option.getD_none, List.drop_zero, frames_cons] at hbytes
      simp only [unread, Option.getD_some]
      have := congrArg (List.drop (enc a).length) hbytes
      rwa [List.drop_append_of_le_length hlen, List.drop_left] at this
  | consume n hb hn =>
    obtain ⟨rest, hrest, hbytes⟩ := hs.rest
    refine ⟨Nat.zero_le _, rest, hrest, ?_⟩
    simpa [unread, hb] using hbytes

end FramedPipe
