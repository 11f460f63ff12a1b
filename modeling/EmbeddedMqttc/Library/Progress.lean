import EmbeddedMqttc.Library.Run
import Mathlib
/-!
# Progress in infinite runs

`P` leads to `Q` when after each time at which `P` holds there is one at which `Q` does. What waits in
a queue for an answer leaves it when it is answered again and again, and what stands in a line moves on
when there is room for it again and again. What is written again whenever it is old is written again
and again while it waits.
-/

namespace Run

open Filter

variable {σ ℓ : Type} {next : σ → ℓ → Option σ}

/-- An infinite run. -/
structure Execution (next : σ → ℓ → Option σ) where
  state : Nat → σ
  label : Nat → ℓ
  step : ∀ n, next (state n) (label n) = some (state (n + 1))

namespace Execution

/-- The states of a run whose labels are always possible. -/
def states (f : σ → ℓ → σ) (s : σ) (label : Nat → ℓ) : Nat → σ
  | 0 => s
  | n + 1 => f (states f s label n) (label n)

def ofTotal (f : σ → ℓ → σ) (s : σ) (label : Nat → ℓ) : Execution (fun s l => some (f s l)) where
  state := states f s label
  label := label
  step _ := rfl

variable (x : Execution next)

/-- What is left of an execution after `n` steps. -/
def drop (n : Nat) : Execution next where
  state k := x.state (n + k)
  label k := x.label (n + k)
  step k := x.step (n + k)

/-- What comes before a time is a run. -/
theorem run (n : Nat) :
    Run.run next (x.state 0) ((List.range n).map x.label) = some (x.state n) := by
  induction n with
  | zero => rfl
  | succ n ih =>
    rw [List.range_succ, List.map_append, run_append_iff]
    exact ⟨x.state n, ih, by rw [List.map_singleton, run_cons_iff]; exact ⟨_, x.step n, rfl⟩⟩

end Execution

/-! ## The rules -/

def LeadsTo (P Q : Nat → Prop) : Prop := ∀ n, P n → ∃ m, n ≤ m ∧ Q m

namespace LeadsTo

variable {P Q R : Nat → Prop}

theorem of_imp (h : ∀ n, P n → Q n) : LeadsTo P Q := fun n hn => ⟨n, Nat.le_refl n, h n hn⟩

theorem trans (h : LeadsTo P Q) (h' : LeadsTo Q R) : LeadsTo P R := by
  intro n hn
  obtain ⟨m, hm, hQ⟩ := h n hn
  obtain ⟨k, hk, hR⟩ := h' m hQ
  exact ⟨k, Nat.le_trans hm hk, hR⟩

theorem mono {P' Q' : Nat → Prop} (h : LeadsTo P Q) (hP : ∀ n, P' n → P n)
    (hQ : ∀ n, Q n → Q' n) : LeadsTo P' Q' :=
  (of_imp hP).trans (h.trans (of_imp hQ))

theorem of_exists {ι : Type} {P : ι → Nat → Prop} (h : ∀ i, LeadsTo (P i) Q) :
    LeadsTo (fun n => ∃ i, P i n) Q := by
  rintro n ⟨i, hi⟩
  exact h i n hi

/-- Induction on a rank that goes down. -/
theorem of_rank {ι : Type} [LT ι] [WellFoundedLT ι] {P : ι → Nat → Prop}
    (h : ∀ i, LeadsTo (P i) fun n => Q n ∨ ∃ j < i, P j n) (i : ι) : LeadsTo (P i) Q := by
  induction i using WellFoundedLT.induction with
  | ind i ih =>
    refine (h i).trans fun n hn => ?_
    rcases hn with hQ | ⟨j, hj, hP⟩
    · exact ⟨n, Nat.le_refl n, hQ⟩
    · exact ih j hj n hP

/-- What is kept until `Q` holds, and cannot be kept for ever, leads to `Q`. -/
theorem of_unless (hkeep : ∀ n, P n → P (n + 1) ∨ Q (n + 1))
    (hend : ∀ n, (∀ m, n ≤ m → P m ∧ ¬Q m) → False) : LeadsTo P Q := by
  intro n hn
  by_contra hnever
  have hnot (m : Nat) (hm : n ≤ m) : ¬Q m := fun hQ => hnever ⟨m, hm, hQ⟩
  refine hend n fun m hm => ⟨?_, hnot m hm⟩
  induction m, hm using Nat.le_induction with
  | base => exact hn
  | succ m hm ih => exact (hkeep m ih).resolve_right (hnot (m + 1) (Nat.le_succ_of_le hm))

end LeadsTo

/-! ## Waiting for an answer -/

variable {α κ : Type}

/-- Entries wait in `queue` until their key is answered. The first entry with the key that is answered
leaves the queue, and others come after its last. -/
structure Awaiting (queue : Nat → List α) (key : α → κ) (answered : Nat → Option κ)
    (Left : α → Nat → Prop) : Prop where
  step : ∀ n, (∃ new, queue (n + 1) = queue n ++ new ∧
      ∀ k, answered n = some k → ∀ a ∈ queue n, key a ≠ k) ∨
    ∃ i a, (queue n)[i]? = some a ∧ (∀ j < i, ∀ b, (queue n)[j]? = some b → key b ≠ key a) ∧
      queue (n + 1) = (queue n).eraseIdx i ∧ answered n = some (key a) ∧ Left a (n + 1)

namespace Awaiting

variable {queue : Nat → List α} {key : α → κ} {answered : Nat → Option κ}
  {Left : α → Nat → Prop} {a : α} {i n : Nat}

/-- Entries that are their own keys. -/
theorem of_erase [DecidableEq α] {answered : Nat → Option α}
    (h : ∀ n, (answered n = none ∧ ∃ new, queue (n + 1) = queue n ++ new) ∨
      ∃ a, answered n = some a ∧ queue (n + 1) = (queue n).erase a ∧ Left a (n + 1)) :
    Awaiting queue id answered Left := by
  refine ⟨fun n => ?_⟩
  rcases h n with ⟨hnone, new, hnew⟩ | ⟨a, hanswered, hqueue, hleft⟩
  · refine .inl ⟨new, hnew, fun k hk => ?_⟩
    cases hnone.symm.trans hk
  · rw [List.erase_eq_eraseIdx] at hqueue
    cases hidx : (queue n).idxOf? a with
    | none =>
      rw [hidx] at hqueue
      refine .inl ⟨[], hqueue.trans (List.append_nil _).symm, fun k hk b hb => ?_⟩
      cases hanswered.symm.trans hk
      exact ne_of_mem_of_not_mem hb (List.idxOf?_eq_none_iff.mp hidx)
    | some i =>
      rw [hidx] at hqueue
      obtain ⟨hi, ha, hfirst⟩ := List.findIdx?_eq_some_iff_getElem.mp hidx
      refine .inr ⟨i, a, ?_, fun j hj b hb => ?_, hqueue, hanswered, hleft⟩
      · rw [List.getElem?_eq_getElem hi, eq_of_beq ha]
      · obtain ⟨_, rfl⟩ := List.getElem?_eq_some_iff.mp hb
        exact fun heq => hfirst j hj (beq_iff_eq.mpr heq)

/-- An entry stays where it is or comes nearer to the front, until it leaves. -/
theorem keeps (h : Awaiting queue key answered Left) (ha : (queue n)[i]? = some a) :
    (queue (n + 1))[i]? = some a ∨ Left a (n + 1) ∨ ∃ j < i, (queue (n + 1))[j]? = some a := by
  rcases h.step n with ⟨new, hnew, -⟩ | ⟨k, b, hb, -, hqueue, -, hleft⟩
  · left
    obtain ⟨hi, -⟩ := List.getElem?_eq_some_iff.mp ha
    rw [hnew, List.getElem?_append_left hi, ha]
  · rcases Nat.lt_trichotomy i k with hik | rfl | hki
    · left
      rw [hqueue, List.getElem?_eraseIdx_of_lt hik, ha]
    · cases ha.symm.trans hb
      exact .inr (.inl hleft)
    · refine .inr (.inr ⟨i - 1, by omega, ?_⟩)
      rw [hqueue, List.getElem?_eraseIdx_of_ge (by omega), Nat.sub_add_cancel (by omega), ha]

/-- The answer to its key lets an entry leave, or one before it. -/
theorem answer (h : Awaiting queue key answered Left) (ha : (queue n)[i]? = some a)
    (hanswered : answered n = some (key a)) :
    Left a (n + 1) ∨ ∃ j < i, (queue (n + 1))[j]? = some a := by
  rcases h.step n with ⟨-, -, hnone⟩ | ⟨k, b, hb, hfirst, hqueue, hkey, hleft⟩
  · exact absurd rfl (hnone _ hanswered a (List.mem_of_getElem? ha))
  · have hsame : key a = key b := Option.some.inj (hanswered.symm.trans hkey)
    rcases Nat.lt_trichotomy i k with hik | rfl | hki
    · exact absurd hsame (hfirst i hik a ha)
    · cases ha.symm.trans hb
      exact .inl hleft
    · refine .inr ⟨i - 1, by omega, ?_⟩
      rw [hqueue, List.getElem?_eraseIdx_of_ge (by omega), Nat.sub_add_cancel (by omega), ha]

/-- When a key is answered again after it has been waited for long enough, every entry leaves. -/
theorem leadsTo (h : Awaiting queue key answered Left)
    (hanswer : ∀ a n, (∀ m, n ≤ m → a ∈ queue m) → ∃ m, n ≤ m ∧ answered m = some (key a)) (a : α) :
    LeadsTo (fun n => a ∈ queue n) (Left a) := by
  have hranked (i : Nat) : LeadsTo (fun n => (queue n)[i]? = some a) (Left a) := by
    refine LeadsTo.of_rank (P := fun i n => (queue n)[i]? = some a) (fun i => ?_) i
    refine LeadsTo.of_unless (fun n hn => h.keeps hn) fun n hever => ?_
    obtain ⟨m, hm, hanswered⟩ :=
      hanswer a n fun m hm => List.mem_of_getElem? (hever m hm).1
    exact (hever (m + 1) (Nat.le_succ_of_le hm)).2 (h.answer (hever m hm).1 hanswered)
  refine (LeadsTo.of_exists hranked).mono (fun n hn => ?_) fun _ hleft => hleft
  exact List.mem_iff_getElem?.mp hn

/-- Then a queue of bounded length has room again and again. -/
theorem room {cap : Nat} (h : Awaiting queue key answered Left)
    (hanswer : ∀ a n, (∀ m, n ≤ m → a ∈ queue m) → ∃ m, n ≤ m ∧ answered m = some (key a))
    (hcap : ∀ n, (queue n).length ≤ cap) (hne : queue n ≠ []) :
    ∃ m, n ≤ m ∧ (queue m).length < cap := by
  have hshorter : Awaiting queue key answered fun _ n => (queue n).length < cap := by
    refine ⟨fun n => (h.step n).imp_right ?_⟩
    rintro ⟨i, a, ha, hfirst, hqueue, hkey, -⟩
    refine ⟨i, a, ha, hfirst, hqueue, hkey, ?_⟩
    obtain ⟨hi, -⟩ := List.getElem?_eq_some_iff.mp ha
    rw [hqueue, List.length_eraseIdx_of_lt hi]
    have := hcap n
    omega
  obtain ⟨a, ha⟩ := List.exists_mem_of_ne_nil _ hne
  exact hshorter.leadsTo hanswer a n ha

end Awaiting

/-! ## Writing again -/

/-- Entries wait with the time at which they were written the last time. One that is new or changed
is written in that step, and a pass leaves none that is older than `age`. -/
structure Renewing (waits : Nat → List (α × Nat)) (written : α → Nat → Prop) (clock : Nat → Nat)
    (pass : Nat → Prop) (age : Nat) : Prop where
  renewed : ∀ n, ∀ e ∈ waits (n + 1), e ∈ waits n ∨ written e.1 n
  settled : ∀ n, pass n → ∀ e ∈ waits (n + 1), clock n ≤ e.2 + age
  clock_le : ∀ n, clock n ≤ clock (n + 1)

/-- What waits for ever is written again and again. -/
theorem Renewing.frequently {waits : Nat → List (α × Nat)} {written : α → Nat → Prop}
    {clock : Nat → Nat} {pass : Nat → Prop} {age : Nat} {a : α} {n : Nat}
    (h : Renewing waits written clock pass age) (hpass : ∃ᶠ n in atTop, pass n)
    (hclock : ∀ t, ∃ n, t ≤ clock n) (hever : ∀ m, n ≤ m → ∃ t, (a, t) ∈ waits m) :
    ∃ᶠ m in atTop, written a m := by
  by_contra hfinite
  rw [not_frequently, eventually_atTop] at hfinite
  obtain ⟨n₀, hquiet⟩ := hfinite
  -- from here on the entry is not written, so its times are old ones
  obtain ⟨k, hnk, hnk₀⟩ : ∃ k, n ≤ k ∧ n₀ ≤ k := ⟨max n n₀, le_max_left .., le_max_right ..⟩
  have hold (m : Nat) (hm : k ≤ m) : ∀ t, (a, t) ∈ waits m → (a, t) ∈ waits k := by
    induction m, hm using Nat.le_induction with
    | base => exact fun t ht => ht
    | succ m hm ih =>
      intro t ht
      rcases h.renewed m _ ht with ht | hwritten
      · exact ih t ht
      · exact absurd hwritten (hquiet m (Nat.le_trans hnk₀ hm))
  obtain ⟨t, ht⟩ := (waits k).finite_toSet.image Prod.snd |>.bddAbove
  obtain ⟨n₁, hn₁⟩ := hclock (t + age + 1)
  obtain ⟨m, hm, hpasses⟩ := frequently_atTop.mp hpass (max k n₁)
  have hkm : k ≤ m := Nat.le_trans (le_max_left ..) hm
  obtain ⟨t', ht'⟩ := hever (m + 1) (by omega)
  have hrecent := h.settled m hpasses _ ht'
  have hbound : t' ≤ t := ht ⟨_, hold (m + 1) (by omega) _ ht', rfl⟩
  have hnow : clock n₁ ≤ clock m :=
    monotone_nat_of_le_succ h.clock_le (Nat.le_trans (le_max_right k n₁) hm)
  omega

/-! ## Standing in a line -/

/-- Entries of `line` move on or come nearer to the front. While one stays where it is, the line does
not get blocked. -/
structure Line (line : Nat → List α) (Moved : α → Nat → Prop) (Blocked : Nat → Prop) : Prop where
  keeps : ∀ (n i : Nat) (a : α), (line n)[i]? = some a →
    ((line (n + 1))[i]? = some a ∧ (Blocked (n + 1) → Blocked n)) ∨ Moved a (n + 1) ∨
      ∃ j < i, (line (n + 1))[j]? = some a

/-- No entry stays where it is. -/
def Serves (line : Nat → List α) (Moved : α → Nat → Prop) (n : Nat) : Prop :=
  ∀ (i : Nat) (a : α), (line n)[i]? = some a →
    Moved a (n + 1) ∨ ∃ j < i, (line (n + 1))[j]? = some a

variable {line : Nat → List α} {Moved : α → Nat → Prop} {Blocked : Nat → Prop}

theorem serves_of_nil {n : Nat} (h : line n = []) : Serves line Moved n := by
  intro i a ha
  rw [h] at ha
  cases ha

namespace Line

/-- Entries move on from the front, and others come after the last. Only what moves on can block the
line. -/
theorem of_front (h : ∀ n, ∃ moved rest new, line n = moved ++ rest ∧ line (n + 1) = rest ++ new ∧
    (∀ a ∈ moved, Moved a (n + 1)) ∧ (moved = [] → Blocked (n + 1) → Blocked n)) :
    Line line Moved Blocked := by
  refine ⟨fun n i a ha => ?_⟩
  obtain ⟨moved, rest, new, hline, hnext, hmoved, hblocked⟩ := h n
  rw [hline] at ha
  rcases Nat.lt_or_ge i moved.length with hi | hi
  · rw [List.getElem?_append_left hi] at ha
    exact .inr (.inl (hmoved a (List.mem_of_getElem? ha)))
  · rw [List.getElem?_append_right hi] at ha
    have hget : (line (n + 1))[i - moved.length]? = some a := by
      obtain ⟨hlt, -⟩ := List.getElem?_eq_some_iff.mp ha
      rw [hnext, List.getElem?_append_left hlt, ha]
    cases moved with
    | nil => exact .inl ⟨hget, hblocked rfl⟩
    | cons b moved =>
      rw [List.length_cons] at hi hget
      exact .inr (.inr ⟨i - (moved.length + 1), by omega, hget⟩)

/-- A line that is served or found blocked again and again, and is never blocked for ever, moves on. -/
theorem leadsTo (h : Line line Moved Blocked)
    (hserved : ∃ᶠ n in atTop, Serves line Moved n ∨ Blocked n)
    (hroom : ∀ n, Blocked n → ∃ m, n ≤ m ∧ ¬Blocked m) (a : α) :
    LeadsTo (fun n => a ∈ line n) (Moved a) := by
  have hranked (i : Nat) : LeadsTo (fun n => (line n)[i]? = some a) (Moved a) := by
    refine LeadsTo.of_rank (P := fun i n => (line n)[i]? = some a) (fun i => ?_) i
    refine LeadsTo.of_unless (fun n hn => (h.keeps n i a hn).imp_left And.left) fun n hever => ?_
    have hfree (m m' : Nat) (hm : n ≤ m) (hm' : m ≤ m') (hblocked : ¬Blocked m) : ¬Blocked m' := by
      induction m', hm' using Nat.le_induction with
      | base => exact hblocked
      | succ k hk ih =>
        have hkeeps := (h.keeps k i a (hever k (Nat.le_trans hm hk)).1).resolve_right
          (hever (k + 1) (by omega)).2
        exact fun hnext => ih (hkeeps.2 hnext)
    have hunserved (m : Nat) (hm : n ≤ m) : ¬Serves line Moved m := fun hserves =>
      (hever (m + 1) (Nat.le_succ_of_le hm)).2 (hserves i a (hever m hm).1)
    obtain ⟨m₁, hm₁, hserved₁⟩ := frequently_atTop.mp hserved n
    obtain ⟨m₂, hm₂, hfree₂⟩ := hroom m₁ (hserved₁.resolve_left (hunserved m₁ hm₁))
    obtain ⟨m₃, hm₃, hserved₃⟩ := frequently_atTop.mp hserved m₂
    have hle₂ : n ≤ m₂ := Nat.le_trans hm₁ hm₂
    exact hfree m₂ m₃ hle₂ hm₃ hfree₂
      (hserved₃.resolve_left (hunserved m₃ (Nat.le_trans hle₂ hm₃)))
  refine (LeadsTo.of_exists hranked).mono (fun n hn => ?_) fun _ hmoved => hmoved
  exact List.mem_iff_getElem?.mp hn

end Line

end Run
