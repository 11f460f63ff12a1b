import EmbeddedMqttc.Library.Run
import EmbeddedMqttc.Library.WakerRegistration

/-!
# The mutex

`Mutex` of `src/mutex.rs` and any number of tasks that poll its futures and hold its locks. Every method
runs under the blocking mutex, so that a poll or a drop is one step. A future takes nothing when it is
made and leaves nothing behind when it is dropped.

`W` stands for `MultiWakerRegistration`.
-/

namespace EmbeddedMqttc

open Run

structure Mutex (R T : Type) where
  value : T
  wakers : R
  locked : Bool
  deriving DecidableEq

variable {Task Future R T E : Type}

namespace Mutex

variable (W : WakerRegistration Task R)

def new (value : T) : Mutex R T where
  value := value
  wakers := W.new
  locked := false

variable (self : Mutex R T)

/-- The tasks that are woken are returned, too. -/
def register (waker : Task) : Mutex R T × List Task :=
  ({ self with wakers := (W.register self.wakers waker).1 }, (W.register self.wakers waker).2)

/-- `none` is `Poll::Pending`. -/
def pollLock (waker : Task) : Option Unit × Mutex R T × List Task :=
  if self.locked then (none, self.register W waker)
  else (some (), { self with locked := true }, [])

def pollTryWithLock (operation : T → Except E Bool × T) (waker : Task) :
    Option (Except E Unit) × Mutex R T × List Task :=
  if self.locked then (none, self.register W waker)
  else
    match operation self.value with
    | (.ok true, value) => (some (.ok ()), { self with value }, [])
    | (.ok false, value) => (none, { self with value }.register W waker)
    | (.error e, value) => (some (.error e), { self with value }, [])

/-- `Lock::drop`. -/
def unlock : Mutex R T × List Task :=
  ({ self with locked := false, wakers := (W.wake self.wakers).1 }, (W.wake self.wakers).2)

end Mutex

/-- A value and how often a closure of `try_with_lock` has run on it. -/
structure Counted (T : Type) where
  value : T
  runs : Nat
  deriving DecidableEq

/-- The closure counts its runs. -/
def Counted.counting (operation : T → Except E Bool × T) (c : Counted T) :
    Except E Bool × Counted T :=
  ((operation c.value).1, { value := (operation c.value).2, runs := c.runs + 1 })

/-- A mutex and, as `locks`, the tasks that have got a `Lock` of it which has not been dropped. The rest
is history: `waiting` are the tasks and futures whose latest poll returned `Pending` if the task has not
been woken since, `mutex.value.runs` counts the runs of closures, and `overlaps` adds up the locks that
existed at each of them. -/
structure Contention (Task Future R T : Type) where
  mutex : Mutex R (Counted T)
  locks : List Task
  waiting : List (Task × Future)
  overlaps : Nat
  deriving DecidableEq

namespace Contention

inductive Label (Task Future T E : Type) where
  | pollLock (task : Task) (future : Future)
  | pollTryWithLock (task : Task) (future : Future) (operation : T → Except E Bool × T)
  | dropFuture (future : Future)
  /-- The holder of a lock changes the value. -/
  | store (i : Nat) (f : T → T)
  | dropLock (i : Nat)

variable (W : WakerRegistration Task R)

def new (value : T) : Contention Task Future R T where
  mutex := .new W { value, runs := 0 }
  locks := []
  waiting := []
  overlaps := 0

/-- There is a lock exactly while the mutex is locked, and who waits is registered. -/
structure Sound (s : Contention Task Future R T) : Prop where
  locks : s.locks.length = if s.mutex.locked then 1 else 0
  registered : ∀ w ∈ s.waiting, w.1 ∈ W.registered s.mutex.wakers
  overlaps : s.overlaps = 0

theorem new_sound (value : T) : (new W value : Contention Task Future R T).Sound W :=
  ⟨rfl, nofun, rfl⟩

/-- While there is a lock, `try_with_lock` waits and leaves the value alone. -/
theorem Sound.pollTryWithLock_waits {s : Contention Task Future R T} (h : s.Sound W)
    (hlocks : s.locks ≠ []) (operation : Counted T → Except E Bool × Counted T) (task : Task) :
    (s.mutex.pollTryWithLock W operation task).1 = none ∧
      (s.mutex.pollTryWithLock W operation task).2.1.value = s.mutex.value := by
  have hlocked : s.mutex.locked = true := by
    by_contra hfree
    have hnone := h.locks
    rw [if_neg hfree] at hnone
    exact hlocks (List.length_eq_zero_iff.mp hnone)
  simp [Mutex.pollTryWithLock, Mutex.register, hlocked]

section

variable [DecidableEq Task] {s : Contention Task Future R T} {w : Task × Future} {woken : List Task}

/-- Those that still wait after `woken` have been woken. -/
def unwoken (s : Contention Task Future R T) (woken : List Task) : List (Task × Future) :=
  s.waiting.filter fun w => w.1 ∉ woken

theorem mem_unwoken : w ∈ s.unwoken woken ↔ w ∈ s.waiting ∧ w.1 ∉ woken := by
  rw [unwoken, List.mem_filter, decide_eq_true_iff]

end

variable [DecidableEq Task] [DecidableEq Future] (s : Contention Task Future R T)

/-- Those that wait after a poll. -/
def polled (task : Task) (future : Future) (pending : Bool) (woken : List Task) :
    List (Task × Future) :=
  let others := (s.unwoken woken).filter (· ≠ (task, future))
  if pending then (task, future) :: others else others

def next : Label Task Future T E → Option (Contention Task Future R T)
  | .pollLock task future =>
    let (result, mutex, woken) := s.mutex.pollLock W task
    some
      { s with
        mutex
        locks := if result.isSome then task :: s.locks else s.locks
        waiting := s.polled task future result.isNone woken }
  | .pollTryWithLock task future operation =>
    let (result, mutex, woken) := s.mutex.pollTryWithLock W (Counted.counting operation) task
    some
      { s with
        mutex
        waiting := s.polled task future result.isNone woken
        overlaps := s.overlaps + (mutex.value.runs - s.mutex.value.runs) * s.locks.length }
  | .dropFuture _ => some s
  | .store i f =>
    if i < s.locks.length then some { s with mutex.value.value := f s.mutex.value.value } else none
  | .dropLock i =>
    if i < s.locks.length then
      let (mutex, woken) := s.mutex.unlock W
      some { s with mutex, locks := s.locks.eraseIdx i, waiting := s.unwoken woken }
    else none

variable {W} {s} {s' : Contention Task Future R T} {task : Task} {future : Future}
  {w : Task × Future} {woken : List Task}

theorem mem_polled {pending : Bool} (h : w ∈ s.polled task future pending woken) :
    (w = (task, future) ∧ pending = true) ∨ (w ∈ s.waiting ∧ w.1 ∉ woken) := by
  have hothers {w} (h : w ∈ (s.unwoken woken).filter (· ≠ (task, future))) :
      w ∈ s.waiting ∧ w.1 ∉ woken := mem_unwoken.mp (List.mem_filter.mp h).1
  unfold polled at h
  split at h
  · rcases List.mem_cons.mp h with rfl | h
    · exact .inl ⟨rfl, by assumption⟩
    · exact .inr (hothers h)
  · exact .inr (hothers h)

/-- A poll that returns `Pending` has registered the task. Who waited before is still registered or has
been woken. -/
theorem Sound.register (hW : W.ForgetsNone) (h : s.Sound W)
    (hw : w ∈ s.polled task future true (W.register s.mutex.wakers task).2) :
    w.1 ∈ W.registered (W.register s.mutex.wakers task).1 := by
  rcases mem_polled hw with ⟨rfl, -⟩ | ⟨hwaiting, hwoken⟩
  · exact hW.register _ _
  · rcases hW.keeps _ task _ (h.registered w hwaiting) with hregistered | hother
    · exact hregistered
    · exact absurd hother hwoken

/-- A poll that is ready wakes nobody. -/
theorem Sound.ready (h : s.Sound W) (hw : w ∈ s.polled task future false []) :
    w.1 ∈ W.registered s.mutex.wakers := by
  rcases mem_polled hw with ⟨-, hpending⟩ | ⟨hwaiting, -⟩
  · cases hpending
  · exact h.registered w hwaiting

theorem Sound.pollLock (hW : W.ForgetsNone) (h : s.Sound W)
    (hstep : s.next W (.pollLock task future : Label Task Future T E) = some s') : s'.Sound W := by
  have hlocks := h.locks
  simp only [Contention.next, Mutex.pollLock] at hstep
  cases hlocked : s.mutex.locked with
  | true =>
    rw [hlocked] at hlocks
    simp only [hlocked, if_true] at hstep
    cases hstep
    refine ⟨?_, ?_, h.overlaps⟩
    · simpa [Mutex.register, hlocked] using hlocks
    · exact fun w hw => h.register hW hw
  | false =>
    rw [hlocked] at hlocks
    simp only [hlocked, Bool.false_eq_true, if_false] at hstep
    cases hstep
    refine ⟨?_, ?_, h.overlaps⟩
    · simpa using hlocks
    · exact fun w hw => h.ready hw

theorem Sound.pollTryWithLock (hW : W.ForgetsNone) (h : s.Sound W)
    {operation : T → Except E Bool × T}
    (hstep : s.next W (.pollTryWithLock task future operation) = some s') : s'.Sound W := by
  have hlocks := h.locks
  simp only [Contention.next, Mutex.pollTryWithLock] at hstep
  cases hlocked : s.mutex.locked with
  | true =>
    rw [hlocked] at hlocks
    simp only [hlocked, if_true] at hstep
    cases hstep
    refine ⟨?_, ?_, ?_⟩
    · simpa [Mutex.register, hlocked] using hlocks
    · exact fun w hw => h.register hW hw
    · simp [Mutex.register, h.overlaps]
  | false =>
    -- nobody holds a lock while the closure runs
    rw [hlocked] at hlocks
    have hoverlaps (n : Nat) : s.overlaps + n * s.locks.length = 0 := by
      rw [h.overlaps, hlocks]
      rfl
    simp only [hlocked, Bool.false_eq_true, if_false] at hstep
    rcases hresult : Counted.counting operation s.mutex.value with ⟨e | ready, value⟩
    · simp only [hresult] at hstep
      cases hstep
      refine ⟨?_, ?_, hoverlaps _⟩
      · simpa [hlocked] using hlocks
      · exact fun w hw => h.ready hw
    · cases ready with
      | true =>
        simp only [hresult] at hstep
        cases hstep
        refine ⟨?_, ?_, hoverlaps _⟩
        · simpa [hlocked] using hlocks
        · exact fun w hw => h.ready hw
      | false =>
        simp only [hresult] at hstep
        cases hstep
        refine ⟨?_, ?_, hoverlaps _⟩
        · simpa [Mutex.register, hlocked] using hlocks
        · exact fun w hw => h.register hW hw

/-- When a lock is dropped, everybody who waits is woken. -/
theorem Sound.dropLock (hW : W.ForgetsNone) (h : s.Sound W) {i : Nat}
    (hstep : s.next W (.dropLock i : Label Task Future T E) = some s') :
    s'.waiting = [] ∧ s'.Sound W := by
  have hlocks := h.locks
  simp only [next] at hstep
  split at hstep
  · rename_i hi
    cases hstep
    have hwaiting : s.unwoken (W.wake s.mutex.wakers).2 = [] := by
      apply List.eq_nil_iff_forall_not_mem.mpr
      intro w hw
      obtain ⟨hwaiting, hwoken⟩ := mem_unwoken.mp hw
      exact hwoken (hW.wake _ _ (h.registered w hwaiting))
    have hone : s.locks.length = 1 := by
      split at hlocks
      · exact hlocks
      · omega
    refine ⟨hwaiting, ?_, ?_, h.overlaps⟩
    · simp only [Mutex.unlock, List.length_eraseIdx_of_lt hi, hone]
      rfl
    · intro w hw
      have hw : w ∈ s.unwoken (W.wake s.mutex.wakers).2 := hw
      rw [hwaiting] at hw
      cases hw
  · cases hstep

theorem Sound.next (hW : W.ForgetsNone) (h : s.Sound W) {l : Label Task Future T E}
    (hstep : s.next W l = some s') : s'.Sound W := by
  cases l with
  | pollLock task future => exact h.pollLock hW hstep
  | pollTryWithLock task future operation => exact h.pollTryWithLock hW hstep
  | dropFuture future =>
    cases hstep
    exact h
  | store i f =>
    simp only [Contention.next] at hstep
    split at hstep
    · cases hstep
      exact ⟨h.locks, h.registered, h.overlaps⟩
    · cases hstep
  | dropLock i => exact (h.dropLock hW hstep).2

/-- In every state that a run reaches there is at most one lock, no closure has run while there was
one, nor does the next poll of `try_with_lock` run one, the mutex is locked exactly while there is
one, a task whose latest poll returned `Pending` is registered unless it has been woken since, and the
drop of a lock wakes all of them. -/
theorem excludes_and_wakes (hW : W.ForgetsNone) {value : T} {ls : List (Label Task Future T E)}
    (hrun : run (fun s l => s.next W l) (new W value) ls = some s) :
    s.locks.length ≤ 1 ∧ s.overlaps = 0 ∧
      (s.locks ≠ [] → ∀ (operation : Counted T → Except E Bool × Counted T) (task : Task),
        (s.mutex.pollTryWithLock W operation task).1 = none ∧
          (s.mutex.pollTryWithLock W operation task).2.1.value = s.mutex.value) ∧
      (s.mutex.locked = true ↔ s.locks ≠ []) ∧
      (∀ task future, (task, future) ∈ s.waiting → task ∈ W.registered s.mutex.wakers) ∧
      ∀ i s', s.next W (.dropLock i : Label Task Future T E) = some s' → s'.waiting = [] := by
  have hsound : s.Sound W :=
    invariant (I := fun s => s.Sound W) (fun _ _ _ h hstep => h.next hW hstep) (new_sound W value) hrun
  have hlocks := hsound.locks
  refine ⟨?_, hsound.overlaps, hsound.pollTryWithLock_waits, ?_,
    fun task future hw => hsound.registered _ hw, fun i s' hstep => (hsound.dropLock hW hstep).1⟩
  · split at hlocks <;> omega
  · rw [← List.length_pos_iff, hlocks]
    cases s.mutex.locked <;> simp

/-- One slot for wakers. Task 0 has the lock and tasks 1 and 2 wait for it; when it is dropped, task 2
is polled first and waits again, since its closure returns `Ok(false)`, and task 1 gets the lock. -/
def handover : List (Label Nat Nat Nat Unit) :=
  [.pollLock 0 0, .pollLock 1 1, .pollTryWithLock 2 2 fun value => (.ok false, value), .dropLock 0,
    .pollTryWithLock 2 2 fun value => (.ok false, value), .pollLock 1 1]

theorem excludes_and_wakes_on_handover :
    ∃ s : Contention Nat Nat (BoundedVec Nat 1) Nat,
      run (fun s l => s.next (boundedWakers Nat 1) l) (new (boundedWakers Nat 1) 7) handover = some s ∧
      s.locks = [1] ∧ s.waiting = [(2, 2)] ∧ s.mutex.value.runs = 1 ∧
      2 ∈ (boundedWakers Nat 1).registered s.mutex.wakers ∧
      ∀ (operation : Counted Nat → Except Unit Bool × Counted Nat) (task : Nat),
        (s.mutex.pollTryWithLock (boundedWakers Nat 1) operation task).1 = none := by
  obtain ⟨s, hrun, hlocks, hwaiting, hruns⟩ : ∃ s : Contention Nat Nat (BoundedVec Nat 1) Nat,
      run (fun s l => s.next (boundedWakers Nat 1) l) (new (boundedWakers Nat 1) 7) handover = some s ∧
      s.locks = [1] ∧ s.waiting = [(2, 2)] ∧ s.mutex.value.runs = 1 := ⟨_, rfl, rfl, rfl, rfl⟩
  obtain ⟨-, -, hwaits, -, hregistered, -⟩ :=
    excludes_and_wakes (boundedWakers_forgetsNone Nat.one_pos) hrun
  have hlock : s.locks ≠ [] := by simp [hlocks]
  refine ⟨s, hrun, hlocks, hwaiting, hruns, hregistered 2 2 ?_, fun operation task =>
    (hwaits hlock operation task).1⟩
  rw [hwaiting]
  exact List.mem_cons_self

end Contention

end EmbeddedMqttc
