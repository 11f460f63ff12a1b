import EmbeddedMqttc.Library.BoundedVec

/-!
# Registrations of wakers

What a lock or a channel stores of the tasks that wait for it. A registration may have to wake tasks to
make room. Whatever it does, it must not forget one: a task that was registered still is, or it has been
woken.
-/

/-- `register` and `wake` also return the tasks that they wake. -/
structure WakerRegistration (Task R : Type) where
  new : R
  register : R → Task → R × List Task
  wake : R → R × List Task
  registered : R → List Task

variable {Task R : Type}

structure WakerRegistration.ForgetsNone (W : WakerRegistration Task R) : Prop where
  register : ∀ r task, task ∈ W.registered (W.register r task).1
  keeps : ∀ r task other, other ∈ W.registered r →
    other ∈ W.registered (W.register r task).1 ∨ other ∈ (W.register r task).2
  wake : ∀ r task, task ∈ W.registered r → task ∈ (W.wake r).2

/-- A registration with `n` slots. When they are all taken, it wakes and clears them all. -/
def boundedWakers (Task : Type) [DecidableEq Task] (n : Nat) :
    WakerRegistration Task (BoundedVec Task n) where
  new := .empty
  register wakers task :=
    if task ∈ wakers then (wakers, [])
    else
      match wakers.push task with
      | some wakers' => (wakers', [])
      | none => ((BoundedVec.empty.push task).getD .empty, wakers.toList)
  wake wakers := (.empty, wakers.toList)
  registered := BoundedVec.toList

theorem boundedWakers_forgetsNone [DecidableEq Task] {n : Nat} (hn : 0 < n) :
    (boundedWakers Task n).ForgetsNone where
  register wakers task := by
    dsimp only [boundedWakers]
    split
    · assumption
    · split
      · rename_i wakers' hpush
        exact (BoundedVec.mem_iff_of_push hpush).mpr (.inr rfl)
      · have hroom : (BoundedVec.empty : BoundedVec Task n).isFull = false :=
          BoundedVec.not_isFull_iff.mpr hn
        obtain ⟨wakers', hpush⟩ := BoundedVec.exists_push hroom task
        rw [hpush, Option.getD_some]
        exact (BoundedVec.mem_iff_of_push hpush).mpr (.inr rfl)
  keeps wakers task other hother := by
    dsimp only [boundedWakers] at hother ⊢
    split
    · exact .inl hother
    · split
      · rename_i wakers' hpush
        exact .inl ((BoundedVec.mem_iff_of_push hpush).mpr (.inl hother))
      · exact .inr hother
  wake wakers task htask := htask
