import EmbeddedMqttc.Packet

/-!
# The pool of packet identifiers

`PidPool` of `src/state/pid.rs`: freed identifiers are handed out again in the order in which they
were freed, and new ones are counted upwards. A `none` below is a panic of the source.
-/

namespace EmbeddedMqttc

def PID_POOL_SIZE : Nat := 16

structure PidPool (POOL_SIZE : Nat) where
  pool : BoundedVec Nat POOL_SIZE
  nextNewPid : Nat
  deriving DecidableEq, Repr

namespace PidPool

variable {POOL_SIZE : Nat}

def new : PidPool POOL_SIZE where
  pool := .empty
  nextNewPid := 1

def take (s : PidPool POOL_SIZE) : Option (Pid × PidPool POOL_SIZE) :=
  if s.nextNewPid = 65535 then none
  else (Pid.ofNat? s.nextNewPid).map fun pid => (pid, { s with nextNewPid := s.nextNewPid + 1 })

def nextPid (s : PidPool POOL_SIZE) : Option (Pid × PidPool POOL_SIZE) :=
  match s.pool.popFront with
  | some (pid, pool) => (Pid.ofNat? pid).map fun pid => (pid, { s with pool })
  | none => s.take

/-- An identifier that does not fit in the pool is lost. -/
def freePid (s : PidPool POOL_SIZE) (pid : Pid) : PidPool POOL_SIZE :=
  match s.pool.push pid.val with
  | some pool => { s with pool }
  | none => s

/-- The identifiers that the next `n` calls of `next_pid` hand out, up to the first one that panics. -/
def upcoming : PidPool POOL_SIZE → Nat → List Pid
  | _, 0 => []
  | s, n + 1 =>
    match s.nextPid with
    | some (pid, s') => pid :: s'.upcoming n
    | none => []

/-! ## What the operations do -/

/-- How often a pid is in the pool. -/
def free (s : PidPool POOL_SIZE) (p : Pid) : Nat := s.pool.toList.count p.val

variable {s s' : PidPool POOL_SIZE} {used used' : Pid → Nat} {pid : Pid}

/-- The next identifier comes from the pool, or it is new. -/
theorem nextPid_cases (h : s.nextPid = some (pid, s')) :
    (s'.nextNewPid = s.nextNewPid ∧ s.pool.toList = pid.val :: s'.pool.toList) ∨
      (s.nextNewPid = pid.val ∧ s.nextNewPid ≠ 65535 ∧ s'.nextNewPid = pid.val + 1 ∧
        s'.pool = s.pool) := by
  unfold nextPid at h
  split at h
  · rename_i n pool hpop
    obtain ⟨pid', hpid, heq⟩ := Option.map_eq_some_iff.mp h
    cases heq
    rw [BoundedVec.popFront_eq_some_iff.mp hpop, Pid.eq_val_of_ofNat? hpid]
    exact .inl ⟨rfl, rfl⟩
  · unfold take at h
    split at h
    · cases h
    · rename_i hne
      obtain ⟨pid', hpid, heq⟩ := Option.map_eq_some_iff.mp h
      cases heq
      have hval := Pid.eq_val_of_ofNat? hpid
      exact .inr ⟨hval, hne, congrArg (· + 1) hval, rfl⟩

theorem upcoming_succ (h : s.nextPid = some (pid, s')) (n : Nat) :
    s.upcoming (n + 1) = pid :: s'.upcoming n := by rw [upcoming, h]

theorem upcoming_of_none (h : s.nextPid = none) (n : Nat) : s.upcoming n = [] := by
  cases n with
  | zero => rfl
  | succ n => rw [upcoming, h]

theorem free_of_cons (h : s.pool.toList = pid.val :: s'.pool.toList) (p : Pid) :
    s.free p = s'.free p + if pid = p then 1 else 0 := by
  rw [free, h, List.count_cons]
  simp only [beq_iff_eq, Pid.val_inj, free]

@[simp] theorem nextNewPid_freePid : (s.freePid pid).nextNewPid = s.nextNewPid := by
  unfold freePid
  split <;> rfl

theorem free_freePid (p : Pid) :
    (s.freePid pid).free p = s.free p + if pid = p ∧ s.pool.isFull = false then 1 else 0 := by
  unfold freePid
  cases hpush : s.pool.push pid.val with
  | none =>
    have hfull := BoundedVec.push_eq_none_iff.mp hpush
    simp [hfull]
  | some pool =>
    have hpool := BoundedVec.push_eq_some_iff.mp hpush
    have hroom := BoundedVec.not_isFull_iff.mpr hpool.1
    rw [free, hpool.2, List.count_append, List.count_singleton]
    simp [Pid.val_inj, hroom, free]

/-! ## No identifier is given out twice -/

/-- `used` counts the uses of each identifier. An identifier is used or free at most once, and one
that has not been counted yet is neither. -/
structure Sound (s : PidPool POOL_SIZE) (used : Pid → Nat) : Prop where
  once : ∀ p, used p + s.free p ≤ 1
  fresh : ∀ p, s.nextNewPid ≤ p.val → used p + s.free p = 0
  valid : ∀ n ∈ s.pool, 0 < n ∧ n < s.nextNewPid
  bound : 0 < s.nextNewPid ∧ s.nextNewPid ≤ 65535

theorem new_sound : (new : PidPool POOL_SIZE).Sound fun _ => 0 where
  once _ := Nat.zero_le 1
  fresh _ _ := rfl
  valid := nofun
  bound := ⟨Nat.one_pos, by simp [new]⟩

namespace Sound

theorem mono (h : s.Sound used) (hle : ∀ p, used' p ≤ used p) : s.Sound used' where
  once p := Nat.le_trans (Nat.add_le_add_right (hle p) _) (h.once p)
  fresh p hp := by
    have := h.fresh p hp
    have := hle p
    omega
  valid := h.valid
  bound := h.bound

theorem used_le_one (h : s.Sound used) (p : Pid) : used p ≤ 1 :=
  Nat.le_trans (Nat.le_add_right ..) (h.once p)

/-- The next identifier is in no use. -/
theorem nextPid (h : s.Sound used) (hn : s.nextPid = some (pid, s')) :
    s'.Sound fun p => used p + if pid = p then 1 else 0 := by
  rcases nextPid_cases hn with ⟨hnew, hcons⟩ | ⟨hval, hne, hnew, hpool⟩
  · refine ⟨fun p => ?_, fun p hp => ?_, fun n hn => ?_, hnew ▸ h.bound⟩
    · have := h.once p
      have := free_of_cons hcons p
      omega
    · have := h.fresh p (hnew ▸ hp)
      have := free_of_cons hcons p
      omega
    · rw [hnew]
      refine h.valid n ?_
      rw [← BoundedVec.mem_toList, hcons]
      exact List.mem_cons_of_mem _ hn
  · have hfree (p : Pid) : s'.free p = s.free p := by rw [free, hpool, free]
    refine ⟨fun p => ?_, fun p hp => ?_, fun n hn => ?_, ?_⟩
    · have := hfree p
      split
      · rename_i heq
        have := h.fresh p (Nat.le_of_eq (heq ▸ hval))
        omega
      · have := h.once p
        omega
    · have hne : pid ≠ p := by
        rintro rfl
        omega
      have := h.fresh p (by omega)
      have := hfree p
      rw [if_neg hne]
      omega
    · have := h.valid n (hpool ▸ hn)
      omega
    · have := h.bound
      omega

/-- An identifier is freed that is in use. -/
theorem freePid (h : s.Sound used) (hu : ∀ p, used p = used' p + if pid = p then 1 else 0) :
    (s.freePid pid).Sound used' := by
  have hle (p : Pid) : used' p + (s.freePid pid).free p ≤ used p + s.free p := by
    rw [free_freePid, hu p]
    split <;> split <;> simp_all; omega
  have hpid : pid.val < s.nextNewPid := by
    by_contra hge
    have := h.fresh pid (Nat.le_of_not_lt hge)
    have := hu pid
    rw [if_pos rfl] at this
    omega
  refine ⟨fun p => Nat.le_trans (hle p) (h.once p), fun p hp => ?_, fun n hn => ?_, ?_⟩
  · rw [nextNewPid_freePid] at hp
    exact Nat.le_zero.mp (h.fresh p hp ▸ hle p)
  · rw [nextNewPid_freePid]
    unfold PidPool.freePid at hn
    split at hn
    · rename_i pool hpush
      rcases (BoundedVec.mem_iff_of_push hpush).mp hn with hn | rfl
      · exact h.valid n hn
      · exact ⟨pid.pos, hpid⟩
    · exact h.valid n hn
  · rw [nextNewPid_freePid]
    exact h.bound

/-- The panic of `next_pid`: nothing is in the pool and all identifiers were counted. -/
theorem nextPid_eq_none (h : s.Sound used) (hn : s.nextPid = none) :
    (∀ p, s.free p = 0) ∧ s.nextNewPid = 65535 := by
  have hpid : ∀ n, 0 < n → n < 65536 → ∃ p, Pid.ofNat? n = some p := by
    intro n hpos hlt
    exact ⟨⟨n, hpos, hlt⟩, dif_pos ⟨hpos, hlt⟩⟩
  have hbound := h.bound
  unfold PidPool.nextPid at hn
  split at hn
  · rename_i n pool hpop
    have hmem : n ∈ s.pool := by
      rw [← BoundedVec.mem_toList, BoundedVec.popFront_eq_some_iff.mp hpop]
      exact List.mem_cons_self
    have hn' := h.valid n hmem
    obtain ⟨p, hp⟩ := hpid n hn'.1 (by omega)
    rw [hp] at hn
    cases hn
  · rename_i hempty
    refine ⟨fun p => ?_, ?_⟩
    · rw [free, BoundedVec.popFront_eq_none_iff.mp hempty]
      rfl
    · by_contra hne
      obtain ⟨p, hp⟩ := hpid s.nextNewPid hbound.1 (by omega)
      rw [take, if_neg hne, hp] at hn
      cases hn

/-- The pool holds no identifier twice. -/
theorem pool_nodup (h : s.Sound used) : s.pool.toList.Nodup := by
  rw [List.nodup_iff_count_le_one]
  intro n
  by_cases hn : n ∈ s.pool.toList
  · have hvalid := h.valid n hn
    have hbound := h.bound
    have hcount : _ + s.pool.toList.count n ≤ 1 := h.once ⟨n, hvalid.1, by omega⟩
    omega
  · rw [List.count_eq_zero.mpr hn]
    exact Nat.zero_le 1

end Sound

end PidPool

end EmbeddedMqttc
