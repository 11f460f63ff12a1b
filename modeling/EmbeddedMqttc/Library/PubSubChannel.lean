import Mathlib

/-!
# Broadcast channels of bounded length

In a `PubSubChannel ι α CAP SUBS` every subscriber gets every message. `slots` holds at most `CAP`
messages, each with a count of those that have still to read it, and `behind` tells for each of at most
`SUBS` subscribers how many of the messages published since it subscribed it has not read. The oldest
message leaves the queue when its last reader reads it. When the queue is full, `publish` waits and
`publishImmediate` drops the oldest message; a subscriber that has not read it has lagged, and the next
one that it reads is the oldest that is left.

A subscriber that is dropped is not counted any more, unless it has lagged: then the messages that are
in the queue stay counted for it, and they leave only when `publishImmediate` drops them. A channel from
which no such subscriber has been dropped is `Tight`: each of its messages has a reader.

What the subscribers get can be said with `unread`, the messages that a subscriber has still to read:
there is one lemma for each operation.
-/

namespace PubSubChannel

variable {ι α : Type} {CAP SUBS : Nat}

/-! ## Counting readers -/

/-- How many have not read the message that `n` newer ones follow. -/
def readers (behind : List (ι × Nat)) (n : Nat) : Nat := behind.countP fun p => n < p.2

/-- The number of those that have not read a message and its count are related by `R`. -/
def Counts (R : Nat → Nat → Prop) (behind : List (ι × Nat)) : List (α × Nat) → Prop
  | [] => True
  | m :: newer => R (readers behind newer.length) m.2 ∧ Counts R behind newer

/-- One reader less for the messages that at least `lo` and fewer than `hi` newer ones follow. -/
def countDown (lo hi : Nat) : List (α × Nat) → List (α × Nat)
  | [] => []
  | m :: newer =>
    (m.1, if lo ≤ newer.length ∧ newer.length < hi then m.2 - 1 else m.2) :: countDown lo hi newer

/-- The message that `n` newer ones follow has been read: it leaves if it is the oldest one and this was
its last reader. -/
def popRead (n : Nat) : List (α × Nat) → List (α × Nat)
  | [] => []
  | m :: newer => if newer.length = n ∧ m.2 = 0 then newer else m :: newer

/-- The oldest messages leave as long as they have no reader. -/
def popAll (slots : List (α × Nat)) : List (α × Nat) := slots.dropWhile fun m => m.2 = 0

/-- What a subscriber leaves that has not read the newest `n` messages. -/
def release (n : Nat) (slots : List (α × Nat)) : List (α × Nat) :=
  if n ≤ slots.length then popAll (countDown 0 n slots) else slots

section

variable {R : Nat → Nat → Prop} {behind behind' : List (ι × Nat)} {slots slots' : List (α × Nat)}
  {p : ι × Nat} {m : α × Nat} {lo hi n : Nat}

theorem readers_pos_iff : 0 < readers behind n ↔ ∃ p ∈ behind, n < p.2 := by
  simp [readers, List.countP_pos_iff]

/-- Who has not read a message has not read the newer ones either. -/
theorem readers_antitone {n' : Nat} (h : n ≤ n') : readers behind n' ≤ readers behind n :=
  List.countP_mono_left fun _ _ hp => decide_eq_true (Nat.lt_of_le_of_lt h (of_decide_eq_true hp))

theorem readers_cons : readers (p :: behind) n = readers behind n + if n < p.2 then 1 else 0 := by
  simp [readers, List.countP_cons]

theorem readers_concat_zero (i : ι) (n : Nat) : readers (behind ++ [(i, 0)]) n = readers behind n := by
  simp [readers]

theorem readers_succ (n : Nat) :
    readers (behind.map fun p => (p.1, p.2 + 1)) (n + 1) = readers behind n := by
  simp [readers, List.countP_map, Function.comp_def]

theorem readers_zero : readers (behind.map fun p => (p.1, p.2 + 1)) 0 = behind.length := by
  simp [readers, List.countP_map, Function.comp_def]

@[simp] theorem length_countDown : (countDown lo hi slots).length = slots.length := by
  induction slots with
  | nil => rfl
  | cons m newer ih => simp [countDown, ih]

@[simp] theorem map_fst_countDown : (countDown lo hi slots).map Prod.fst = slots.map Prod.fst := by
  induction slots with
  | nil => rfl
  | cons m newer ih => simp [countDown, ih]

theorem popRead_suffix : popRead n slots <:+ slots := by
  cases slots with
  | nil => exact List.suffix_refl []
  | cons m newer =>
    rw [popRead]
    split
    · exact List.suffix_cons m newer
    · exact List.suffix_refl (m :: newer)

theorem length_popRead_le : (popRead n (countDown lo hi slots)).length ≤ slots.length :=
  popRead_suffix.length_le.trans length_countDown.le

theorem popAll_suffix : popAll slots <:+ slots := List.dropWhile_suffix _

theorem Counts.suffix (h : Counts R behind slots) (hs : slots' <:+ slots) : Counts R behind slots' := by
  induction slots with
  | nil => rwa [List.suffix_nil.mp hs]
  | cons m newer ih =>
    rcases List.suffix_cons_iff.mp hs with rfl | hs
    · exact h
    · exact ih h.2 hs

theorem Counts.imp (h : Counts R behind slots)
    (hR : ∀ n < slots.length, ∀ k, R (readers behind n) k → R (readers behind' n) k) :
    Counts R behind' slots := by
  induction slots with
  | nil => trivial
  | cons m newer ih =>
    exact ⟨hR _ (Nat.lt_succ_self _) _ h.1, ih h.2 fun n hn => hR n (Nat.lt_succ_of_lt hn)⟩

theorem counts_countDown (h : Counts R behind slots)
    (hR : ∀ n < slots.length, ∀ k, R (readers behind n) k →
      R (readers behind' n) (if lo ≤ n ∧ n < hi then k - 1 else k)) :
    Counts R behind' (countDown lo hi slots) := by
  induction slots with
  | nil => trivial
  | cons m newer ih =>
    refine ⟨?_, ih h.2 fun n hn => hR n (Nat.lt_succ_of_lt hn)⟩
    rw [length_countDown]
    exact hR _ (Nat.lt_succ_self _) _ h.1

/-- All subscribers are readers of a new message. -/
theorem Counts.concat (h : Counts R behind slots) (hR : ∀ n, R n n) (a : α) :
    Counts R (behind.map fun p => (p.1, p.2 + 1)) (slots ++ [(a, behind.length)]) := by
  induction slots with
  | nil =>
    refine ⟨?_, trivial⟩
    rw [List.length_nil, readers_zero]
    exact hR _
  | cons m newer ih =>
    refine ⟨?_, ih h.2⟩
    have hlen : (newer ++ [(a, behind.length)]).length = newer.length + 1 := List.length_append
    rw [List.append_eq, hlen, readers_succ]
    exact h.1

/-- Nobody has still to read a message whose count is zero. -/
theorem Counts.le_length (h : Counts (· ≤ ·) behind (m :: slots)) (hm : m.2 = 0) (hp : p ∈ behind) :
    p.2 ≤ slots.length := by
  have hnone : ¬0 < readers behind slots.length := by
    have := h.1
    omega
  exact Nat.le_of_not_lt fun hlt => hnone (readers_pos_iff.mpr ⟨p, hp, hlt⟩)

/-- What leaves the queue has been read. -/
theorem Counts.min_le_popRead (h : Counts (· ≤ ·) behind slots) (hp : p ∈ behind) :
    min p.2 slots.length ≤ (popRead n slots).length := by
  cases slots with
  | nil => exact Nat.min_le_right ..
  | cons m newer =>
    rw [popRead]
    split
    · rename_i hm
      exact Nat.le_trans (Nat.min_le_left ..) (h.le_length hm.2 hp)
    · exact Nat.min_le_right ..

theorem Counts.min_le_popAll (h : Counts (· ≤ ·) behind slots) (hp : p ∈ behind) :
    min p.2 slots.length ≤ (popAll slots).length := by
  induction slots with
  | nil => exact Nat.min_le_right ..
  | cons m newer ih =>
    unfold popAll
    rw [List.dropWhile_cons]
    split
    · rename_i hm
      have hle := h.le_length (of_decide_eq_true hm) hp
      have hrest := ih h.2
      rw [Nat.min_eq_left hle] at hrest
      exact Nat.le_trans (Nat.min_le_left ..) hrest
    · exact Nat.min_le_right ..

/-- After a message has been read the oldest one has a reader: the one that has read up to it, if the
message has left. -/
theorem Counts.head_popRead (h : Counts (· = ·) behind slots)
    (hreader : 0 < n → 0 < readers behind (n - 1))
    (holdest : ∀ m ∈ slots.head?, slots.length ≠ n + 1 → 0 < m.2) :
    ∀ m ∈ (popRead n slots).head?, 0 < m.2 := by
  intro m hm
  cases slots with
  | nil => cases hm
  | cons oldest newer =>
    rw [popRead] at hm
    split at hm
    · rename_i hpop
      cases newer with
      | nil => cases hm
      | cons next newer =>
        cases hm
        have hlen : newer.length + 1 = n := hpop.1
        have hcount : readers behind newer.length = m.2 := h.2.1
        subst hlen
        exact hcount ▸ hreader (Nat.succ_pos _)
    · rename_i hkept
      cases hm
      by_contra hzero
      have hpos := holdest m rfl fun hlen => hkept ⟨Nat.succ.inj hlen, by omega⟩
      exact hzero hpos

/-- The oldest message is not the one that is read. -/
theorem head_countDown (hlen : slots.length ≠ n + 1) (hm : m ∈ (countDown n (n + 1) slots).head?) :
    m ∈ slots.head? := by
  cases slots with
  | nil => cases hm
  | cons oldest newer =>
    have hother : ¬(n ≤ newer.length ∧ newer.length < n + 1) := by
      rw [List.length_cons] at hlen
      omega
    rw [countDown, if_neg hother] at hm
    exact hm

/-- Messages that have been read may leave. -/
theorem drop_of_suffix {l l' : List α} (hs : l' <:+ l) (hn : min n l.length ≤ l'.length) :
    l'.drop (l'.length - n) = l.drop (l.length - n) := by
  obtain ⟨t, rfl⟩ := hs
  rw [List.length_append] at *
  by_cases hle : n ≤ l'.length
  · rw [Nat.add_sub_assoc hle, ← List.drop_drop, List.drop_left]
  · obtain rfl : t = [] := List.length_eq_zero_iff.mp (by omega)
    simp

end

/-! ## Subscribers -/

section

variable [DecidableEq ι] {behind : List (ι × Nat)} {i j : ι} {p : ι × Nat} {n : Nat}

def others (behind : List (ι × Nat)) (i : ι) : List (ι × Nat) := behind.filter fun p => p.1 ≠ i

theorem find_eq_some_iff (hnodup : (behind.map Prod.fst).Nodup) :
    (behind.find? fun q => q.1 = i) = some p ↔ p ∈ behind ∧ p.1 = i := by
  refine ⟨fun h => ⟨List.mem_of_find?_eq_some h, by simpa using List.find?_some h⟩, fun h => ?_⟩
  obtain ⟨hp, rfl⟩ := h
  have hsome : (behind.find? fun q => q.1 = p.1).isSome := by
    simpa using ⟨p.2, hp⟩
  obtain ⟨q, hq⟩ := Option.isSome_iff_exists.mp hsome
  have hkey : q.1 = p.1 := by simpa using List.find?_some hq
  rw [hq, List.inj_on_of_nodup_map hnodup (List.mem_of_find?_eq_some hq) hp hkey]

theorem perm_others (hnodup : (behind.map Prod.fst).Nodup) (hp : p ∈ behind) :
    behind.Perm (p :: others behind p.1) := by
  have herase : behind.erase p = others behind p.1 := by
    rw [(List.Nodup.of_map _ hnodup).erase_eq_filter]
    refine List.filter_congr fun q hq => ?_
    have hiff : q = p ↔ q.1 = p.1 := ⟨congrArg Prod.fst, List.inj_on_of_nodup_map hnodup hq hp⟩
    rw [Bool.eq_iff_iff]
    simp [hiff]
  exact herase ▸ List.perm_cons_erase hp

theorem readers_others (hnodup : (behind.map Prod.fst).Nodup) (hp : p ∈ behind) (n : Nat) :
    readers behind n = readers (others behind p.1) n + if n < p.2 then 1 else 0 := by
  rw [← readers_cons]
  exact (perm_others hnodup hp).countP_eq _

theorem nodup_others (hnodup : (behind.map Prod.fst).Nodup) (i : ι) :
    ((others behind i).map Prod.fst).Nodup := hnodup.sublist (List.filter_sublist.map _)

theorem length_others (hnodup : (behind.map Prod.fst).Nodup) (hp : p ∈ behind) :
    (others behind p.1).length + 1 = behind.length := (perm_others hnodup hp).length_eq.symm

theorem notMem_others (i : ι) : i ∉ (others behind i).map Prod.fst := by simp [others]

omit [DecidableEq ι] in
theorem length_release_le {slots : List (α × Nat)} : (release n slots).length ≤ slots.length := by
  unfold release
  split
  · exact popAll_suffix.length_le.trans length_countDown.le
  · exact Nat.le_refl _

omit [DecidableEq ι] in
theorem map_fst_release_suffix {slots : List (α × Nat)} :
    (release n slots).map Prod.fst <:+ slots.map Prod.fst := by
  unfold release
  split
  · have hsuffix : popAll (countDown 0 n slots) <:+ countDown 0 n slots := popAll_suffix
    have hqueue := hsuffix.map Prod.fst
    rwa [map_fst_countDown] at hqueue
  · exact List.suffix_refl _

/-- A reader less for what the subscriber has not read, and the subscriber is gone. -/
theorem counts_others {slots : List (α × Nat)} (h : Counts (· ≤ ·) behind slots)
    (hnodup : (behind.map Prod.fst).Nodup) (hp : p ∈ behind) :
    Counts (· ≤ ·) (others behind p.1) (countDown 0 p.2 slots) := by
  refine counts_countDown h fun n _ k hk => ?_
  have := readers_others hnodup hp n
  split at this <;> simp [*] <;> omega

theorem counts_release {slots : List (α × Nat)} (h : Counts (· ≤ ·) behind slots)
    (hnodup : (behind.map Prod.fst).Nodup) (hp : p ∈ behind) :
    Counts (· ≤ ·) (others behind p.1) (release p.2 slots) := by
  unfold release
  split
  · exact (counts_others h hnodup hp).suffix popAll_suffix
  · refine h.imp fun n _ k hk => ?_
    have := readers_others hnodup hp n
    omega

/-- What is released has been read by the others. -/
theorem min_le_release {slots : List (α × Nat)} (h : Counts (· ≤ ·) behind slots)
    (hnodup : (behind.map Prod.fst).Nodup) (hp : p ∈ behind) {q : ι × Nat}
    (hq : q ∈ others behind p.1) : min q.2 slots.length ≤ (release p.2 slots).length := by
  unfold release
  split
  · have hmin := (counts_others h hnodup hp).min_le_popAll hq
    rwa [length_countDown] at hmin
  · exact Nat.min_le_right ..

/-- A reader less for a message that the subscriber had not read, and now it has. -/
theorem counts_read {slots : List (α × Nat)} (h : Counts (· ≤ ·) behind slots)
    (hnodup : (behind.map Prod.fst).Nodup) (hp : ∃ m, (i, m) ∈ behind ∧ n < m) :
    Counts (· ≤ ·) ((i, n) :: others behind i) (countDown n (n + 1) slots) := by
  obtain ⟨m, hmem, hlt⟩ := hp
  refine counts_countDown h fun k _ count hcount => ?_
  have hreaders := readers_others hnodup hmem k
  rw [readers_cons]
  dsimp only at *
  split <;> split at hreaders <;> split <;> omega

end

end PubSubChannel

structure PubSubChannel (ι α : Type) (CAP SUBS : Nat) where
  slots : List (α × Nat)
  behind : List (ι × Nat)
  length_le : slots.length ≤ CAP
  subscribers_le : behind.length ≤ SUBS
  nodup : (behind.map Prod.fst).Nodup
  /-- A message is counted for all that have not read it. -/
  counts : PubSubChannel.Counts (· ≤ ·) behind slots

namespace PubSubChannel

variable {ι α : Type} {CAP SUBS : Nat}

theorem eq_iff {c c' : PubSubChannel ι α CAP SUBS} :
    c = c' ↔ c.slots = c'.slots ∧ c.behind = c'.behind := by
  cases c
  cases c'
  simp

instance [DecidableEq ι] [DecidableEq α] : DecidableEq (PubSubChannel ι α CAP SUBS) :=
  fun _ _ => decidable_of_iff _ eq_iff.symm

/-! ## Operations -/

def new : PubSubChannel ι α CAP SUBS where
  slots := []
  behind := []
  length_le := Nat.zero_le _
  subscribers_le := Nat.zero_le _
  nodup := List.nodup_nil
  counts := trivial

variable (c : PubSubChannel ι α CAP SUBS)

/-- The messages, the oldest first. -/
def queue : List α := c.slots.map Prod.fst

def isFull : Bool := c.queue.length == CAP

/-- The messages that a subscriber has not read, the oldest first. -/
def unread [DecidableEq ι] (i : ι) : Option (List α) :=
  (c.behind.find? fun p => p.1 = i).map fun p => c.queue.drop (c.queue.length - p.2)

/-- A message that the subscriber has not read has been dropped. -/
def hasLagged [DecidableEq ι] (i : ι) : Bool :=
  (c.behind.find? fun p => p.1 = i).any fun p => c.queue.length < p.2

/-- The subscribers that have not read the oldest message. -/
def keepers : List ι := (c.behind.filter fun p => c.queue.length ≤ p.2).map Prod.fst

/-- A new subscriber gets the messages from now on. -/
def subscribe [DecidableEq ι] (i : ι) : Option (PubSubChannel ι α CAP SUBS) :=
  if h : c.behind.length < SUBS ∧ i ∉ c.behind.map Prod.fst then
    some
      { c with
        behind := c.behind ++ [(i, 0)]
        subscribers_le := by simpa [Nat.succ_le_iff] using h.1
        nodup := by simpa using c.nodup.concat h.2
        counts := c.counts.imp fun n _ _ hk => (readers_concat_zero i n).symm ▸ hk }
  else none

/-- `none` when the queue is full. A message that nobody waits for is forgotten. -/
def publish (a : α) : Option (PubSubChannel ι α CAP SUBS) :=
  if c.behind = [] then some c
  else if h : c.queue.length < CAP then
    some
      { slots := c.slots ++ [(a, c.behind.length)]
        behind := c.behind.map fun p => (p.1, p.2 + 1)
        length_le := by simpa [Nat.succ_le_iff, queue] using h
        subscribers_le := by simpa using c.subscribers_le
        nodup := by simpa [Function.comp_def] using c.nodup
        counts := c.counts.concat Nat.le_refl a }
  else none

def dropOldest : PubSubChannel ι α CAP SUBS :=
  { c with
    slots := c.slots.tail
    length_le := by
      rw [List.length_tail]
      exact Nat.le_trans (Nat.sub_le ..) c.length_le
    counts := c.counts.suffix (List.tail_suffix _) }

def publishImmediate (a : α) : PubSubChannel ι α CAP SUBS :=
  ((if c.isFull then c.dropOldest else c).publish a).getD c

variable {c} [DecidableEq ι] {i j : ι} {a : α} {u : List α}

theorem exists_of_unread (h : c.unread i = some u) :
    ∃ n, (i, n) ∈ c.behind ∧ u = c.queue.drop (c.queue.length - n) := by
  obtain ⟨p, hp, rfl⟩ := Option.map_eq_some_iff.mp h
  obtain ⟨hmem, rfl⟩ := (find_eq_some_iff c.nodup).mp hp
  exact ⟨p.2, hmem, rfl⟩

theorem unread_of_mem {n : Nat} (h : (i, n) ∈ c.behind) :
    c.unread i = some (c.queue.drop (c.queue.length - n)) := by
  rw [unread, (find_eq_some_iff c.nodup).mpr ⟨h, rfl⟩]
  rfl

variable (c)

def unsubscribe (i : ι) : PubSubChannel ι α CAP SUBS :=
  match h : c.behind.find? fun p => p.1 = i with
  | none => c
  | some p =>
    { slots := release p.2 c.slots
      behind := others c.behind i
      length_le := Nat.le_trans length_release_le c.length_le
      subscribers_le := Nat.le_trans (List.length_filter_le ..) c.subscribers_le
      nodup := nodup_others c.nodup i
      counts := by
        obtain ⟨hp, rfl⟩ := (find_eq_some_iff c.nodup).mp h
        exact counts_release c.counts c.nodup hp }

/-- A subscriber that has not read the message that `n` newer ones follow reads it. -/
def read (i : ι) (n : Nat) (h : ∃ m, (i, m) ∈ c.behind ∧ n < m) : PubSubChannel ι α CAP SUBS where
  slots := popRead n (countDown n (n + 1) c.slots)
  behind := (i, n) :: others c.behind i
  length_le := Nat.le_trans length_popRead_le c.length_le
  subscribers_le := by
    obtain ⟨m, hmem, -⟩ := h
    exact (length_others c.nodup hmem).trans_le c.subscribers_le
  nodup := List.nodup_cons.mpr ⟨notMem_others i, nodup_others c.nodup i⟩
  counts := (counts_read c.counts c.nodup h).suffix popRead_suffix

variable {c}

theorem exists_of_unread_cons {rest : List α} (h : c.unread i = some (a :: rest)) :
    ∃ m, (i, m) ∈ c.behind ∧ rest.length < m := by
  obtain ⟨m, hmem, hu⟩ := exists_of_unread h
  refine ⟨m, hmem, ?_⟩
  have hlen := congrArg List.length hu
  rw [List.length_cons, List.length_drop] at hlen
  omega

variable (c)

/-- The next message of a subscriber; `none` when it has to wait for one. -/
def nextMessage (i : ι) : Option (α × PubSubChannel ι α CAP SUBS) :=
  match h : c.unread i with
  | some (a :: rest) => some (a, c.read i rest.length (exists_of_unread_cons h))
  | _ => none

/-! ## What a subscriber has still to read -/

variable {c} {c' : PubSubChannel ι α CAP SUBS}

omit [DecidableEq ι] in
@[simp] theorem length_queue : c.queue.length = c.slots.length := List.length_map ..

theorem unread_suffix (h : c.unread i = some u) : u <:+ c.queue := by
  obtain ⟨n, -, rfl⟩ := exists_of_unread h
  exact List.drop_suffix ..

theorem unread_length_le (h : c.unread i = some u) : u.length ≤ CAP :=
  Nat.le_trans (unread_suffix h).length_le (length_queue.trans_le c.length_le)

/-- A subscriber with as many messages to read as there can be has read none of a full queue. -/
theorem unread_eq_queue (h : c.unread i = some u) (hlen : u.length = CAP) :
    c.isFull = true ∧ u = c.queue := by
  have hsuffix := unread_suffix h
  have hle := hsuffix.length_le
  have hcap := length_queue.trans_le c.length_le
  have hqueue : c.queue.length = CAP := by omega
  exact ⟨by simpa [isFull] using hqueue, hsuffix.eq_of_length (hlen.trans hqueue.symm)⟩

theorem unread_eq_none_iff : c.unread i = none ↔ i ∉ c.behind.map Prod.fst := by
  simp only [unread, Option.map_eq_none_iff, List.find?_eq_none, decide_eq_true_eq, List.mem_map,
    not_exists, not_and]

theorem mem_keepers_iff : i ∈ c.keepers ↔ c.unread i = some c.queue := by
  simp only [keepers, List.mem_map, List.mem_filter, decide_eq_true_eq]
  constructor
  · rintro ⟨p, ⟨hp, hlen⟩, rfl⟩
    rw [unread_of_mem hp, Nat.sub_eq_zero_of_le hlen, List.drop_zero]
  · intro h
    obtain ⟨n, hmem, hdrop⟩ := exists_of_unread h
    have hlen := congrArg List.length hdrop
    rw [List.length_drop] at hlen
    by_cases hempty : c.queue.length = 0
    · exact ⟨(i, n), ⟨hmem, hempty.trans_le (Nat.zero_le _)⟩, rfl⟩
    · exact ⟨(i, n), ⟨hmem, by dsimp only; omega⟩, rfl⟩

/-- A subscriber that goes on has the same messages to read when those that leave have been read. -/
theorem unread_of_suffix {n : Nat} (hqueue : c'.queue <:+ c.queue) (hmem : (j, n) ∈ c.behind)
    (hmem' : (j, n) ∈ c'.behind) (hmin : min n c.queue.length ≤ c'.queue.length) :
    c'.unread j = c.unread j := by
  rw [unread_of_mem hmem, unread_of_mem hmem', drop_of_suffix hqueue hmin]

@[simp] theorem unread_new : (new : PubSubChannel ι α CAP SUBS).unread i = none := rfl

theorem unread_of_subscribe (h : c.subscribe i = some c') : c.unread i = none := by
  unfold subscribe at h
  split at h
  · rename_i hnew
    exact unread_eq_none_iff.mpr hnew.2
  · cases h

theorem unread_subscribe (h : c.subscribe i = some c') (j : ι) :
    c'.unread j = if j = i then some [] else c.unread j := by
  have hnone : (c.behind.find? fun p => p.1 = i) = none :=
    Option.map_eq_none_iff.mp (unread_of_subscribe h)
  unfold subscribe at h
  split at h
  · cases h
    simp only [unread, List.find?_append]
    by_cases hj : j = i
    · subst hj
      simp [hnone, queue]
    · simp [hj, Ne.symm hj, queue]
  · cases h

theorem unread_publish (h : c.publish a = some c') :
    c'.unread j = (c.unread j).map (· ++ [a]) := by
  unfold publish at h
  split at h
  · rename_i hnone
    cases h
    simp [unread, hnone]
  · split at h
    · cases h
      simp only [unread, List.find?_map, Option.map_map, queue, List.map_append, List.map_cons,
        List.map_nil]
      refine Option.map_congr fun p hp => ?_
      simp only [Function.comp_apply, List.length_append, List.length_singleton]
      rw [Nat.add_sub_add_right, List.drop_append_of_le_length (Nat.sub_le ..)]
    · cases h

omit [DecidableEq ι] in
/-- It does not wait while there is room. -/
theorem exists_publish (h : c.isFull = false) (a : α) : ∃ c', c.publish a = some c' := by
  have hlen : c.queue.length < CAP := by
    have := length_queue.trans_le c.length_le
    have hne : c.queue.length ≠ CAP := by simpa [isFull] using h
    omega
  unfold publish
  split
  · exact ⟨_, rfl⟩
  · exact ⟨_, rfl⟩

/-- It waits when the queue is full and there is a subscriber. -/
theorem publish_eq_none (h : c.isFull = true) (hsubscriber : c.unread i = some u) (a : α) :
    c.publish a = none := by
  have hlen : c.queue.length = CAP := by simpa [isFull] using h
  obtain ⟨n, hmem, -⟩ := exists_of_unread hsubscriber
  rw [publish, if_neg (List.ne_nil_of_mem hmem), dif_neg (by omega)]

omit [DecidableEq ι] in
theorem queue_dropOldest : c.dropOldest.queue = c.queue.tail := List.map_tail

theorem unread_dropOldest :
    c.dropOldest.unread j =
      (c.unread j).map fun u => if u.length = c.queue.length then u.tail else u := by
  rw [unread, unread, queue_dropOldest, Option.map_map]
  refine Option.map_congr fun p _ => ?_
  simp only [List.length_drop, Function.comp_apply, ← List.drop_one, List.drop_drop]
  split
  · rename_i hlen
    congr 1
    omega
  · rename_i hlen
    congr 1
    omega

/-- The subscribers that have not read any of a full queue lose its oldest message. -/
theorem unread_publishImmediate (hcap : 0 < CAP) (a : α) :
    (c.publishImmediate a).unread j =
      (c.unread j).map fun u => (if u.length = CAP then u.tail else u) ++ [a] := by
  cases hfull : c.isFull with
  | false =>
    obtain ⟨c', hc'⟩ := exists_publish hfull a
    have hne : c.queue.length ≠ CAP := by simpa [isFull] using hfull
    simp only [publishImmediate, hfull, Bool.false_eq_true, if_false, hc', Option.getD_some,
      unread_publish hc']
    refine Option.map_congr fun u hu => ?_
    have hsuffix := (unread_suffix hu).length_le
    have := length_queue.trans_le c.length_le
    rw [if_neg (by omega)]
  | true =>
    have hlen : c.queue.length = CAP := by simpa [isFull] using hfull
    have hroom : c.dropOldest.isFull = false := by
      have : c.slots.length - 1 ≠ CAP := by
        rw [length_queue] at hlen
        omega
      simpa [isFull, dropOldest] using this
    obtain ⟨c', hc'⟩ := exists_publish hroom a
    simp only [publishImmediate, hfull, if_true, hc', Option.getD_some, unread_publish hc',
      unread_dropOldest, Option.map_map, hlen]
    rfl

theorem behind_unsubscribe (i : ι) : (c.unsubscribe i).behind = others c.behind i := by
  unfold unsubscribe
  split
  · rename_i hnone
    refine (List.filter_eq_self.mpr fun p hp => ?_).symm
    simpa using List.find?_eq_none.mp hnone p hp
  · rfl

theorem queue_unsubscribe (i : ι) : (c.unsubscribe i).queue <:+ c.queue ∧
    ∀ p ∈ others c.behind i, min p.2 c.queue.length ≤ (c.unsubscribe i).queue.length := by
  unfold unsubscribe
  split
  · exact ⟨List.suffix_refl _, fun p _ => Nat.min_le_right ..⟩
  · rename_i p hp
    obtain ⟨hmem, rfl⟩ := (find_eq_some_iff c.nodup).mp hp
    refine ⟨map_fst_release_suffix, fun q hq => ?_⟩
    rw [length_queue, length_queue]
    exact min_le_release c.counts c.nodup hmem hq

theorem unread_unsubscribe (i j : ι) :
    (c.unsubscribe i).unread j = if j = i then none else c.unread j := by
  have hbehind := behind_unsubscribe (c := c) i
  obtain ⟨hqueue, hmin⟩ := queue_unsubscribe (c := c) i
  split
  · rename_i hj
    rw [unread_eq_none_iff, hbehind, hj]
    exact notMem_others i
  · rename_i hj
    cases hu : c.unread j with
    | none =>
      rw [unread_eq_none_iff] at hu ⊢
      rw [hbehind]
      exact fun hmem => hu ((List.filter_sublist.map Prod.fst).mem hmem)
    | some u =>
      obtain ⟨n, hmem, -⟩ := exists_of_unread hu
      have hother : (j, n) ∈ others c.behind i := List.mem_filter.mpr ⟨hmem, by simpa using hj⟩
      rw [← hu]
      exact unread_of_suffix hqueue hmem (hbehind ▸ hother) (hmin _ hother)

theorem nextMessage_eq_some_iff : c.nextMessage i = some (a, c') ↔
    ∃ rest, ∃ h : c.unread i = some (a :: rest),
      c' = c.read i rest.length (exists_of_unread_cons h) := by
  unfold nextMessage
  split
  · rename_i b rest h
    simp only [Option.some.injEq, Prod.mk.injEq]
    constructor
    · rintro ⟨rfl, rfl⟩
      exact ⟨rest, h, rfl⟩
    · rintro ⟨rest', h', rfl⟩
      cases h.symm.trans h'
      exact ⟨rfl, rfl⟩
  · rename_i hne
    simp only [reduceCtorEq, false_iff, not_exists]
    exact fun rest h => absurd h (hne a rest)

theorem exists_nextMessage {rest : List α} (h : c.unread i = some (a :: rest)) :
    ∃ c', c.nextMessage i = some (a, c') :=
  ⟨_, nextMessage_eq_some_iff.mpr ⟨rest, h, rfl⟩⟩

theorem queue_read {n : Nat} (h : ∃ m, (i, m) ∈ c.behind ∧ n < m) :
    (c.read i n h).queue <:+ c.queue ∧
      ∀ p ∈ (c.read i n h).behind, min p.2 c.queue.length ≤ (c.read i n h).queue.length := by
  have hcounts := counts_read c.counts c.nodup h
  refine ⟨?_, fun p hp => ?_⟩
  · have hsuffix : popRead n (countDown n (n + 1) c.slots) <:+ countDown n (n + 1) c.slots :=
      popRead_suffix
    have hqueue := hsuffix.map Prod.fst
    rwa [map_fst_countDown] at hqueue
  · have hmin := hcounts.min_le_popRead (n := n) hp
    rw [length_countDown] at hmin
    rw [length_queue, length_queue]
    exact hmin

theorem unread_nextMessage (h : c.nextMessage i = some (a, c')) (j : ι) :
    ∃ rest, c.unread i = some (a :: rest) ∧
      c'.unread j = if j = i then some rest else c.unread j := by
  obtain ⟨rest, hu, rfl⟩ := nextMessage_eq_some_iff.mp h
  have hread := exists_of_unread_cons hu
  obtain ⟨hqueue, hmin⟩ := queue_read hread
  refine ⟨rest, hu, ?_⟩
  split
  · rename_i hj
    subst hj
    have hmem : (j, rest.length) ∈ (c.read j rest.length hread).behind := List.mem_cons_self
    rw [unread_of_mem hmem, drop_of_suffix hqueue (hmin _ hmem)]
    -- what is left is the end of the queue
    obtain ⟨t, ht⟩ := unread_suffix hu
    have hend : c.queue = (t ++ [a]) ++ rest := by rw [← ht, List.append_assoc, List.singleton_append]
    rw [hend, List.length_append, Nat.add_sub_cancel, List.drop_left]
  · rename_i hj
    cases hother : c.unread j with
    | none =>
      rw [unread_eq_none_iff] at hother ⊢
      intro hmem
      rcases List.mem_cons.mp hmem with h | hmem
      · exact hj h
      · exact hother ((List.filter_sublist.map Prod.fst).mem hmem)
    | some u =>
      obtain ⟨n, hmem, -⟩ := exists_of_unread hother
      have hmem' : (j, n) ∈ (c.read i rest.length hread).behind :=
        List.mem_cons_of_mem _ (List.mem_filter.mpr ⟨hmem, by simpa using hj⟩)
      rw [← hother]
      exact unread_of_suffix hqueue hmem hmem' (hmin _ hmem')

/-! ## Channels whose messages all have readers -/

theorem hasLagged_eq_false_iff :
    c.hasLagged i = false ↔ ∀ n, (i, n) ∈ c.behind → n ≤ c.queue.length := by
  unfold hasLagged
  cases hfind : c.behind.find? fun p => p.1 = i with
  | none =>
    refine iff_of_true rfl fun n hmem => ?_
    cases hfind.symm.trans ((find_eq_some_iff c.nodup).mpr ⟨hmem, rfl⟩)
  | some p =>
    have hp := (find_eq_some_iff c.nodup).mp hfind
    rw [Option.any_some, decide_eq_false_iff_not, Nat.not_lt]
    refine ⟨fun hle n hmem => ?_, fun h => h p.2 (hp.2 ▸ hp.1)⟩
    cases hfind.symm.trans ((find_eq_some_iff c.nodup).mpr ⟨hmem, rfl⟩)
    exact hle

theorem hasLagged_subscribe (h : c.subscribe i = some c') : c'.hasLagged i = false := by
  have hnew := unread_eq_none_iff.mp (unread_of_subscribe h)
  unfold subscribe at h
  split at h
  · cases h
    refine hasLagged_eq_false_iff.mpr fun n hmem => ?_
    rcases List.mem_append.mp hmem with hold | hmem
    · exact absurd (List.mem_map_of_mem hold) hnew
    · cases List.mem_singleton.mp hmem
      exact Nat.zero_le _
  · cases h

/-- A subscriber that has just read is in time. -/
theorem hasLagged_nextMessage (h : c.nextMessage i = some (a, c')) : c'.hasLagged i = false := by
  obtain ⟨rest, hu, rfl⟩ := nextMessage_eq_some_iff.mp h
  have hread := exists_of_unread_cons hu
  refine hasLagged_eq_false_iff.mpr fun n hmem => ?_
  rcases List.mem_cons.mp hmem with heq | hother
  · cases heq
    have hmin := (queue_read hread).2 _ hmem
    have hlen := (unread_suffix hu).length_le
    rw [List.length_cons] at hlen
    rwa [Nat.min_eq_left (Nat.le_of_succ_le hlen)] at hmin
  · exact absurd (List.mem_map_of_mem hother) (notMem_others i)

/-- The messages are counted for exactly those that have not read them, and somebody has not read the
oldest one. -/
structure Tight (c : PubSubChannel ι α CAP SUBS) : Prop where
  exact : Counts (· = ·) c.behind c.slots
  oldest : ∀ m ∈ c.slots.head?, 0 < m.2

omit [DecidableEq ι] in
/-- Somebody keeps the oldest message. -/
theorem Tight.exists_mem_keepers (h : c.Tight) (hqueue : c.queue ≠ []) : ∃ i, i ∈ c.keepers := by
  obtain ⟨hexact, holdest⟩ := h
  cases hslots : c.slots with
  | nil => exact absurd (congrArg (List.map Prod.fst) hslots) hqueue
  | cons m newer =>
    rw [hslots] at hexact holdest
    have hpos : 0 < readers c.behind newer.length := hexact.1.symm ▸ holdest m rfl
    obtain ⟨p, hp, hlt⟩ := readers_pos_iff.mp hpos
    refine ⟨p.1, List.mem_map.mpr ⟨p, List.mem_filter.mpr ⟨hp, ?_⟩, rfl⟩⟩
    simp only [length_queue, hslots, List.length_cons, decide_eq_true_eq]
    exact hlt

omit [DecidableEq ι] in
theorem tight_new : (new : PubSubChannel ι α CAP SUBS).Tight := ⟨trivial, by simp [new]⟩

theorem Tight.subscribe (h : c.Tight) (hc : c.subscribe i = some c') : c'.Tight := by
  unfold PubSubChannel.subscribe at hc
  split at hc
  · cases hc
    exact ⟨h.exact.imp fun n _ _ hk => (readers_concat_zero i n).trans hk, h.oldest⟩
  · cases hc

omit [DecidableEq ι] in
theorem Tight.publish (h : c.Tight) (hc : c.publish a = some c') : c'.Tight := by
  unfold PubSubChannel.publish at hc
  split at hc
  · cases hc
    exact h
  · rename_i hsubscribers
    split at hc
    · cases hc
      refine ⟨h.exact.concat (fun _ => rfl) a, fun m hm => ?_⟩
      rw [List.head?_append] at hm
      rcases Option.or_eq_some_iff.mp hm with hm | ⟨-, hm⟩
      · exact h.oldest m hm
      · cases hm
        exact List.length_pos_iff.mpr hsubscribers
    · cases hc

omit [DecidableEq ι] in
theorem Tight.dropOldest (h : c.Tight) : c.dropOldest.Tight := by
  obtain ⟨hexact, holdest⟩ := h
  refine ⟨hexact.suffix (List.tail_suffix _), fun m hm => ?_⟩
  change m ∈ c.slots.tail.head? at hm
  cases hslots : c.slots with
  | nil =>
    rw [hslots] at hm
    cases hm
  | cons oldest slots =>
    rw [hslots] at hexact holdest hm
    cases slots with
    | nil => cases hm
    | cons next newer =>
      cases hm
      -- who has not read the oldest message has not read the next one
      have hpos : 0 < readers c.behind (newer.length + 1) := hexact.1.symm ▸ holdest oldest rfl
      have hle : readers c.behind (newer.length + 1) ≤ readers c.behind newer.length :=
        readers_antitone (Nat.le_succ _)
      have hcount : readers c.behind newer.length = m.2 := hexact.2.1
      omega

omit [DecidableEq ι] in
theorem Tight.publishImmediate (h : c.Tight) (a : α) : (c.publishImmediate a).Tight := by
  unfold PubSubChannel.publishImmediate
  have hroom : (if c.isFull then c.dropOldest else c).Tight := by
    split
    · exact h.dropOldest
    · exact h
  cases hc : (if c.isFull then c.dropOldest else c).publish a with
  | none => exact h
  | some c' => exact hroom.publish hc

theorem Tight.nextMessage (h : c.Tight) (hc : c.nextMessage i = some (a, c')) : c'.Tight := by
  obtain ⟨rest, hu, rfl⟩ := nextMessage_eq_some_iff.mp hc
  obtain ⟨n, hmem, hdrop⟩ := exists_of_unread hu
  have hlen := congrArg List.length hdrop
  rw [List.length_cons, List.length_drop, length_queue] at hlen
  have hexact : Counts (· = ·) ((i, rest.length) :: others c.behind i)
      (countDown rest.length (rest.length + 1) c.slots) := by
    refine counts_countDown h.exact fun k hk count hcount => ?_
    have hreaders := readers_others c.nodup hmem k
    rw [readers_cons]
    dsimp only at *
    split <;> split at hreaders <;> split <;> omega
  refine ⟨hexact.suffix popRead_suffix, hexact.head_popRead (fun hpos => ?_) fun m hm hother => ?_⟩
  · exact readers_pos_iff.mpr ⟨(i, rest.length), List.mem_cons_self, Nat.sub_one_lt_of_lt hpos⟩
  · rw [length_countDown] at hother
    exact h.oldest m (head_countDown hother hm)

theorem Tight.unsubscribe (h : c.Tight) (hlagged : c.hasLagged i = false) :
    (c.unsubscribe i).Tight := by
  unfold PubSubChannel.unsubscribe
  split
  · exact h
  · rename_i p hp
    simp only [hasLagged, hp, Option.any_some, decide_eq_false_iff_not, Nat.not_lt, length_queue]
      at hlagged
    obtain ⟨hmem, rfl⟩ := (find_eq_some_iff c.nodup).mp hp
    have hexact : Counts (· = ·) (others c.behind p.1) (countDown 0 p.2 c.slots) := by
      refine counts_countDown h.exact fun n _ k hk => ?_
      have := readers_others c.nodup hmem n
      split at this <;> simp [*] <;> omega
    refine ⟨?_, fun m hm => ?_⟩
    · simp only [release, hlagged, if_true]
      exact hexact.suffix popAll_suffix
    · simp only [release, hlagged, if_true, popAll] at hm
      have hhead := List.head?_dropWhile_not (fun m => decide (m.2 = 0)) (countDown 0 p.2 c.slots)
      rw [Option.mem_def.mp hm] at hhead
      exact Nat.pos_of_ne_zero (of_decide_eq_false hhead)

end PubSubChannel
