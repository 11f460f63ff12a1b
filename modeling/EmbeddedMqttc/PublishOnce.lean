import EmbeddedMqttc.ConformingBroker
import EmbeddedMqttc.Library.ExactlyOnce

/-!
# Publishes of QoS 2 are taken over once

For each pid the queues of QoS 2, the packets on the connection and the session of the broker are an
exactly-once handshake, whatever is written again and however often the connection is lost. What it
takes is that the broker answers the packets with one pid in the order in which it receives them.
-/

namespace EmbeddedMqttc

open Prog EmbeddedMqttc.Comp Run ExactlyOnce

variable {QUEUE BUFFER TOPIC : Nat}

/-! ## The packets with one pid -/

/-- The packet in the exchange of QoS 2 with pid `p`. -/
def Written.letter? (p : Pid) (w : Written) : Option (Letter (Option UniqueID)) :=
  match w.packet with
  | .publish message => if message.qospid = .exactlyOnce p then some (.message w.request) else none
  | .pubrel pid => if pid = p then some .release else none
  | _ => none

def Packet.answer? (p : Pid) : Packet → Option ExactlyOnce.Answer
  | .pubrec pid => if pid = p then some .received else none
  | .pubcomp pid => if pid = p then some .complete else none
  | _ => none

theorem Written.letter?_eq_none {w : Written} (h : w.packet.asksOf true = none) (p : Pid) :
    w.letter? p = none := by
  obtain ⟨packet, request⟩ := w
  cases packet with
  | publish message =>
    obtain ⟨dup, qospid, retain, topicName, payload⟩ := message
    cases qospid with
    | exactlyOnce pid => cases h
    | _ => simp [letter?]
  | pubrel pid => cases h
  | _ => rfl

theorem Packet.answer?_eq_none {packet : Packet} (h : packet.acksOf true = none) (p : Pid) :
    packet.answer? p = none := by
  cases packet with
  | pubrec | pubcomp => cases h
  | _ => rfl

namespace Packet

variable {pid p : Pid}

theorem answer?_pubrec : (pubrec p).answer? p = some .received := if_pos rfl

theorem answer?_pubrec_of_ne (h : pid ≠ p) : (pubrec pid).answer? p = none := if_neg h

theorem answer?_pubcomp : (pubcomp p).answer? p = some .complete := if_pos rfl

theorem answer?_pubcomp_of_ne (h : pid ≠ p) : (pubcomp pid).answer? p = none := if_neg h

end Packet

/-! ## The phases of the exchanges -/

def AwaitPubrec.phase? (p : Pid) (e : AwaitPubrec BUFFER TOPIC) :
    Option (ExactlyOnce.Phase (Option UniqueID)) :=
  if e.pid = p then some (.published (some e.publish.uniqueId)) else none

def SendPubrel.phase? (p : Pid) (e : SendPubrel) : Option (ExactlyOnce.Phase (Option UniqueID)) :=
  if e.ownPid = some p then some (.received e.uniqueId) else none

def AwaitPubcomp.phase? (p : Pid) (e : AwaitPubcomp) : Option (ExactlyOnce.Phase (Option UniqueID)) :=
  if e.pid = p then some (.released (some e.uniqueId)) else none

/-- The entries `l` with one pid are those of an exchange in this phase. -/
def InPhase (l : List (ExactlyOnce.Phase (Option UniqueID))) : ExactlyOnce.Phase (Option UniqueID) → Prop
  | .idle | .lost => l = []
  | .published r => l = [.published r]
  | .received r => l = [.received r]
  | .released r => l = [.released r]

theorem InPhase.perm {l l' : List (ExactlyOnce.Phase (Option UniqueID))}
    {phase : ExactlyOnce.Phase (Option UniqueID)}
    (h : InPhase l phase) (hp : l.Perm l') : InPhase l' phase := by
  cases phase with
  | idle | lost =>
    cases h
    exact hp.symm.eq_nil
  | published | received | released =>
    cases h
    exact (List.perm_singleton.mp hp.symm)

theorem InPhase.eq_of_singleton {phase phase' : ExactlyOnce.Phase (Option UniqueID)}
    (h : InPhase [phase'] phase) : phase = phase' := by
  cases phase with
  | idle | lost => cases h
  | published | received | released =>
    cases h
    rfl

namespace PublishesInner

/-- The entries with pid `p` in the queues of QoS 2. -/
def phases (q : PublishesInner QUEUE BUFFER TOPIC) (p : Pid) :
    List (ExactlyOnce.Phase (Option UniqueID)) :=
  q.awaitPubrec.toList.filterMap (·.phase? p) ++
    (q.sendPubrel.toList.filterMap (·.phase? p) ++ q.awaitPubcomp.toList.filterMap (·.phase? p))

theorem length_phases_le (q : PublishesInner QUEUE BUFFER TOPIC) (p : Pid) :
    q.sendPublish.countKey (·.qospid.pid) (some p) + (q.phases p).length ≤ q.uses p := by
  have hpubrec : (q.awaitPubrec.toList.filterMap (·.phase? p)).length =
      q.awaitPubrec.countKey (·.pid) p := BoundedVec.length_filterMap_ite _
  have hpubrel : (q.sendPubrel.toList.filterMap (·.phase? p)).length =
      q.sendPubrel.countKey (·.ownPid) (some p) := BoundedVec.length_filterMap_ite _
  have hpubcomp : (q.awaitPubcomp.toList.filterMap (·.phase? p)).length =
      q.awaitPubcomp.countKey (·.pid) p := BoundedVec.length_filterMap_ite _
  simp only [phases, List.length_append, uses]
  omega

/-- The entries with pid `p0` change from `before` to `after`, and those with other pids do not. -/
def Turns (q q' : PublishesInner QUEUE BUFFER TOPIC) (p0 : Pid)
    (before after : List (ExactlyOnce.Phase (Option UniqueID))) : Prop :=
  ∀ p, ∃ rest, (q.phases p).Perm ((if p0 = p then before else []) ++ rest) ∧
    (q'.phases p).Perm ((if p0 = p then after else []) ++ rest)

section

variable {q : PublishesInner QUEUE BUFFER TOPIC} {i : Nat}

theorem toList_phase?_pubrec (e : AwaitPubrec BUFFER TOPIC) (p : Pid) :
    (e.phase? p).toList = if e.pid = p then [.published (some e.publish.uniqueId)] else [] := by
  unfold AwaitPubrec.phase?
  split <;> rfl

theorem toList_phase?_pubcomp (e : AwaitPubcomp) (p : Pid) :
    (e.phase? p).toList = if e.pid = p then [.released (some e.uniqueId)] else [] := by
  unfold AwaitPubcomp.phase?
  split <;> rfl

theorem toList_phase?_pubrel (pid p : Pid) (u : UniqueID) :
    (SendPubrel.phase? p ⟨pid, some u⟩).toList = if pid = p then [.received (some u)] else [] := by
  unfold SendPubrel.phase?
  simp only [SendPubrel.ownPid, Option.map_some, Option.some.injEq]
  split <;> rfl

theorem turns_published {e : AwaitPubrec BUFFER TOPIC}
    {queue : BoundedVec (AwaitPubrec BUFFER TOPIC) QUEUE} (hpush : q.awaitPubrec.push e = some queue) :
    q.Turns { q with awaitPubrec := queue } e.pid [] [.published (some e.publish.uniqueId)] := by
  intro p
  have hqueue := BoundedVec.perm_filterMap_push hpush (·.phase? p)
  rw [toList_phase?_pubrec] at hqueue
  refine ⟨q.phases p, by simp, ?_⟩
  simp only [phases, ← List.append_assoc]
  exact (hqueue.append_right _).append_right _

theorem turns_received {e : AwaitPubrec BUFFER TOPIC} {queue : BoundedVec SendPubrel QUEUE}
    (hi : q.awaitPubrec.get? i = some e)
    (hpush : q.sendPubrel.push ⟨e.pid, some e.publish.uniqueId⟩ = some queue) :
    q.Turns { q with awaitPubrec := q.awaitPubrec.removeAt i, sendPubrel := queue } e.pid
      [.published (some e.publish.uniqueId)] [.received (some e.publish.uniqueId)] := by
  intro p
  have hfirst := BoundedVec.perm_filterMap_removeAt hi (·.phase? p)
  have hqueue := BoundedVec.perm_filterMap_push hpush (·.phase? p)
  rw [toList_phase?_pubrec] at hfirst
  rw [toList_phase?_pubrel] at hqueue
  refine ⟨(q.awaitPubrec.removeAt i).toList.filterMap (·.phase? p) ++
    (q.sendPubrel.toList.filterMap (·.phase? p) ++
      q.awaitPubcomp.toList.filterMap (·.phase? p)), ?_, ?_⟩
  · refine List.perm_iff_count.mpr fun x => ?_
    have := hfirst.count_eq x
    simp only [phases, List.count_append] at *
    omega
  · refine List.perm_iff_count.mpr fun x => ?_
    have := hqueue.count_eq x
    simp only [phases, List.count_append] at *
    omega

/-- The entry of a PUBREC that finds `send_pubrel` full. -/
theorem turns_lost {e : AwaitPubrec BUFFER TOPIC} (hi : q.awaitPubrec.get? i = some e) :
    q.Turns { q with awaitPubrec := q.awaitPubrec.removeAt i } e.pid
      [.published (some e.publish.uniqueId)] [] := by
  intro p
  have hfirst := BoundedVec.perm_filterMap_removeAt hi (·.phase? p)
  rw [toList_phase?_pubrec] at hfirst
  refine ⟨_, ?_, by rw [ite_self, List.nil_append]⟩
  simp only [phases, ← List.append_assoc]
  exact (hfirst.append_right _).append_right _

theorem turns_released {pid : Pid} {u : UniqueID} {e : AwaitPubcomp}
    {queue : BoundedVec AwaitPubcomp QUEUE} (hi : q.sendPubrel.get? i = some ⟨pid, some u⟩)
    (hpid : e.pid = pid) (hu : e.uniqueId = u) (hpush : q.awaitPubcomp.push e = some queue) :
    q.Turns { q with sendPubrel := q.sendPubrel.removeAt i, awaitPubcomp := queue } pid
      [.received (some u)] [.released (some u)] := by
  subst hpid hu
  intro p
  have hfirst := BoundedVec.perm_filterMap_removeAt hi (·.phase? p)
  have hqueue := BoundedVec.perm_filterMap_push hpush (·.phase? p)
  rw [toList_phase?_pubrel] at hfirst
  rw [toList_phase?_pubcomp] at hqueue
  refine ⟨q.awaitPubrec.toList.filterMap (·.phase? p) ++
    ((q.sendPubrel.removeAt i).toList.filterMap (·.phase? p) ++
      q.awaitPubcomp.toList.filterMap (·.phase? p)), ?_, ?_⟩
  · refine List.perm_iff_count.mpr fun x => ?_
    have := hfirst.count_eq x
    simp only [phases, List.count_append] at *
    omega
  · refine List.perm_iff_count.mpr fun x => ?_
    have := hqueue.count_eq x
    simp only [phases, List.count_append] at *
    omega

theorem turns_complete {e : AwaitPubcomp} (hi : q.awaitPubcomp.get? i = some e) :
    q.Turns { q with awaitPubcomp := q.awaitPubcomp.removeAt i } e.pid
      [.released (some e.uniqueId)] [] := by
  intro p
  have hfirst := BoundedVec.perm_filterMap_removeAt hi (·.phase? p)
  rw [toList_phase?_pubcomp] at hfirst
  refine ⟨_, ?_, by rw [ite_self, List.nil_append]⟩
  refine List.perm_iff_count.mpr fun x => ?_
  have := hfirst.count_eq x
  simp only [phases, List.count_append] at *
  omega

/-- An anonymous entry is in no exchange. -/
theorem perm_phases_anonymous {pid : Pid} {queue : BoundedVec SendPubrel QUEUE}
    (hpush : q.sendPubrel.push ⟨pid, none⟩ = some queue) (p : Pid) :
    (q.phases p).Perm (({ q with sendPubrel := queue } : PublishesInner ..).phases p) := by
  have hqueue : (queue.toList.filterMap (·.phase? p)).Perm (q.sendPubrel.toList.filterMap _) :=
    BoundedVec.perm_filterMap_push hpush (·.phase? p)
  exact ((hqueue.symm.append_right _).append_left _)

/-- Writing a packet again changes only when it was written. -/
theorem phases_publishedAgain (now : Instant) (p : Pid) :
    ({ q with awaitPubrec := q.awaitPubrec.modifyAt i fun e => { e with publishSent := now } } :
      PublishesInner ..).phases p = q.phases p := by
  have hqueue : (q.awaitPubrec.modifyAt i fun e => { e with publishSent := now }).toList.map
      (·.phase? p) = q.awaitPubrec.toList.map (·.phase? p) := BoundedVec.map_modifyAt fun _ => rfl
  have hfilter := congrArg (List.filterMap id) hqueue
  simp only [List.filterMap_map, Function.id_comp] at hfilter
  simp only [phases, hfilter]

theorem phases_releasedAgain (now : Instant) (p : Pid) :
    ({ q with awaitPubcomp := q.awaitPubcomp.modifyAt i fun e => { e with pubrelSent := now } } :
      PublishesInner ..).phases p = q.phases p := by
  have hqueue : (q.awaitPubcomp.modifyAt i fun e => { e with pubrelSent := now }).toList.map
      (·.phase? p) = q.awaitPubcomp.toList.map (·.phase? p) := BoundedVec.map_modifyAt fun _ => rfl
  have hfilter := congrArg (List.filterMap id) hqueue
  simp only [List.filterMap_map, Function.id_comp] at hfilter
  simp only [phases, hfilter]

end

section

variable {q q' : PublishesInner QUEUE BUFFER TOPIC} {p p0 : Pid}
  {before after : List (ExactlyOnce.Phase (Option UniqueID))} {x : ExactlyOnce.Phase (Option UniqueID)}

theorem Turns.perm_of_ne (h : q.Turns q' p0 before after) (hne : p0 ≠ p) :
    (q.phases p).Perm (q'.phases p) := by
  obtain ⟨rest, hbefore, hafter⟩ := h p
  rw [if_neg hne, List.nil_append] at hbefore hafter
  exact hbefore.trans hafter.symm

/-- There is one entry with the pid at most. -/
theorem Turns.of_singleton (h : q.Turns q' p0 [x] after) (hlen : (q.phases p0).length ≤ 1) :
    q.phases p0 = [x] ∧ (q'.phases p0).Perm after := by
  obtain ⟨rest, hbefore, hafter⟩ := h p0
  rw [if_pos rfl] at hbefore hafter
  have hrest : rest = [] := by
    have hlength := hbefore.length_eq
    rw [List.singleton_append, List.length_cons] at hlength
    exact List.length_eq_zero_iff.mp (by omega)
  rw [hrest, List.append_nil] at hbefore hafter
  exact ⟨List.perm_singleton.mp hbefore, hafter⟩

theorem Turns.of_nil (h : q.Turns q' p0 [] after) (hnil : q.phases p0 = []) :
    (q'.phases p0).Perm after := by
  obtain ⟨rest, hbefore, hafter⟩ := h p0
  rw [if_pos rfl] at hbefore hafter
  rw [hnil, List.nil_append] at hbefore
  rwa [hbefore.nil_eq.symm, List.append_nil] at hafter

end

/-! ## Send passes -/

/-- The exchange with pid `p` is an exactly-once handshake. -/
def Lane (taken : Option UniqueID → Nat) (answers : List ExactlyOnce.Answer) (remembered : Bool)
    (leaked : Prop)
    (outgoing : List Written) (q : PublishesInner QUEUE BUFFER TOPIC) (p : Pid) : Prop :=
  ∃ phase, InPhase (q.phases p) phase ∧
    ExactlyOnce.Sound taken phase (outgoing.filterMap (·.letter? p)) answers remembered ∧
    (phase = .lost → leaked)

namespace Lane

variable {taken : Option UniqueID → Nat} {answers : List ExactlyOnce.Answer} {remembered : Bool}
  {leaked : Prop}
  {outgoing outgoing' : List Written} {q q' : PublishesInner QUEUE BUFFER TOPIC} {p p0 : Pid}
  {c c' : Ctx (PublishesInner QUEUE BUFFER TOPIC)} {w : Written}

theorem congr (h : Lane taken answers remembered leaked outgoing q p)
    (hq : (q.phases p).Perm (q'.phases p))
    (hletters : outgoing'.filterMap (·.letter? p) = outgoing.filterMap (·.letter? p)) :
    Lane taken answers remembered leaked outgoing' q' p := by
  obtain ⟨phase, hphase, hsound, hlost⟩ := h
  exact ⟨phase, hphase.perm hq, hletters ▸ hsound, hlost⟩

theorem letters_concat_none (hw : w.letter? p = none) :
    (outgoing ++ [w]).filterMap (·.letter? p) = outgoing.filterMap (·.letter? p) := by
  simp [hw]

theorem letters_concat_some {l : Letter (Option UniqueID)} (hw : w.letter? p = some l) :
    (outgoing ++ [w]).filterMap (·.letter? p) = outgoing.filterMap (·.letter? p) ++ [l] := by
  simp [hw]

theorem answers_concat_none {packets : List Packet} {packet : Packet}
    (hp : packet.answer? p = none) :
    (packets ++ [packet]).filterMap (·.answer? p) = packets.filterMap (·.answer? p) := by
  simp [hp]

theorem answers_concat_some {packets : List Packet} {packet : Packet} {a : ExactlyOnce.Answer}
    (hp : packet.answer? p = some a) :
    (packets ++ [packet]).filterMap (·.answer? p) = packets.filterMap (·.answer? p) ++ [a] := by
  simp [hp]

theorem letter?_borrow (current : OwnedPublish BUFFER TOPIC) (u : UniqueID) (p : Pid) :
    Written.letter? p ⟨current.borrow, some u⟩ =
      if current.qospid = .exactlyOnce p then some (.message (some u)) else none := rfl

/-- The entry with the pid is known. -/
theorem of_phases {phase : ExactlyOnce.Phase (Option UniqueID)}
    (h : Lane taken answers remembered leaked outgoing q p) (hq : q.phases p = [phase]) :
    ExactlyOnce.Sound taken phase (outgoing.filterMap (·.letter? p)) answers remembered := by
  obtain ⟨phase', hphase, hsound, -⟩ := h
  rw [hq] at hphase
  rwa [hphase.eq_of_singleton] at hsound

theorem mono {leaked' : Prop} (h : Lane taken answers remembered leaked outgoing q p)
    (hleaked : leaked → leaked') : Lane taken answers remembered leaked' outgoing q p := by
  obtain ⟨phase, hphase, hsound, hlost⟩ := h
  exact ⟨phase, hphase, hsound, fun heq => hleaked (hlost heq)⟩

/-- A packet of another exchange arrives. -/
theorem skip (h : Lane taken answers remembered leaked (w :: outgoing) q p)
    (hw : w.letter? p = none) : Lane taken answers remembered leaked outgoing q p :=
  h.congr .rfl (List.filterMap_cons_none hw).symm

/-- A message of another exchange is taken over. -/
theorem congr_taken {taken' : Option UniqueID → Nat}
    (h : Lane taken answers remembered leaked outgoing q p)
    (hpublished : ∀ r, q.phases p = [.published r] → taken' r = taken r)
    (htaken : ∀ r, taken r = 1 → taken' r = 1) :
    Lane taken' answers remembered leaked outgoing q p := by
  obtain ⟨phase, hphase, hsound, hlost⟩ := h
  refine ⟨phase, hphase, hsound.congr (fun r heq => hpublished r ?_) htaken, hlost⟩
  subst heq
  exact hphase

/-! ### Answers -/

theorem readCopy {a : ExactlyOnce.Answer} (h : Lane taken (a :: answers) remembered leaked outgoing q p) :
    Lane taken answers remembered leaked outgoing q p := by
  obtain ⟨phase, hphase, hsound, hlost⟩ := h
  exact ⟨phase, hphase, hsound.readCopy, hlost⟩

theorem received {leaked' : Prop} {r : Option UniqueID}
    (h : Lane taken (.received :: answers) remembered leaked outgoing q p)
    (hq : q.phases p = [.published r]) (hq' : (q'.phases p).Perm [.received r]) :
    Lane taken answers remembered leaked' outgoing q' p :=
  ⟨.received r, List.perm_singleton.mp hq', (h.of_phases hq).readReceived, nofun⟩

theorem lost {leaked' : Prop} {r : Option UniqueID}
    (h : Lane taken (.received :: answers) remembered leaked outgoing q p)
    (hq : q.phases p = [.published r]) (hq' : (q'.phases p).Perm []) (hleaked : leaked') :
    Lane taken answers remembered leaked' outgoing q' p :=
  ⟨.lost, hq'.eq_nil, (h.of_phases hq).readReceived.abandon, fun _ => hleaked⟩

/-! ### Writes -/

/-- A publish is written for the first time. -/
theorem publish {i : Nat} {current : OwnedPublish BUFFER TOPIC} {pid : Pid} {now : Instant}
    {queue : BoundedVec (AwaitPubrec BUFFER TOPIC) QUEUE}
    (h : Lane taken answers remembered leaked outgoing q p) (hpids : q.uses p ≤ 1)
    (hleaked : leaked → q.uses p = 0) (hi : q.sendPublish.get? i = some current)
    (hq : current.qospid = .exactlyOnce pid) (ht : taken (some current.uniqueId) = 0)
    (hpush : q.awaitPubrec.push
      { pid, publish := { current with dup := true }, publishSent := now } = some queue) :
    Lane taken answers remembered leaked (outgoing ++ [⟨current.borrow, some current.uniqueId⟩])
      { q with
        sendPublish := q.sendPublish.removeAt i
        awaitPubrec := queue } p := by
  have hturns := turns_published hpush
  by_cases hpid : pid = p
  · subst hpid
    have hcount : 0 < q.sendPublish.countKey (·.qospid.pid) (some pid) :=
      BoundedVec.countKey_pos_iff.mpr ⟨current, BoundedVec.mem_of_get? hi, by rw [hq]; rfl⟩
    have hlength := q.length_phases_le pid
    have hnil : q.phases pid = [] := List.length_eq_zero_iff.mp (by omega)
    have hafter := hturns.of_nil hnil
    obtain ⟨phase, hphase, hsound, hlost⟩ := h
    rw [hnil] at hphase
    cases phase with
    | idle =>
      refine ⟨.published (some current.uniqueId), List.perm_singleton.mp hafter, ?_, nofun⟩
      rw [letters_concat_some (by rw [letter?_borrow, if_pos hq])]
      exact hsound.publish ht
    | lost =>
      have := hleaked (hlost rfl)
      omega
    | published | received | released => cases hphase
  · refine h.congr (hturns.perm_of_ne hpid) (letters_concat_none ?_)
    rw [letter?_borrow, hq, if_neg (by simpa using hpid)]

/-- A PUBREL is written for the first time. -/
theorem release {i : Nat} {current : SendPubrel} {u : UniqueID} {now : Instant}
    {queue : BoundedVec AwaitPubcomp QUEUE}
    (h : Lane taken answers remembered leaked outgoing q p) (hpids : ∀ p, q.uses p ≤ 1)
    (hi : q.sendPubrel.get? i = some current) (hu : current.uniqueId = some u)
    (hpush : q.awaitPubcomp.push { pid := current.pid, pubrelSent := now, uniqueId := u } =
      some queue) :
    Lane taken answers remembered leaked (outgoing ++ [⟨.pubrel current.pid, some u⟩])
      { q with
        sendPubrel := q.sendPubrel.removeAt i
        awaitPubcomp := queue } p := by
  obtain ⟨pid, uniqueId⟩ := current
  cases hu
  have hturns := turns_released hi rfl rfl hpush
  by_cases hpid : pid = p
  · subst hpid
    have hlength := q.length_phases_le pid
    have hle := hpids pid
    obtain ⟨hbefore, hafter⟩ := hturns.of_singleton (by omega)
    refine ⟨.released (some u), List.perm_singleton.mp hafter, ?_, nofun⟩
    rw [letters_concat_some (w := ⟨.pubrel pid, some u⟩) (if_pos rfl)]
    exact (h.of_phases hbefore).release
  · exact h.congr (hturns.perm_of_ne hpid) (letters_concat_none (if_neg hpid))

/-- A publish that waits for its PUBREC is written again. -/
theorem publishAgain {i : Nat} {e : AwaitPubrec BUFFER TOPIC} {now : Instant}
    (h : Lane taken answers remembered leaked outgoing q p) (hpids : ∀ p, q.uses p ≤ 1)
    (hi : q.awaitPubrec.get? i = some e) (hq : e.publish.qospid = .exactlyOnce e.pid) :
    Lane taken answers remembered leaked
      (outgoing ++ [⟨e.publish.borrow, some e.publish.uniqueId⟩])
      { q with
        awaitPubrec := q.awaitPubrec.modifyAt i fun e => { e with publishSent := now } } p := by
  have hphases := phases_publishedAgain (q := q) (i := i) now p
  by_cases hpid : e.pid = p
  · subst hpid
    have hlength := q.length_phases_le e.pid
    have hle := hpids e.pid
    obtain ⟨hbefore, -⟩ := (turns_lost hi).of_singleton (by omega)
    refine ⟨.published (some e.publish.uniqueId), hphases.trans hbefore, ?_, nofun⟩
    rw [letters_concat_some (by rw [letter?_borrow, if_pos hq])]
    exact (h.of_phases hbefore).publishAgain
  · refine h.congr (.of_eq hphases.symm) (letters_concat_none ?_)
    rw [letter?_borrow, hq, if_neg (by simpa using hpid)]

/-- A PUBREL that waits for its PUBCOMP is written again. -/
theorem releaseAgain {i : Nat} {e : AwaitPubcomp} {now : Instant}
    (h : Lane taken answers remembered leaked outgoing q p) (hpids : ∀ p, q.uses p ≤ 1)
    (hi : q.awaitPubcomp.get? i = some e) :
    Lane taken answers remembered leaked (outgoing ++ [⟨.pubrel e.pid, some e.uniqueId⟩])
      { q with
        awaitPubcomp := q.awaitPubcomp.modifyAt i fun e => { e with pubrelSent := now } } p := by
  have hphases := phases_releasedAgain (q := q) (i := i) now p
  by_cases hpid : e.pid = p
  · subst hpid
    have hlength := q.length_phases_le e.pid
    have hle := hpids e.pid
    obtain ⟨hbefore, -⟩ := (turns_complete hi).of_singleton (by omega)
    refine ⟨.released (some e.uniqueId), hphases.trans hbefore, ?_, nofun⟩
    rw [letters_concat_some (w := ⟨.pubrel e.pid, some e.uniqueId⟩) (if_pos rfl)]
    exact (h.of_phases hbefore).releaseAgain
  · exact h.congr (.of_eq hphases.symm) (letters_concat_none (if_neg hpid))

/-- A move of a send pass that does not panic. -/
theorem move (h : Lane taken answers remembered leaked c.env.outgoing c.inner p)
    (hsend : ∀ e ∈ c.inner.sendPublish, ∀ p, e.qospid = .exactlyOnce p →
      taken (some e.uniqueId) = 0)
    (hpuback : ∀ e ∈ c.inner.awaitPuback, e.publish.qospid = .atLeastOnce e.pid)
    (hpubrec : ∀ e ∈ c.inner.awaitPubrec, e.publish.qospid = .exactlyOnce e.pid)
    (hpids : ∀ p, c.inner.uses p ≤ 1) (hleaked : leaked → c.inner.uses p = 0)
    (hmove : MoveOr False c c') :
    Lane taken answers remembered leaked c'.env.outgoing c'.inner p := by
  cases hmove with
  | asked | read => exact h
  | atMostOnce hi hq =>
    refine h.congr .rfl (letters_concat_none ?_)
    rw [letter?_borrow, hq, if_neg nofun]
  | atLeastOnce hi hq =>
    refine h.congr .rfl (letters_concat_none ?_)
    rw [letter?_borrow, hq, if_neg nofun]
  | exactlyOnce hi hq hpush =>
    exact h.publish (hpids p) hleaked hi hq (hsend _ (BoundedVec.mem_of_get? hi) _ hq) hpush
  | pubrel hi hu hpush => exact h.release hpids hi hu hpush
  | anonymous hpanics => exact hpanics.elim
  | pubackResend hi =>
    refine h.congr .rfl (letters_concat_none ?_)
    rw [letter?_borrow, hpuback _ (BoundedVec.mem_of_get? hi), if_neg nofun]
  | pubrecResend hi => exact h.publishAgain hpids hi (hpubrec _ (BoundedVec.mem_of_get? hi))
  | pubcompResend hi => exact h.releaseAgain hpids hi

end Lane

end PublishesInner

/-! ## What was issued -/

/-- The request `u` was made for a publish with this QoS and pid. -/
def Recorded (issued : List (Option QosPid)) (u : UniqueID) (qospid : QosPid) : Prop :=
  issued[u.request]? = some (some qospid)

namespace Recorded

variable {issued : List (Option QosPid)} {u : UniqueID} {qospid qospid' : QosPid}

theorem unique (h : Recorded issued u qospid) (h' : Recorded issued u qospid') :
    qospid = qospid' := by
  cases h.symm.trans h'
  rfl

theorem lt (h : Recorded issued u qospid) : u.request < issued.length :=
  (List.getElem?_eq_some_iff.mp h).1

theorem append (h : Recorded issued u qospid) (more : List (Option QosPid)) :
    Recorded (issued ++ more) u qospid := by
  rwa [Recorded, List.getElem?_append_left h.lt]

end Recorded

/-- How often the broker has taken over the message of a request. -/
def BrokerSession.taken (b : BrokerSession) (r : Option UniqueID) : Nat := b.takenOver.count r

/-- The request `u` may be reported as done. -/
def BrokerSession.Done (b : BrokerSession) (issued : List (Option QosPid)) (u : UniqueID) : Prop :=
  ∃ qospid, Recorded issued u qospid ∧ ∀ p, qospid = .exactlyOnce p → b.taken (some u) = 1

namespace PublishesInner

/-- Every entry is of the publish that was issued under its number. -/
structure Filed (issued : List (Option QosPid)) (q : PublishesInner QUEUE BUFFER TOPIC) : Prop where
  sendPublish : ∀ e ∈ q.sendPublish, Recorded issued e.uniqueId e.qospid
  awaitPuback : ∀ e ∈ q.awaitPuback, e.publish.qospid = .atLeastOnce e.pid ∧
    Recorded issued e.publish.uniqueId e.publish.qospid
  awaitPubrec : ∀ e ∈ q.awaitPubrec, e.publish.qospid = .exactlyOnce e.pid ∧
    Recorded issued e.publish.uniqueId e.publish.qospid
  sendPubrel : ∀ e ∈ q.sendPubrel, ∀ u, e.uniqueId = some u → Recorded issued u (.exactlyOnce e.pid)
  awaitPubcomp : ∀ e ∈ q.awaitPubcomp, Recorded issued e.uniqueId (.exactlyOnce e.pid)

theorem Filed.append {issued : List (Option QosPid)} {q : PublishesInner QUEUE BUFFER TOPIC}
    (h : q.Filed issued) (more : List (Option QosPid)) : q.Filed (issued ++ more) where
  sendPublish e he := (h.sendPublish e he).append more
  awaitPuback e he := (h.awaitPuback e he).imp_right (·.append more)
  awaitPubrec e he := (h.awaitPubrec e he).imp_right (·.append more)
  sendPubrel e he u hu := (h.sendPubrel e he u hu).append more
  awaitPubcomp e he := (h.awaitPubcomp e he).append more

theorem Filed.move {issued : List (Option QosPid)} {panics : Prop}
    {c c' : Ctx (PublishesInner QUEUE BUFFER TOPIC)} (h : c.inner.Filed issued)
    (hmove : MoveOr panics c c') : c'.inner.Filed issued := by
  cases hmove with
  | asked | read => exact h
  | atMostOnce =>
    exact { h with sendPublish := fun e he => h.sendPublish e (BoundedVec.mem_removeAt he) }
  | atLeastOnce hi hq hpush =>
    have hsend := h.sendPublish _ (BoundedVec.mem_of_get? hi)
    refine { h with
      sendPublish := fun e he => h.sendPublish e (BoundedVec.mem_removeAt he)
      awaitPuback := fun e he => ?_ }
    rcases (BoundedVec.mem_iff_of_push hpush).mp he with he | rfl
    · exact h.awaitPuback e he
    · exact ⟨hq, hsend⟩
  | exactlyOnce hi hq hpush =>
    have hsend := h.sendPublish _ (BoundedVec.mem_of_get? hi)
    refine { h with
      sendPublish := fun e he => h.sendPublish e (BoundedVec.mem_removeAt he)
      awaitPubrec := fun e he => ?_ }
    rcases (BoundedVec.mem_iff_of_push hpush).mp he with he | rfl
    · exact h.awaitPubrec e he
    · exact ⟨hq, hsend⟩
  | pubrel hi hu hpush =>
    refine { h with
      sendPubrel := fun e he => h.sendPubrel e (BoundedVec.mem_removeAt he)
      awaitPubcomp := fun e he => ?_ }
    rcases (BoundedVec.mem_iff_of_push hpush).mp he with he | rfl
    · exact h.awaitPubcomp e he
    · exact h.sendPubrel _ (BoundedVec.mem_of_get? hi) _ hu
  | anonymous =>
    exact { h with sendPubrel := fun e he => h.sendPubrel e (BoundedVec.mem_removeAt he) }
  | pubackResend =>
    refine { h with awaitPuback := fun e he => ?_ }
    rcases BoundedVec.mem_modifyAt he with he | ⟨a, ha, rfl⟩
    · exact h.awaitPuback e he
    · exact h.awaitPuback a (BoundedVec.mem_of_get? ha)
  | pubrecResend =>
    refine { h with awaitPubrec := fun e he => ?_ }
    rcases BoundedVec.mem_modifyAt he with he | ⟨a, ha, rfl⟩
    · exact h.awaitPubrec e he
    · exact h.awaitPubrec a (BoundedVec.mem_of_get? ha)
  | pubcompResend =>
    refine { h with awaitPubcomp := fun e he => ?_ }
    rcases BoundedVec.mem_modifyAt he with he | ⟨a, ha, rfl⟩
    · exact h.awaitPubcomp e he
    · exact h.awaitPubcomp a (BoundedVec.mem_of_get? ha)

/-! ## The exchanges of QoS 2 -/

/-- The exchanges of QoS 2 with a broker whose answers `packets` are still to be read. `leaked` are
the pids that will not be used again. -/
structure Once (leaked : Pid → Prop) (packets : List Packet) (b : BrokerSession)
    (issued : List (Option QosPid)) (c : Ctx (PublishesInner QUEUE BUFFER TOPIC)) : Prop where
  filed : c.inner.Filed issued
  /-- A publish that has not been written has not been taken over. -/
  fresh : ∀ e ∈ c.inner.sendPublish, ∀ p, e.qospid = .exactlyOnce p →
    b.taken (some e.uniqueId) = 0
  lane : ∀ p, Lane b.taken (packets.filterMap (·.answer? p)) (decide (p ∈ b.remembered)) (leaked p)
    c.env.outgoing c.inner p
  done : ∀ u, .publishDone u ∈ c.env.events → b.Done issued u

namespace Once

variable {leaked leaked' : Pid → Prop} {packets : List Packet} {b : BrokerSession}
  {issued : List (Option QosPid)} {c c' : Ctx (PublishesInner QUEUE BUFFER TOPIC)} {pid : Pid}

theorem mono (h : Once leaked packets b issued c) (hleaked : ∀ p, leaked p → leaked' p) :
    Once leaked' packets b issued c := by
  exact { h with lane := fun p => (h.lane p).mono (hleaked p) }

theorem move (h : Once leaked packets b issued c) (hpids : ∀ p, c.inner.uses p ≤ 1)
    (hleaked : ∀ p, leaked p → c.inner.uses p = 0) (hmove : MoveOr False c c') :
    Once leaked packets b issued c' := by
  have hlane (p : Pid) := (h.lane p).move h.fresh (fun e he => (h.filed.awaitPuback e he).1)
    (fun e he => (h.filed.awaitPubrec e he).1) hpids (hleaked p) hmove
  refine ⟨h.filed.move hmove, ?_, hlane, ?_⟩
  · cases hmove with
    | atMostOnce | atLeastOnce | exactlyOnce =>
      exact fun e he => h.fresh e (BoundedVec.mem_removeAt he)
    | _ => exact h.fresh
  · cases hmove with
    | atMostOnce hi hq =>
      intro u hu
      rcases List.mem_append.mp hu with hu | hu
      · exact h.done u hu
      · cases List.mem_singleton.mp hu
        have hsend := h.filed.sendPublish _ (BoundedVec.mem_of_get? hi)
        rw [hq] at hsend
        exact ⟨_, hsend, nofun⟩
    | _ => exact h.done

/-- A send pass that does not panic. -/
theorem sendPackets (h : Once leaked packets b issued c) (hpids : ∀ p, c.inner.uses p ≤ 1)
    (hleaked : ∀ p, leaked p → c.inner.uses p = 0)
    (hpanic : (PublishesInner.sendPackets.exec c).1 ≠ .error .panic) :
    Once leaked packets b issued (PublishesInner.sendPackets.exec c).2 := by
  let I (c : Ctx (PublishesInner QUEUE BUFFER TOPIC)) : Prop :=
    Once leaked packets b issued c ∧ (∀ p, c.inner.uses p ≤ 1) ∧
      ∀ p, leaked p → c.inner.uses p = 0
  have hstep : ∀ c c', MoveOr False c c' → I c → I c' := by
    rintro c c' hmove ⟨h, hpids, hleaked⟩
    refine ⟨h.move hpids hleaked hmove, fun p => ?_, fun p hp => ?_⟩
    · rw [hmove.move.uses]
      exact hpids p
    · rw [hmove.move.uses]
      exact hleaked p hp
  obtain ⟨hok, hstop⟩ := sendPackets_exits.invariant (I := I) hstep ⟨h, hpids, hleaked⟩
  cases hres : (PublishesInner.sendPackets.exec c).1 with
  | ok r => exact (hok r hres).1
  | error x =>
    obtain ⟨t, ht, hlast⟩ := hstop x hres
    cases hlast with
    | fail e => exact ht.1
    | panic => exact absurd hres hpanic

/-! ### Answers -/

/-- The next answer is not of QoS 2. -/
theorem read_other {packet : Packet} (h : Once leaked (packet :: packets) b issued c)
    (hnone : ∀ p, packet.answer? p = none) : Once leaked packets b issued c := by
  refine { h with lane := fun p => ?_ }
  have hlane := h.lane p
  rwa [List.filterMap_cons_none (hnone p)] at hlane

/-- The answer is of another exchange. -/
theorem lane_other {packet : Packet} {p : Pid} (h : Once leaked (packet :: packets) b issued c)
    (hnone : packet.answer? p = none) :
    Lane b.taken (packets.filterMap (·.answer? p)) (decide (p ∈ b.remembered)) (leaked p)
      c.env.outgoing c.inner p := by
  have hlane := h.lane p
  rwa [List.filterMap_cons_none hnone] at hlane

theorem processPuback (h : Once leaked (.puback pid :: packets) b issued c) :
    Once leaked packets b issued ((PublishesInner.processPuback pid).exec c).2 := by
  replace h := h.read_other fun _ => rfl
  rcases processPuback_cases c pid with ⟨i, e, hi, rfl, hexec⟩ | ⟨-, hexec⟩
  · rw [hexec]
    have hentry := h.filed.awaitPuback e (BoundedVec.mem_of_get? hi)
    refine ⟨{ h.filed with awaitPuback := fun e he => ?_ }, h.fresh, h.lane, ?_⟩
    · exact h.filed.awaitPuback e (BoundedVec.mem_removeAt he)
    · intro u hu
      rcases List.mem_append.mp hu with hu | hu
      · exact h.done u hu
      · cases List.mem_singleton.mp hu
        exact ⟨_, hentry.2, fun p hp => by cases hentry.1.symm.trans hp⟩
  · rw [hexec]
    exact h

/-- A PUBREC moves the publish on, unless `send_pubrel` is full: then its pid is lost. -/
theorem processPubrec (h : Once leaked (.pubrec pid :: packets) b issued c)
    (hpids : ∀ p, c.inner.uses p ≤ 1) (hleaked : ∀ p, leaked p → leaked' p)
    (hlost : (∃ e ∈ c.inner.awaitPubrec, e.pid = pid) → c.inner.sendPubrel.isFull = true →
      leaked' pid) :
    Once leaked' packets b issued ((PublishesInner.processPubrec pid).exec c).2 := by
  have hself := h.lane pid
  rw [List.filterMap_cons_some Packet.answer?_pubrec] at hself
  have hother (p : Pid) (hne : pid ≠ p) := h.lane_other (Packet.answer?_pubrec_of_ne hne)
  rcases processPubrec_cases c pid with ⟨i, e, r, inner, hi, rfl, hres, hexec⟩ |
    ⟨-, r, inner, hres, hexec⟩
  · rw [hexec]
    have hlength := c.inner.length_phases_le e.pid
    have hle := hpids e.pid
    have hfiled (e' : AwaitPubrec BUFFER TOPIC) (he' : e' ∈ c.inner.awaitPubrec.removeAt i) :=
      h.filed.awaitPubrec e' (BoundedVec.mem_removeAt he')
    unfold pubrecResult at hres
    cases hpush : c.inner.sendPubrel.push ⟨e.pid, some e.publish.uniqueId⟩ with
    | none =>
      rw [hpush] at hres
      cases hres
      have hturns := turns_lost hi
      obtain ⟨hbefore, hafter⟩ := hturns.of_singleton (by omega)
      have hleak := hlost ⟨e, BoundedVec.mem_of_get? hi, rfl⟩ (BoundedVec.push_eq_none_iff.mp hpush)
      refine ⟨{ h.filed with awaitPubrec := hfiled }, h.fresh, fun p => ?_, h.done⟩
      by_cases hpid : e.pid = p
      · subst hpid
        exact hself.lost hbefore hafter hleak
      · exact ((hother p hpid).congr (hturns.perm_of_ne hpid) rfl).mono (hleaked p)
    | some queue =>
      rw [hpush] at hres
      cases hres
      have hturns := turns_received hi hpush
      obtain ⟨hbefore, hafter⟩ := hturns.of_singleton (by omega)
      have hentry := h.filed.awaitPubrec e (BoundedVec.mem_of_get? hi)
      have hpubrels : ∀ e' ∈ queue, ∀ u, e'.uniqueId = some u →
          Recorded issued u (.exactlyOnce e'.pid) := by
        intro e' he' u hu
        rcases (BoundedVec.mem_iff_of_push hpush).mp he' with he' | rfl
        · exact h.filed.sendPubrel e' he' u hu
        · cases hu
          exact hentry.1 ▸ hentry.2
      refine ⟨{ h.filed with awaitPubrec := hfiled, sendPubrel := hpubrels }, h.fresh, fun p => ?_,
        h.done⟩
      by_cases hpid : e.pid = p
      · subst hpid
        exact hself.received hbefore hafter
      · exact ((hother p hpid).congr (hturns.perm_of_ne hpid) rfl).mono (hleaked p)
  · rw [hexec]
    have hcopy (p : Pid) : Lane b.taken (packets.filterMap (·.answer? p))
        (decide (p ∈ b.remembered)) (leaked' p) c.env.outgoing c.inner p := by
      by_cases hpid : pid = p
      · subst hpid
        exact hself.readCopy.mono (hleaked pid)
      · exact (hother p hpid).mono (hleaked p)
    unfold pubrecResult at hres
    cases hpush : c.inner.sendPubrel.push ⟨pid, none⟩ with
    | none =>
      rw [hpush] at hres
      cases hres
      exact { h with lane := hcopy }
    | some queue =>
      rw [hpush] at hres
      cases hres
      refine ⟨{ h.filed with sendPubrel := fun e' he' u hu => ?_ }, h.fresh, fun p => ?_, h.done⟩
      · rcases (BoundedVec.mem_iff_of_push hpush).mp he' with he' | rfl
        · exact h.filed.sendPubrel e' he' u hu
        · cases hu
      · exact (hcopy p).congr (perm_phases_anonymous hpush p) rfl

/-- A PUBCOMP that finds its entry reports a publish that has been taken over. -/
theorem processPubcomp (h : Once leaked (.pubcomp pid :: packets) b issued c)
    (hpids : ∀ p, c.inner.uses p ≤ 1) :
    Once leaked packets b issued ((PublishesInner.processPubcomp pid).exec c).2 := by
  have hself := h.lane pid
  rw [List.filterMap_cons_some Packet.answer?_pubcomp] at hself
  have hother (p : Pid) (hne : pid ≠ p) := h.lane_other (Packet.answer?_pubcomp_of_ne hne)
  rcases processPubcomp_cases c pid with ⟨i, e, hi, rfl, hexec⟩ | ⟨-, hexec⟩
  · rw [hexec]
    have hlength := c.inner.length_phases_le e.pid
    have hle := hpids e.pid
    have hturns := turns_complete hi
    obtain ⟨hbefore, hafter⟩ := hturns.of_singleton (by omega)
    obtain ⟨htaken, hidle⟩ := (hself.of_phases hbefore).readComplete
    have hfiled (e' : AwaitPubcomp) (he' : e' ∈ c.inner.awaitPubcomp.removeAt i) :=
      h.filed.awaitPubcomp e' (BoundedVec.mem_removeAt he')
    refine ⟨{ h.filed with awaitPubcomp := hfiled }, h.fresh, fun p => ?_, ?_⟩
    · by_cases hpid : e.pid = p
      · subst hpid
        exact ⟨.idle, hafter.eq_nil, hidle, nofun⟩
      · exact (hother p hpid).congr (hturns.perm_of_ne hpid) rfl
    · intro u hu
      rcases List.mem_append.mp hu with hu | hu
      · exact h.done u hu
      · cases List.mem_singleton.mp hu
        exact ⟨_, h.filed.awaitPubcomp e (BoundedVec.mem_of_get? hi), fun _ _ => htaken⟩
  · rw [hexec]
    refine { h with lane := fun p => ?_ }
    by_cases hpid : pid = p
    · subst hpid
      exact hself.readCopy
    · exact hother p hpid

end Once

end PublishesInner

end EmbeddedMqttc
