import EmbeddedMqttc.PublishOnce

/-!
# The broker takes over every publish of QoS 2 once

The exchanges of QoS 2 over whole runs with any number of lost connections.
-/

namespace EmbeddedMqttc

open Prog EmbeddedMqttc.Comp Run ExactlyOnce

variable {QUEUE BUFFER TOPIC : Nat}

/-! ## Pids that are not used again -/

/-- A pid that was handed out and is neither used nor in the pool. -/
structure Env.Leaked (e : Env) (used : Pid → Nat) (p : Pid) : Prop where
  used : used p = 0
  free : e.pool.free p = 0
  lt : p.val < e.pool.nextNewPid

theorem Env.PidTurn.leaked {lossy : Prop} {e e' : Env} {used used' : Pid → Nat} {p : Pid}
    (h : e.PidTurn lossy used e' used') (hp : e.Leaked used p) : e'.Leaked used' p := by
  obtain ⟨hused, hfree, hlt⟩ := hp
  cases h with
  | keep hpool _ hkeep => exact ⟨(hkeep p).trans hused, hpool ▸ hfree, hpool ▸ hlt⟩
  | take pid hnext _ htake =>
    rcases PidPool.nextPid_cases hnext with ⟨hnew, hcons⟩ | ⟨hval, -, hnew, hpool⟩
    · have hcount := PidPool.free_of_cons hcons p
      have hne : pid ≠ p := by
        rintro rfl
        rw [if_pos rfl] at hcount
        omega
      rw [if_neg hne] at hcount
      exact ⟨by rw [htake p, hused, if_neg hne], by omega, hnew ▸ hlt⟩
    · have hne : pid ≠ p := by
        rintro rfl
        omega
      refine ⟨by rw [htake p, hused, if_neg hne], ?_, by omega⟩
      rwa [PidPool.free, hpool, ← PidPool.free]
  | free pid hpool _ hturn =>
    have hcount := hturn p
    have hne : pid ≠ p := by
      rintro rfl
      rw [if_pos rfl] at hcount
      omega
    refine ⟨by omega, ?_, ?_⟩
    · rw [hpool, Env.freed_pool, PidPool.free_freePid, if_neg (fun h => hne h.1), hfree]
    · rwa [hpool, Env.freed_pool, PidPool.nextNewPid_freePid]
  | lose _ pid hpool _ hturn =>
    have hcount := hturn p
    exact ⟨by omega, hpool ▸ hfree, hpool ▸ hlt⟩

/-! ## Steps that are not about publishes -/

theorem Env.AsksNone.filterMap_letter? {e e' : Env} (h : e.AsksNone true e') (p : Pid) :
    e'.outgoing.filterMap (·.letter? p) = e.outgoing.filterMap (·.letter? p) := by
  obtain ⟨ws, hws, houtgoing, -⟩ := h.packets
  rw [houtgoing, List.filterMap_append,
    List.filterMap_eq_nil_iff.mpr fun w hw => Written.letter?_eq_none (hws w hw) p, List.append_nil]

namespace PublishesInner.Once

variable {leaked : Pid → Prop} {packets : List Packet} {b : BrokerSession}
  {issued : List (Option QosPid)} {c c' : Ctx (PublishesInner QUEUE BUFFER TOPIC)}

theorem congr (h : Once leaked packets b issued c) (hinner : c'.inner = c.inner)
    (hnone : c.env.AsksNone true c'.env)
    (hevents : ∀ u, .publishDone u ∈ c'.env.events → .publishDone u ∈ c.env.events) :
    Once leaked packets b issued c' := by
  refine ⟨hinner ▸ h.filed, hinner ▸ h.fresh, fun p => ?_, fun u hu => h.done u (hevents u hu)⟩
  exact (h.lane p).congr (.of_eq (by rw [hinner])) (hnone.filterMap_letter? p)

theorem append (h : Once leaked packets b issued c) (more : List (Option QosPid)) :
    Once leaked packets b (issued ++ more) c := by
  refine { h with filed := h.filed.append more, done := fun u hu => ?_ }
  obtain ⟨qospid, hrecorded, htaken⟩ := h.done u hu
  exact ⟨qospid, hrecorded.append more, htaken⟩

end PublishesInner.Once

namespace Client

/-- Whether a step is about a publish, from the call of a user to the PUBCOMP. -/
def Label.ofPublish : Label → Bool
  | .publish .. | .poll _ | .drop _ => true
  | l => l.concerns true

variable {s : Client QUEUE BUFFER TOPIC} {topicPathCapacity : Nat} {l : Label}

theorem addRequest_rest (requestType : RequestType) (topics : List (List UInt8)) (id : Nat) :
    (s.addRequest (SubsInner.addRequest requestType topics) id).2.publishes = s.publishes ∧
      (s.addRequest (SubsInner.addRequest requestType topics) id).2.waiting = s.waiting ∧
      (s.addRequest (SubsInner.addRequest requestType topics) id).2.issued = s.issued ++ [none] ∧
      (s.addRequest (SubsInner.addRequest requestType topics) id).2.env.events = s.env.events := by
  unfold addRequest callSubscribes
  rcases SubsInner.addRequest_cases ⟨s.subscribes, s.env⟩ requestType topics
    ⟨id, s.issued.length⟩ with ⟨x, h⟩ | ⟨request, rest, pool, -, -, -, -, h⟩ <;> rw [h]
  · exact ⟨rfl, rfl, rfl, rfl⟩
  · exact ⟨rfl, rfl, rfl, rfl⟩

/-- All other steps leave the publishes alone. -/
theorem outcome_rest (hl : l.ofPublish = false) :
    (s.outcome topicPathCapacity l).2.publishes = s.publishes ∧
      (s.outcome topicPathCapacity l).2.waiting = s.waiting ∧
      (∃ more, (s.outcome topicPathCapacity l).2.issued = s.issued ++ more) ∧
      ∀ u, .publishDone u ∈ (s.outcome topicPathCapacity l).2.env.events →
        .publishDone u ∈ s.env.events := by
  have hissued : ∃ more, s.issued = s.issued ++ more := ⟨[], by rw [List.append_nil]⟩
  cases l with
  | publish | poll | drop | sendPublishes => cases hl
  | subscribe topics qos id =>
    obtain ⟨hpublishes, hwaiting, happend, hevents⟩ :=
      s.addRequest_rest (.subscribe qos) topics id
    exact ⟨hpublishes, hwaiting, ⟨_, happend⟩, fun u hu => hevents ▸ hu⟩
  | unsubscribe topics id =>
    obtain ⟨hpublishes, hwaiting, happend, hevents⟩ := s.addRequest_rest .unsubscribe topics id
    exact ⟨hpublishes, hwaiting, ⟨_, happend⟩, fun u hu => hevents ▸ hu⟩
  | autoSubscribe =>
    simp only [outcome, autoSubscribeChunk, callPublishes]
    cases s.autoSubscribe with
    | some pid => exact ⟨rfl, rfl, hissued, fun _ h => h⟩
    | none =>
      dsimp only
      rcases nextPid_cases ⟨s.publishes, s.env⟩ with h | ⟨pid, pool, -, h⟩ <;> rw [h]
      · exact ⟨rfl, rfl, hissued, fun _ h => h⟩
      · exact ⟨rfl, rfl, hissued, fun _ h => h⟩
  | autoSubscribed | wait => exact ⟨rfl, rfl, hissued, fun _ h => h⟩
  | sendReceives answers =>
    have hpass := Receives.sendPackets_asksNone true ⟨s.receives, (s.scripted answers []).env⟩
    exact ⟨rfl, rfl, hissued, fun u hu => hpass.2 ▸ hu⟩
  | sendSubscribes answers ticks =>
    have hpass := SubsInner.send_asksNone topicPathCapacity
      ⟨s.subscribes, (s.scripted answers ticks).env⟩
    exact ⟨rfl, rfl, hissued, fun u hu => hpass.2 ▸ hu⟩
  | sendPing answers ticks =>
    have hpass := PingStateInner.send_asksNone true ⟨s.ping, (s.scripted answers ticks).env⟩
    exact ⟨rfl, rfl, hissued, fun u hu => hpass.2 ▸ hu⟩
  | receive packet =>
    cases packet with
    | puback | pubrec | pubcomp => cases hl
    | publish message =>
      have henv : (s.outcome topicPathCapacity (.receive (.publish message))).2.env = s.env :=
        Receives.onPublish_env ⟨s.receives, s.env⟩ message
      exact ⟨rfl, rfl, hissued, fun u hu => henv ▸ hu⟩
    | pubrel pid =>
      have henv : (s.outcome topicPathCapacity (.receive (.pubrel pid))).2.env = s.env :=
        Receives.onPubrel_env ⟨s.receives, s.env⟩ pid
      exact ⟨rfl, rfl, hissued, fun u hu => henv ▸ hu⟩
    | suback response =>
      refine ⟨rfl, rfl, hissued, fun u hu => ?_⟩
      simp only [outcome, processPacket, callSubscribes] at hu
      rcases SubsInner.onSuback_cases response ⟨s.subscribes, s.env⟩ with
        h | ⟨i, e, qos, result, -, -, -, h⟩ <;> rw [h] at hu
      · exact hu
      · simpa using hu
    | unsuback pid =>
      refine ⟨rfl, rfl, hissued, fun u hu => ?_⟩
      simp only [outcome, processPacket, callSubscribes] at hu
      rcases SubsInner.onUnsuback_cases pid ⟨s.subscribes, s.env⟩ with
        h | ⟨i, e, -, -, -, h⟩ <;> rw [h] at hu
      · exact hu
      · simpa using hu
    | _ => exact ⟨rfl, rfl, hissued, fun _ h => h⟩

theorem concerns_of_ofPublish (hl : l.ofPublish = false) : l.concerns true = false := by
  cases l with
  | publish | poll | drop => rfl
  | _ => exact hl

theorem outcome_leaked {p : Pid} (hp : s.env.Leaked s.uses p) :
    (s.outcome topicPathCapacity l).2.env.Leaked (s.outcome topicPathCapacity l).2.uses p :=
  (s.outcome_turn l).leaked hp

theorem publishes_uses_le (p : Pid) : s.publishes.uses p ≤ s.uses p := by
  simp only [uses, Nat.add_assoc]
  exact Nat.le_add_right ..

/-- The pid of a publish whose PUBREC finds `send_pubrel` full. -/
theorem leaked_of_pubrec {pid : Pid} (hpids : s.env.pool.Sound s.uses)
    (he : ∃ e ∈ s.publishes.awaitPubrec, e.pid = pid)
    (hfull : s.publishes.sendPubrel.isFull = true) :
    (s.outcome topicPathCapacity (.receive (.pubrec pid))).2.env.Leaked
      (s.outcome topicPathCapacity (.receive (.pubrec pid))).2.uses pid := by
  have hstate : ∃ i e, s.publishes.awaitPubrec.get? i = some e ∧ e.pid = pid ∧
      (s.outcome topicPathCapacity (.receive (.pubrec pid))).2 =
        { s with
          publishes := { s.publishes with awaitPubrec := s.publishes.awaitPubrec.removeAt i } } := by
    simp only [outcome, processPacket, callPublishes, Publishes.processIncomingPacket]
    rcases PublishesInner.processPubrec_cases ⟨s.publishes, s.env⟩ pid with
      ⟨i, e, r, inner, hi, hpid, hres, hexec⟩ | ⟨hnone, -⟩
    · rw [PublishesInner.pubrecResult, BoundedVec.push_eq_none_iff.mpr hfull] at hres
      cases hres
      exact ⟨i, e, hi, hpid, by rw [hexec]⟩
    · obtain ⟨e, hmem, hpid⟩ := he
      exact absurd hpid (hnone e hmem)
  obtain ⟨i, e, hi, rfl, hstate⟩ := hstate
  rw [hstate]
  have hremoved := BoundedVec.countKey_removeAt hi (g := (·.pid)) (k := e.pid)
  rw [if_pos rfl] at hremoved
  have honce := hpids.once e.pid
  refine ⟨?_, ?_, ?_⟩
  · simp only [uses, PublishesInner.uses] at honce ⊢
    omega
  · simp only [uses, PublishesInner.uses] at honce
    dsimp only
    omega
  · dsimp only
    by_contra hge
    have hfresh := hpids.fresh e.pid (Nat.le_of_not_lt hge)
    simp only [uses, PublishesInner.uses] at hfresh
    omega

/-! ## Steps of the client -/

/-- The exchanges of QoS 2 and the publishes that wait. -/
structure Once (packets : List Packet) (b : BrokerSession) (s : Client QUEUE BUFFER TOPIC) :
    Prop where
  publishes : PublishesInner.Once (s.env.Leaked s.uses) packets b s.issued ⟨s.publishes, s.env⟩
  waiting : ∀ w ∈ s.waiting, Recorded s.issued w.2 w.1.qospid ∧
    ∀ p, w.1.qospid = .exactlyOnce p → b.taken (some w.2) = 0
  taken_le_one : ∀ r, b.taken r ≤ 1
  taken_issued : ∀ u, b.taken (some u) ≠ 0 → u.request < s.issued.length

namespace Once

variable {packets : List Packet} {b : BrokerSession}

theorem rest (h : s.Once packets b) (hl : l.ofPublish = false) :
    (s.outcome topicPathCapacity l).2.Once packets b := by
  have hnone : _ ∧ s.env.AsksNone true (s.outcome topicPathCapacity l).2.env :=
    outcome_publishes (concerns_of_ofPublish hl)
  obtain ⟨hpublishes, hwaiting, ⟨more, hissued⟩, hevents⟩ :=
    outcome_rest (s := s) hl
  refine ⟨?_, ?_, h.taken_le_one, fun u hu => ?_⟩
  · rw [hissued]
    exact ((h.publishes.congr hpublishes hnone.2 hevents).append more).mono fun p hp =>
      outcome_leaked hp
  · rw [hwaiting, hissued]
    exact fun w hw => (h.waiting w hw).imp_left (·.append more)
  · rw [hissued, List.length_append]
    exact Nat.lt_add_right _ (h.taken_issued u hu)

/-- A call of `publish` gets the next number. -/
theorem publish (h : s.Once packets b) (topic payload : List UInt8) (qos : QoS) (retain : Bool)
    (id : Nat) : (s.publish topic payload qos retain id).2.Once packets b := by
  have hissue (message : Publish) (pool : PidPool PID_POOL_SIZE)
      (hleaked : ∀ p, s.env.Leaked s.uses p → Env.Leaked { s.env with pool } (uses
        { s with
          env := { s.env with pool }
          waiting := s.waiting ++ [(message, ⟨id, s.issued.length⟩)]
          issued := s.issued ++ [some message.qospid] }) p) :
      Once packets b
        { s with
          env := { s.env with pool }
          waiting := s.waiting ++ [(message, ⟨id, s.issued.length⟩)]
          issued := s.issued ++ [some message.qospid] } := by
    have hpublishes : PublishesInner.Once (s.env.Leaked s.uses) packets b s.issued
        ⟨s.publishes, { s.env with pool }⟩ :=
      h.publishes.congr rfl (.of_eq rfl rfl (Nat.le_refl _)) fun _ h => h
    refine ⟨(hpublishes.append _).mono hleaked, fun w hw => ?_, h.taken_le_one, fun u hu => ?_⟩
    · rcases List.mem_append.mp hw with hw | hw
      · exact (h.waiting w hw).imp_left (·.append _)
      · cases List.mem_singleton.mp hw
        refine ⟨by simp [Recorded], fun p _ => ?_⟩
        by_contra hne
        exact Nat.lt_irrefl _ (h.taken_issued _ hne)
    · rw [List.length_append]
      exact Nat.lt_add_right _ (h.taken_issued u hu)
  have hturn : s.env.PidTurn False s.uses _ _ := s.publish_turn topic payload qos retain id
  unfold Client.publish callPublishes at hturn ⊢
  rcases State.newPublish_cases ⟨s.publishes, s.env⟩ topic payload qos retain with
    hexec | ⟨message, -, -, -, ⟨-, hexec⟩ | ⟨pid, pool, -, -, hexec⟩⟩
  · rw [hexec]
    exact h
  · rw [hexec] at hturn ⊢
    exact hissue message s.env.pool fun p hp => hturn.leaked hp
  · rw [hexec] at hturn ⊢
    exact hissue message pool fun p hp => hturn.leaked hp

/-- A call of `publish` no longer waits. -/
theorem erase (h : s.Once packets b) (i : Nat)
    (hleaked : ∀ p, s.env.Leaked s.uses p →
      s.env.Leaked ({ s with waiting := s.waiting.eraseIdx i } : Client ..).uses p) :
    ({ s with waiting := s.waiting.eraseIdx i } : Client ..).Once packets b where
  publishes := h.publishes.mono hleaked
  waiting w hw := h.waiting w (List.mem_of_mem_eraseIdx hw)
  taken_le_one := h.taken_le_one
  taken_issued := h.taken_issued

/-- A call of `publish` that waits is queued when there is room. -/
theorem poll (h : s.Once packets b) (i : Nat) : (s.poll i).2.Once packets b := by
  have hturn : s.env.PidTurn _ s.uses _ _ := s.poll_turn i
  unfold Client.poll callPublishes at hturn ⊢
  cases hi : s.waiting[i]? with
  | none => exact h
  | some w =>
    obtain ⟨message, u⟩ := w
    rw [hi] at hturn
    dsimp only at hturn ⊢
    rcases Publishes.publish_cases ⟨s.publishes, s.env⟩ message u with
      hexec | ⟨e, -, hexec⟩ | ⟨entry, queue, hentry, hpush, hexec⟩
    · rw [hexec]
      exact h
    · rw [hexec] at hturn ⊢
      exact h.erase i fun p hp => hturn.leaked hp
    · rw [hexec] at hturn ⊢
      obtain ⟨hrecorded, htaken⟩ := h.waiting _ (List.mem_of_getElem? hi)
      obtain ⟨rfl, -, hqospid⟩ := OwnedPublish.newFromPublish_ok hentry
      rw [← hqospid] at hrecorded htaken
      refine ⟨⟨{ h.publishes.filed with sendPublish := fun e he => ?_ }, fun e he => ?_, fun p => ?_,
        h.publishes.done⟩, fun w hw => h.waiting w (List.mem_of_mem_eraseIdx hw), h.taken_le_one,
        h.taken_issued⟩
      · rcases (BoundedVec.mem_iff_of_push hpush).mp he with he | rfl
        · exact h.publishes.filed.sendPublish e he
        · exact hrecorded
      · rcases (BoundedVec.mem_iff_of_push hpush).mp he with he | rfl
        · exact h.publishes.fresh e he
        · exact htaken
      · exact (h.publishes.lane p).mono hturn.leaked

theorem sendPublishes (h : s.Once packets b) (hpids : s.env.pool.Sound s.uses)
    (answers : List (Except MqttError Bool)) (ticks : List Duration)
    (hpanic : (s.outcome topicPathCapacity (.sendPublishes answers ticks)).1 ≠ .error .panic) :
    (s.outcome topicPathCapacity (.sendPublishes answers ticks)).2.Once packets b := by
  have hscripted : PublishesInner.Once (s.env.Leaked s.uses) packets b s.issued
      ⟨s.publishes, (s.scripted answers ticks).env⟩ :=
    h.publishes.congr rfl (.of_eq rfl rfl (Nat.le_refl _)) fun _ h => h
  refine ⟨?_, h.waiting, h.taken_le_one, h.taken_issued⟩
  have hle (p : Pid) := (publishes_uses_le p).trans (hpids.used_le_one p)
  refine (hscripted.sendPackets hle (fun p hp => ?_)
    (fun heq => hpanic (sent_error_iff.mpr heq))).mono fun p hp => outcome_leaked hp
  exact Nat.le_zero.mp (hp.used ▸ publishes_uses_le p)

variable (topicPathCapacity) in
/-- A packet of the broker is processed. -/
theorem receive {packet : Packet} (h : s.Once (packet :: packets) b)
    (hpids : s.env.pool.Sound s.uses) :
    (s.outcome topicPathCapacity (.receive packet)).2.Once packets b := by
  have hle (p : Pid) := (publishes_uses_le p).trans (hpids.used_le_one p)
  have hleaked (p : Pid) (hp : s.env.Leaked s.uses p) :
      (s.outcome topicPathCapacity (.receive packet)).2.env.Leaked _ p := outcome_leaked hp
  cases hpacket : packet.acksOf true with
  | none =>
    have hrest : (s.outcome topicPathCapacity (.receive packet)).2.Once (packet :: packets) b :=
      h.rest (by simp [Label.ofPublish, Label.concerns, hpacket])
    exact { hrest with
      publishes := hrest.publishes.read_other fun p => Packet.answer?_eq_none hpacket p }
  | some k =>
    cases packet with
    | puback pid =>
      exact ⟨h.publishes.processPuback.mono hleaked, h.waiting, h.taken_le_one, h.taken_issued⟩
    | pubcomp pid =>
      exact ⟨(h.publishes.processPubcomp hle).mono hleaked, h.waiting, h.taken_le_one,
        h.taken_issued⟩
    | pubrec pid =>
      exact ⟨h.publishes.processPubrec hle hleaked fun he hfull => leaked_of_pubrec hpids he hfull,
        h.waiting, h.taken_le_one, h.taken_issued⟩
    | _ => cases hpacket

end Once

end Client

/-! ## What the broker does with a packet -/

theorem BrokerSession.taken_concat (b : BrokerSession) (remembered : List Pid)
    (r r' : Option UniqueID) :
    ({ remembered, takenOver := b.takenOver ++ [r] } : BrokerSession).taken r' =
      b.taken r' + if r = r' then 1 else 0 := by
  simp [taken, List.count_append, List.count_singleton]

namespace PublishesInner

variable {q : PublishesInner QUEUE BUFFER TOPIC} {p : Pid}

/-- The entry of a publish that waits for its PUBREC. -/
theorem mem_of_phases {r : Option UniqueID} (h : q.phases p = [.published r]) :
    ∃ e ∈ q.awaitPubrec, e.pid = p ∧ r = some e.publish.uniqueId := by
  have hmem : ExactlyOnce.Phase.published r ∈ q.phases p := by
    rw [h]
    exact List.mem_singleton_self _
  simp only [phases, List.mem_append, List.mem_filterMap] at hmem
  rcases hmem with ⟨e, he, hphase⟩ | ⟨e, -, hphase⟩ | ⟨e, -, hphase⟩
  · unfold AwaitPubrec.phase? at hphase
    split at hphase <;> cases hphase
    exact ⟨e, he, ‹_›, rfl⟩
  · unfold SendPubrel.phase? at hphase
    split at hphase <;> cases hphase
  · unfold AwaitPubcomp.phase? at hphase
    split at hphase <;> cases hphase

namespace Once

variable {leaked : Pid → Prop} {packets : List Packet} {b : BrokerSession}
  {issued : List (Option QosPid)} {c : Ctx (PublishesInner QUEUE BUFFER TOPIC)} {w : Written}
  {outgoing : List Written} {message : Publish} {pid : Pid}

/-- A message arrives under a pid that is not remembered: it is the one of the entry with that pid,
and it has not been taken over. -/
theorem arriving (h : Once leaked packets b issued c) (hout : c.env.outgoing = w :: outgoing)
    (hpacket : w.packet = .publish message) (hqos : message.qospid = .exactlyOnce pid)
    (hnew : pid ∉ b.remembered) :
    b.taken w.request = 0 ∧
      ∃ e ∈ c.inner.awaitPubrec, e.pid = pid ∧ w.request = some e.publish.uniqueId := by
  have hletter : w.letter? pid = some (.message w.request) := by
    simp [Written.letter?, hpacket, hqos]
  obtain ⟨phase, hphase, hsound, -⟩ := h.lane pid
  rw [hout, List.filterMap_cons_some hletter, decide_eq_false hnew] at hsound
  obtain ⟨rfl, htaken⟩ := hsound.unseen
  exact ⟨htaken, mem_of_phases hphase⟩

/-- No pid is in both queues. -/
theorem ne_of_sendPublish {q : PublishesInner QUEUE BUFFER TOPIC}
    {current : OwnedPublish BUFFER TOPIC} {e : AwaitPubrec BUFFER TOPIC}
    (hpids : ∀ p, q.uses p ≤ 1) (hcurrent : current ∈ q.sendPublish) (he : e ∈ q.awaitPubrec) :
    .exactlyOnce e.pid ≠ current.qospid := by
  intro heq
  have hsend : 0 < q.sendPublish.countKey (·.qospid.pid) (some e.pid) :=
    BoundedVec.countKey_pos_iff.mpr ⟨current, hcurrent, by rw [← heq]; rfl⟩
  have hawait : 0 < q.awaitPubrec.countKey (·.pid) e.pid :=
    BoundedVec.countKey_pos_iff.mpr ⟨e, he, rfl⟩
  have hle := hpids e.pid
  simp only [uses] at hle
  omega

/-- The exchanges when the broker takes a message over. -/
theorem arriveMessage (h : Once leaked packets b issued c) (hpids : ∀ p, c.inner.uses p ≤ 1)
    (hout : c.env.outgoing = w :: outgoing) (hpacket : w.packet = .publish message)
    (hqos : message.qospid = .exactlyOnce pid) (hnew : pid ∉ b.remembered) :
    Once leaked (packets ++ [.pubrec pid])
      { remembered := pid :: b.remembered, takenOver := b.takenOver ++ [w.request] } issued
      { c with env := { c.env with outgoing } } := by
  obtain ⟨htaken, e, he, rfl, hrequest⟩ := h.arriving hout hpacket hqos hnew
  obtain ⟨hqospid, hrecorded⟩ := h.filed.awaitPubrec e he
  rw [hqospid] at hrecorded
  have hkeep (r : Option UniqueID) (hr : b.taken r = 1) :
      b.taken r + (if w.request = r then 1 else 0) = 1 := by
    rw [if_neg (by rintro rfl; omega), hr]
  refine ⟨h.filed, fun e' he' p hq => ?_, fun p => ?_, fun u hu => ?_⟩
  · rw [BrokerSession.taken_concat, h.fresh e' he' p hq, if_neg]
    intro heq
    have hu : e.publish.uniqueId = e'.uniqueId := Option.some.inj (hrequest.symm.trans heq)
    exact ne_of_sendPublish hpids he' he (hrecorded.unique (hu ▸ h.filed.sendPublish e' he'))
  · have hlane := h.lane p
    rw [hout] at hlane
    by_cases hpid : e.pid = p
    · subst hpid
      have hletter : w.letter? e.pid = some (.message w.request) := by
        simp [Written.letter?, hpacket, hqos]
      obtain ⟨phase, hphase, hsound, hlost⟩ := hlane
      rw [List.filterMap_cons_some hletter, decide_eq_false hnew] at hsound
      refine ⟨phase, hphase, ?_, hlost⟩
      rw [Lane.answers_concat_some Packet.answer?_pubrec, decide_eq_true List.mem_cons_self]
      refine hsound.arriveMessage ?_
      rw [BrokerSession.taken_concat, htaken, if_pos rfl]
    · have hletter : w.letter? p = none := by simp [Written.letter?, hpacket, hqos, hpid]
      have hremembered : decide (p ∈ e.pid :: b.remembered) = decide (p ∈ b.remembered) := by
        simp [Ne.symm hpid]
      rw [Lane.answers_concat_none (Packet.answer?_pubrec_of_ne hpid), hremembered]
      refine (hlane.skip hletter).congr_taken (fun r hr => ?_) fun r hr => ?_
      · obtain ⟨e', he', rfl, rfl⟩ := mem_of_phases hr
        rw [BrokerSession.taken_concat, if_neg, Nat.add_zero]
        intro heq
        have hu : e.publish.uniqueId = e'.publish.uniqueId :=
          Option.some.inj (hrequest.symm.trans heq)
        obtain ⟨hqospid', hrecorded'⟩ := h.filed.awaitPubrec e' he'
        rw [← hu, hqospid'] at hrecorded'
        exact hpid (QosPid.exactlyOnce.inj (hrecorded.unique hrecorded'))
      · rw [BrokerSession.taken_concat]
        exact hkeep r hr
  · obtain ⟨qospid, hu, hdone⟩ := h.done u hu
    refine ⟨qospid, hu, fun p hp => ?_⟩
    rw [BrokerSession.taken_concat]
    exact hkeep _ (hdone p hp)

/-- A copy of a message that has been taken over arrives. -/
theorem arriveCopy (h : Once leaked packets b issued c) (hout : c.env.outgoing = w :: outgoing)
    (hpacket : w.packet = .publish message) (hqos : message.qospid = .exactlyOnce pid)
    (hold : pid ∈ b.remembered) :
    Once leaked (packets ++ [.pubrec pid]) b issued { c with env := { c.env with outgoing } } := by
  refine { h with lane := fun p => ?_ }
  have hlane := h.lane p
  rw [hout] at hlane
  by_cases hpid : pid = p
  · subst hpid
    have hletter : w.letter? pid = some (.message w.request) := by
      simp [Written.letter?, hpacket, hqos]
    obtain ⟨phase, hphase, hsound, hlost⟩ := hlane
    rw [List.filterMap_cons_some hletter, decide_eq_true hold] at hsound
    refine ⟨phase, hphase, ?_, hlost⟩
    rw [Lane.answers_concat_some Packet.answer?_pubrec, decide_eq_true hold]
    exact hsound.arriveCopy
  · have hletter : w.letter? p = none := by simp [Written.letter?, hpacket, hqos, hpid]
    rw [Lane.answers_concat_none (Packet.answer?_pubrec_of_ne hpid)]
    exact hlane.skip hletter

/-- The broker forgets a pid. -/
theorem arriveRelease (h : Once leaked packets b issued c) (hout : c.env.outgoing = w :: outgoing)
    (hpacket : w.packet = .pubrel pid) :
    Once leaked (packets ++ [.pubcomp pid])
      { b with remembered := b.remembered.filter (· ≠ pid) } issued
      { c with env := { c.env with outgoing } } := by
  refine ⟨h.filed, h.fresh, fun p => ?_, h.done⟩
  have hlane := h.lane p
  rw [hout] at hlane
  by_cases hpid : pid = p
  · subst hpid
    have hletter : w.letter? pid = some .release := by simp [Written.letter?, hpacket]
    have hforgotten : pid ∉ b.remembered.filter (· ≠ pid) := by simp
    obtain ⟨phase, hphase, hsound, hlost⟩ := hlane
    rw [List.filterMap_cons_some hletter] at hsound
    refine ⟨phase, hphase, ?_, hlost⟩
    rw [Lane.answers_concat_some Packet.answer?_pubcomp, decide_eq_false hforgotten]
    exact hsound.arriveRelease
  · have hletter : w.letter? p = none := by simp [Written.letter?, hpacket, hpid]
    have hremembered : decide (p ∈ b.remembered.filter (· ≠ pid)) = decide (p ∈ b.remembered) := by
      simp [Ne.symm hpid]
    rw [Lane.answers_concat_none (Packet.answer?_pubcomp_of_ne hpid), hremembered]
    exact hlane.skip hletter

/-- A packet of no exchange of QoS 2 arrives. -/
theorem arriveOther (h : Once leaked packets b issued c) (hout : c.env.outgoing = w :: outgoing)
    {more : List Packet} (hletter : ∀ p, w.letter? p = none)
    (hmore : ∀ p, more.filterMap (Packet.answer? p) = []) :
    Once leaked (packets ++ more) b issued { c with env := { c.env with outgoing } } := by
  refine { h with lane := fun p => ?_ }
  have hlane := h.lane p
  rw [hout] at hlane
  rw [List.filterMap_append, hmore p, List.append_nil]
  exact hlane.skip (hletter p)

end Once

end PublishesInner

namespace Client.Once

variable {s : Client QUEUE BUFFER TOPIC} {packets : List Packet} {b : BrokerSession} {w : Written}
  {outgoing : List Written}

/-- A pid of a publish that waits is in no queue. -/
theorem ne_of_waiting {v : Publish × UniqueID} {e : AwaitPubrec BUFFER TOPIC}
    (hpids : s.env.pool.Sound s.uses) (hv : v ∈ s.waiting) (he : e ∈ s.publishes.awaitPubrec) :
    .exactlyOnce e.pid ≠ v.1.qospid := by
  intro heq
  have hmem : e.pid ∈ s.waiting.filterMap (·.1.qospid.pid) :=
    List.mem_filterMap.mpr ⟨v, hv, by rw [← heq]; rfl⟩
  have hwaiting := List.count_pos_iff.mpr hmem
  have hawait : 0 < s.publishes.awaitPubrec.countKey (·.pid) e.pid :=
    BoundedVec.countKey_pos_iff.mpr ⟨e, he, rfl⟩
  have hle := hpids.used_le_one e.pid
  simp only [uses, PublishesInner.uses] at hle
  omega

/-- The broker receives the next packet of the client. -/
theorem arrive (h : s.Once packets b) (hpids : s.env.pool.Sound s.uses)
    (hout : s.env.outgoing = w :: outgoing) (returnCodes : List SubscribeReturnCodes) :
    ({ s with env := { s.env with outgoing } } : Client ..).Once
      (packets ++ (w.packet.answer returnCodes).toList) (b.receive w) := by
  have hle (p : Pid) := (publishes_uses_le p).trans (hpids.used_le_one p)
  have hleaked (p : Pid) (hp : s.env.Leaked s.uses p) :
      Env.Leaked { s.env with outgoing } s.uses p := ⟨hp.used, hp.free, hp.lt⟩
  have hother (more : List Packet) (hletter : ∀ p, w.letter? p = none)
      (hmore : ∀ p, more.filterMap (Packet.answer? p) = []) :
      ({ s with env := { s.env with outgoing } } : Client ..).Once (packets ++ more) b :=
    ⟨(h.publishes.arriveOther hout hletter hmore).mono hleaked, h.waiting, h.taken_le_one,
      h.taken_issued⟩
  cases hpacket : w.packet with
  | publish message =>
    cases hqos : message.qospid with
    | exactlyOnce pid =>
      simp only [BrokerSession.receive, Packet.answer, hpacket, hqos, Option.toList_some]
      split
      · rename_i hold
        exact ⟨(h.publishes.arriveCopy hout hpacket hqos hold).mono hleaked, h.waiting,
          h.taken_le_one, h.taken_issued⟩
      · rename_i hnew
        obtain ⟨htaken, e, he, hpid, hrequest⟩ := h.publishes.arriving hout hpacket hqos hnew
        obtain ⟨hqospid, hrecorded⟩ := h.publishes.filed.awaitPubrec e he
        refine ⟨(h.publishes.arriveMessage hle hout hpacket hqos hnew).mono hleaked,
          fun v hv => (h.waiting v hv).imp_right fun hfresh p hp => ?_, fun r => ?_, fun u hu => ?_⟩
        · rw [BrokerSession.taken_concat, hfresh p hp, if_neg]
          intro heq
          have hu : e.publish.uniqueId = v.2 := Option.some.inj (hrequest.symm.trans heq)
          rw [hqospid] at hrecorded
          exact ne_of_waiting hpids hv he (hrecorded.unique (hu ▸ (h.waiting v hv).1))
        · rw [BrokerSession.taken_concat]
          have hr := h.taken_le_one r
          split
          · rename_i heq
            subst heq
            omega
          · omega
        · rw [BrokerSession.taken_concat] at hu
          by_cases heq : w.request = some u
          · rw [hrequest] at heq
            cases heq
            exact hrecorded.lt
          · rw [if_neg heq] at hu
            exact h.taken_issued u hu
    | _ =>
      simp only [BrokerSession.receive, Packet.answer, hpacket, hqos]
      refine hother _ (fun p => ?_) fun p => rfl
      simp [Written.letter?, hpacket, hqos]
  | pubrel pid =>
    simp only [BrokerSession.receive, Packet.answer, hpacket, Option.toList_some]
    exact ⟨(h.publishes.arriveRelease hout hpacket).mono hleaked, h.waiting, h.taken_le_one,
      h.taken_issued⟩
  | _ =>
    simp only [BrokerSession.receive, Packet.answer, hpacket]
    refine hother _ (fun p => ?_) fun p => rfl
    simp [Written.letter?, hpacket]

end Client.Once

/-! ## Runs -/

/-- The exchange of QoS 2 that an answer belongs to. -/
def Packet.handshake : Packet → Option Pid
  | .pubrec pid | .pubcomp pid => some pid
  | _ => none

theorem Packet.handshake_of_answer? {packet : Packet} {p : Pid} {a : ExactlyOnce.Answer}
    (h : packet.answer? p = some a) : packet.handshake = some p := by
  cases packet with
  | pubrec pid =>
    by_cases hpid : pid = p
    · exact congrArg some hpid
    · cases (answer?_pubrec_of_ne hpid).symm.trans h
  | pubcomp pid =>
    by_cases hpid : pid = p
    · exact congrArg some hpid
    · cases (answer?_pubcomp_of_ne hpid).symm.trans h
  | _ => cases h

namespace Session

/-- The broker answers the packets with one pid of QoS 2 in the order in which it received them: it
sends no PUBREC for a PUBLISH after the PUBCOMP that ended its exchange. -/
def InOrder (s : Session QUEUE BUFFER TOPIC) : Label → Prop
  | .brokerAnswer i => ∀ packet ∈ s.owed[i]?, ∀ earlier ∈ s.owed.take i,
      packet.handshake ≠ none → earlier.handshake ≠ packet.handshake
  | _ => True

/-- No send pass of the publishes panics. -/
def NoPanic (topicPathCapacity : Nat) (s : Session QUEUE BUFFER TOPIC) : Label → Prop
  | .client (.sendPublishes answers ticks) =>
    (s.client.outcome topicPathCapacity (.sendPublishes answers ticks)).1 ≠ .error .panic
  | _ => True

/-- The exchanges of QoS 2 between the client and the broker. -/
def Handshakes (s : Session QUEUE BUFFER TOPIC) : Prop :=
  s.client.Once (s.toClient ++ s.owed) s.broker

variable {s s' : Session QUEUE BUFFER TOPIC} {topicPathCapacity : Nat} {l : Label}

/-- An answer that is given in order changes nothing for any exchange. -/
theorem filterMap_answer? {i : Nat} {packet : Packet} (hi : s.owed[i]? = some packet)
    (horder : s.InOrder (.brokerAnswer i)) (p : Pid) :
    (s.toClient ++ [packet] ++ s.owed.eraseIdx i).filterMap (·.answer? p) =
      (s.toClient ++ s.owed).filterMap (·.answer? p) := by
  obtain ⟨hlt, hget⟩ := List.getElem?_eq_some_iff.mp hi
  have howed : s.owed = s.owed.take i ++ packet :: s.owed.drop (i + 1) := by
    rw [← hget, List.getElem_cons_drop, List.take_append_drop]
  rw [List.eraseIdx_eq_take_drop_succ]
  cases hanswer : packet.answer? p with
  | none =>
    conv_rhs => rw [howed]
    simp [hanswer]
  | some a =>
    have hnone : (s.owed.take i).filterMap (·.answer? p) = [] := by
      refine List.filterMap_eq_nil_iff.mpr fun earlier hearlier => ?_
      by_contra hsome
      obtain ⟨a', ha'⟩ := Option.ne_none_iff_exists'.mp hsome
      have hpacket := Packet.handshake_of_answer? hanswer
      refine horder packet hi earlier hearlier (by rw [hpacket]; nofun) ?_
      rw [hpacket, Packet.handshake_of_answer? ha']
    conv_rhs => rw [howed]
    simp [hanswer, hnone]

theorem Handshakes.client {l : Client.Label} (h : s.Handshakes) (hs : s.Sane)
    (hpanic : s.NoPanic topicPathCapacity (.client l)) (hl : ∀ packet, l ≠ .receive packet) :
    (s.client.outcome topicPathCapacity l).2.Once (s.toClient ++ s.owed) s.broker := by
  cases l with
  | publish topic payload qos retain id => exact h.publish topic payload qos retain id
  | poll i => exact h.poll i
  | drop i =>
    have hturn : s.client.env.PidTurn _ s.client.uses
        (s.client.outcome topicPathCapacity (.drop i)).2.env _ := s.client.outcome_turn (.drop i)
    exact h.erase i fun p hp => hturn.leaked hp
  | sendPublishes answers ticks => exact h.sendPublishes hs.pids answers ticks hpanic
  | receive packet => exact absurd rfl (hl packet)
  | _ => exact h.rest rfl

theorem Handshakes.step (h : s.Handshakes) (hs : s.Sane) (horder : s.InOrder l)
    (hpanic : s.NoPanic topicPathCapacity l) (hnext : s.next topicPathCapacity l = some s') :
    s'.Handshakes := by
  cases l with
  | client l =>
    rw [client_next_eq hnext]
    exact h.client hs hpanic fun packet heq => by subst heq; cases hnext
  | clientReceive =>
    obtain ⟨packet, toClient, hin, rfl⟩ := clientReceive_next_eq hnext
    unfold Handshakes at h
    rw [hin] at h
    exact h.receive topicPathCapacity hs.pids
  | brokerReceive returnCodes =>
    obtain ⟨w, outgoing, hout, rfl⟩ := brokerReceive_next_eq hnext
    unfold Handshakes
    dsimp only
    rw [← List.append_assoc]
    exact Client.Once.arrive h hs.pids hout returnCodes
  | brokerAnswer i =>
    obtain ⟨packet, hi, rfl⟩ := brokerAnswer_next_eq hnext
    refine { h with publishes := { h.publishes with lane := fun p => ?_ } }
    dsimp only
    rw [filterMap_answer? hi horder p]
    exact h.publishes.lane p
  | brokerSend packet =>
    obtain ⟨hacks, rfl⟩ := brokerSend_next_eq hnext
    refine { h with publishes := { h.publishes with lane := fun p => ?_ } }
    have hnone : packet.answer? p = none :=
      Packet.answer?_eq_none (by simp [Packet.acksOf, hacks]) p
    have hlane := h.publishes.lane p
    simpa [hnone] using hlane
  | reconnect d =>
    cases hnext
    refine ⟨⟨h.publishes.filed, h.publishes.fresh, fun p => ?_, h.publishes.done⟩, h.waiting,
      h.taken_le_one, h.taken_issued⟩
    obtain ⟨phase, hphase, hsound, hlost⟩ := h.publishes.lane p
    exact ⟨phase, hphase, hsound.reset, fun heq => ⟨(hlost heq).used, (hlost heq).free, (hlost heq).lt⟩⟩

theorem new_handshakes : (new : Session QUEUE BUFFER TOPIC).Handshakes where
  publishes := ⟨⟨nofun, nofun, nofun, nofun, nofun⟩, nofun,
    fun _ => ⟨.idle, rfl, .idle nofun nofun, nofun⟩, nofun⟩
  waiting := nofun
  taken_le_one _ := Nat.zero_le 1
  taken_issued _ hu := absurd rfl hu

instance (l : Label) : Decidable (s.InOrder l) := by
  unfold InOrder
  split <;> infer_instance

instance : (l : Label) → Decidable (s.NoPanic topicPathCapacity l)
  | .client (.sendPublishes _ _) => inferInstanceAs (Decidable (_ ≠ _))
  | .client (.publish ..) | .client (.poll _) | .client (.drop _) | .client (.subscribe ..)
  | .client (.unsubscribe ..) | .client .autoSubscribe | .client .autoSubscribed
  | .client (.sendReceives _) | .client (.sendSubscribes ..) | .client (.sendPing ..)
  | .client (.receive _) | .client (.wait _) | .clientReceive | .brokerReceive _ | .brokerAnswer _
  | .brokerSend _ | .reconnect _ => isTrue trivial

/-- However often packets are written again and connections are lost, a publish of QoS 2 is taken
over at most once, and it is reported as done only after it was. -/
theorem taken_over_once {ls : List Label} {t : Session QUEUE BUFFER TOPIC}
    (hG : AllSteps (next · topicPathCapacity)
      (fun s l => s.InOrder l ∧ s.NoPanic topicPathCapacity l) (new : Session QUEUE BUFFER TOPIC) ls)
    (hr : run (next · topicPathCapacity) new ls = some t) {u : UniqueID} {pid : Pid}
    (hu : t.client.issued[u.request]? = some (some (.exactlyOnce pid))) :
    t.broker.takenOver.count (some u) ≤ 1 ∧
      (.publishDone u ∈ t.client.env.events → t.broker.takenOver.count (some u) = 1) := by
  let I (s : Session QUEUE BUFFER TOPIC) : Prop := s.Sane ∧ s.Handshakes
  have hstep : ∀ s l s', I s → s.InOrder l ∧ s.NoPanic topicPathCapacity l →
      s.next topicPathCapacity l = some s' → I s' := by
    rintro s l s' ⟨hs, h⟩ ⟨horder, hpanic⟩ hnext
    exact ⟨hs.step hnext, h.step hs horder hpanic hnext⟩
  have h : t.Handshakes := (hG.invariant (I := I) hstep ⟨new_sane, new_handshakes⟩ hr).2
  refine ⟨h.taken_le_one _, fun hdone => ?_⟩
  obtain ⟨qospid, hrecorded, htaken⟩ := h.publishes.done u hdone
  exact htaken pid (hrecorded.unique hu)

/-- The PUBREC is lost with the connection, and the publish is written and answered again. -/
def lossyRun : List Label :=
  publishRun .exactlyOnce ++
    [ .brokerAnswer 0, .reconnect (.fromSecs 6), .client (.sendPublishes [.ok true] []),
      .brokerReceive [], .brokerAnswer 0, .clientReceive,
      .client (.sendPublishes [.ok true] []), .brokerReceive [], .brokerAnswer 0, .clientReceive ]

theorem taken_over_once_on_lossyRun : ∃ t : Session 4 8 8,
    run (next · 16) new lossyRun = some t ∧ t.client.env.events = [.publishDone ⟨1, 0⟩] ∧
      t.received.length = 3 ∧ t.broker.takenOver.count (some ⟨1, 0⟩) ≤ 1 ∧
      (.publishDone ⟨1, 0⟩ ∈ t.client.env.events →
        t.broker.takenOver.count (some ⟨1, 0⟩) = 1) := by
  have hrun : (run (next · 16) (new : Session 4 8 8) lossyRun).map
      (fun t => (t.client.env.events, t.received.length, t.client.issued)) =
        some ([.publishDone ⟨1, 0⟩], 3, [some (.exactlyOnce ⟨1, by decide, by decide⟩)]) := by
    decide +kernel
  obtain ⟨t, ht, heq⟩ := Option.map_eq_some_iff.mp hrun
  obtain ⟨hevents, hlength, hissued⟩ : _ ∧ _ ∧ _ := by simpa only [Prod.mk.injEq] using heq
  have hu : t.client.issued[0]? = some (some (.exactlyOnce ⟨1, by decide, by decide⟩)) := by
    rw [hissued]
    rfl
  exact ⟨t, ht, hevents, hlength, taken_over_once (by decide +kernel) ht (u := ⟨1, 0⟩) hu⟩

end Session

end EmbeddedMqttc
