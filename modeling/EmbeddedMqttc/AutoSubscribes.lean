import EmbeddedMqttc.ConnectProgress

/-!
# Auto subscribes

After an accepting CONNACK `connect` subscribes to the configured topics, at most five with each
SUBSCRIBE, and reads one packet after each. It does not compare the pid of a SUBACK, and the return
codes that a SUBACK lacks are not missed: that `connect` returns means that the client is subscribed
if and only if the broker answers with the right pids and with as many codes as topics
(`connected_subscribed_iff`). A PUBLISH among the answers is dropped, and `connect` fails
(`connect_with_publishes_iff`).
-/

namespace EmbeddedMqttc

open Prog

variable {N : Nat} {C : Codec} {w w' : World N} {F : Prop} {d : Nat}

/-! ## The exchanges -/

def AutoSubscribe.toTopic (a : AutoSubscribe) : SubscribeTopic := ⟨a.topic.toList, a.qos⟩

def ClientConfig.chunks (config : ClientConfig) : List (List AutoSubscribe) :=
  TcpConnectionState.chunksOfFive 10 config.autoSubscribes.toList

def chunkRequest (pid : Pid) (chunk : List AutoSubscribe) : Subscribe :=
  ⟨pid, chunk.map AutoSubscribe.toTopic⟩

/-- The SUBSCRIBE packets for some chunks, with the identifiers that the pool hands out. -/
def requests (pool : PidPool PID_POOL_SIZE) (chunks : List (List AutoSubscribe)) : List Subscribe :=
  List.zipWith chunkRequest (pool.upcoming chunks.length) chunks

/-- What the packets that are read while the chunks are subscribed amount to: those that are read, and
the result. There is none if more packets are needed. -/
def answered : List (List AutoSubscribe) → List Packet →
    Option (List Packet × Except MqttError Unit)
  | [], _ => some ([], .ok ())
  | _ :: _, [] => none
  | chunk :: chunks, p :: packets =>
    match TcpConnectionState.checkSuback chunk p with
    | .ok () => (answered chunks packets).map fun r => (p :: r.1, r.2)
    | .error err => some ([p], .error err)

theorem requests_cons {pool pool' : PidPool PID_POOL_SIZE} {pid : Pid}
    {chunk : List AutoSubscribe} {chunks : List (List AutoSubscribe)}
    (h : pool.nextPid = some (pid, pool')) :
    requests pool (chunk :: chunks) = chunkRequest pid chunk :: requests pool' chunks := by
  rw [requests, List.length_cons, PidPool.upcoming_succ h, List.zipWith_cons_cons, requests]

section

variable {chunk : List AutoSubscribe} {chunks : List (List AutoSubscribe)} {p : Packet}
  {packets : List Packet}

theorem answered_ok (h : TcpConnectionState.checkSuback chunk p = .ok ()) :
    answered (chunk :: chunks) (p :: packets) =
      (answered chunks packets).map fun r => (p :: r.1, r.2) := by
  simp only [answered, h]

theorem answered_error {err : MqttError} (h : TcpConnectionState.checkSuback chunk p = .error err) :
    answered (chunk :: chunks) (p :: packets) = some ([p], .error err) := by
  simp only [answered, h]

end

theorem mapM_subscribeTopic_eq_ok {chunk : List AutoSubscribe} {topics : List SubscribeTopic}
    (h : chunk.mapM (TcpConnectionState.subscribeTopic C) = .ok topics) :
    topics = chunk.map AutoSubscribe.toTopic := by
  induction chunk generalizing topics with
  | nil => cases h; rfl
  | cons a chunk ih =>
    rw [List.mapM_cons] at h
    simp only [TcpConnectionState.subscribeTopic] at h
    split at h
    · cases hc : chunk.mapM (TcpConnectionState.subscribeTopic C) with
      | error err => rw [hc] at h; cases h
      | ok topics' =>
        rw [hc] at h
        cases h
        rw [ih hc]
        rfl
    · cases h

theorem mapM_subscribeTopic_of_le {chunk : List AutoSubscribe}
    (h : ∀ a ∈ chunk, a.topic.toList.length ≤ C.topicPathCapacity) :
    chunk.mapM (TcpConnectionState.subscribeTopic C) = .ok (chunk.map AutoSubscribe.toTopic) := by
  induction chunk with
  | nil => rfl
  | cons a chunk ih =>
    have ha := h a List.mem_cons_self
    rw [List.mapM_cons, ih fun b hb => h b (List.mem_cons_of_mem _ hb)]
    simp only [TcpConnectionState.subscribeTopic, ha, if_true]
    rfl

/-- Nothing but the answers of the broker keeps the chunks from being subscribed. -/
structure Feasible (C : Codec) (N : Nat) (pool : PidPool PID_POOL_SIZE)
    (chunks : List (List AutoSubscribe)) (packets : List Packet) : Prop where
  topics : ∀ chunk ∈ chunks, ∀ a ∈ chunk, a.topic.toList.length ≤ C.topicPathCapacity
  pids : (pool.upcoming chunks.length).length = chunks.length
  sendable : ∀ request ∈ requests pool chunks, (C.encode (.subscribe request)).length ≤ N
  fits : ∀ p ∈ packets.take chunks.length, (C.encode p).length ≤ N
  enough : answered chunks packets ≠ none

theorem Feasible.cons {pool : PidPool PID_POOL_SIZE} {chunk : List AutoSubscribe}
    {chunks : List (List AutoSubscribe)} {packets : List Packet}
    (h : Feasible C N pool (chunk :: chunks) packets) :
    ∃ pid pool' p packets', pool.nextPid = some (pid, pool') ∧ packets = p :: packets' ∧
      (C.encode (.subscribe (chunkRequest pid chunk))).length ≤ N ∧ (C.encode p).length ≤ N ∧
      (TcpConnectionState.checkSuback chunk p = .ok () → Feasible C N pool' chunks packets') := by
  obtain ⟨htopics, hpids, hsendable, hfits, henough⟩ := h
  cases hn : pool.nextPid with
  | none =>
    rw [PidPool.upcoming_of_none hn] at hpids
    cases hpids
  | some r =>
    obtain ⟨pid, pool'⟩ := r
    rw [List.length_cons, PidPool.upcoming_succ hn] at hpids
    rw [requests_cons hn] at hsendable
    cases packets with
    | nil => exact absurd rfl henough
    | cons p packets =>
      refine ⟨pid, pool', p, packets, rfl, rfl, hsendable _ List.mem_cons_self,
        hfits p List.mem_cons_self, fun hok => ?_⟩
      refine ⟨fun c hc => htopics c (List.mem_cons_of_mem _ hc), Nat.succ.inj hpids,
        fun r hr => hsendable r (List.mem_cons_of_mem _ hr),
        fun q hq => hfits q (List.mem_cons_of_mem _ hq), fun hnone => henough ?_⟩
      rw [answered_ok hok, hnone, Option.map_none]

/-! ## The loop over the chunks -/

section

variable {S : Packet → Prop} {stream : List Packet} {t : Stage}
variable (hdec : C.Decodes S) (hS : ∀ p ∈ stream, S p)
include hdec hS

theorem Progress.nextPid (hF : F → t.pool.nextPid ≠ none) :
    Triple (Progress C stream F d t) (TcpConnectionState.nextPid : Io N _)
      (fun pid w => ∃ pool, t.pool.nextPid = some (pid, pool) ∧
        Progress C stream F d { t with pool } w)
      (fun _ _ => ¬ F) := by
  intro w hw
  rw [TcpConnectionState.nextPid, exec_get_bind, hw.linked.pool]
  cases hn : t.pool.nextPid with
  | none => exact fun h => hF h hn
  | some r =>
    exact ⟨r.2, rfl, hw.linked.step hdec hS (.silent rfl rfl rfl rfl) hw.linked.connection
      hw.linked.accepted hw.linked.returned rfl hw.linked.lent hw.linked.drained,
      fun h => (hw.supplied h).of_eq rfl rfl rfl⟩

omit hdec hS in
theorem liftExcept_triple {α : Type} {r : Except MqttError α} {P : World N → Prop}
    {Q : α → World N → Prop} {E : Stop MqttError → World N → Prop}
    (hok : ∀ a w, r = .ok a → P w → Q a w) (herr : ∀ err w, r = .error err → P w → E (.fail err) w) :
    Triple P (TcpConnectionState.liftExcept r) Q E := by
  cases r with
  | ok a => exact .pure a fun w hw => hok a w rfl hw
  | error err => exact .throw _ fun w hw => herr err w rfl hw

/-- The loop returns if the packets that follow say so, and then everything has been sent. -/
theorem Progress.subscribeChunks (hC : C.WritesEncoding) (chunks : List (List AutoSubscribe))
    {packets : List Packet} (hstream : stream = t.returned ++ packets) (hlent : t.lent = false)
    (hF : F → C.EncodesIfFits ∧ Feasible C N t.pool chunks packets) :
    Triple (Progress C stream F (d + chunks.length * (2 * N + 1)) t)
      (TcpConnectionState.subscribeChunks C chunks : Io N _)
      (fun _ w => ∃ read t', answered chunks packets = some (read, .ok ()) ∧
        (t.pool.upcoming chunks.length).length = chunks.length ∧
        t'.accepted = t.accepted ++ (requests t.pool chunks).map .subscribe ∧
        t'.returned = t.returned ++ read ∧
        (t.drained = true ∨ chunks ≠ [] → t'.drained = true) ∧
        Progress C stream F d t' w)
      (fun x w => F → ∃ read err, answered chunks packets = some (read, .error err) ∧
        x = .fail err ∧ w.net.returned = t.returned ++ read) := by
  induction chunks generalizing t packets with
  | nil =>
    refine .pure _ fun w hw => ⟨[], t, rfl, rfl, ?_, ?_, fun h => ?_, hw.mono fun _ => ?_⟩
    · rw [requests, List.zipWith_nil_right, List.map_nil, List.append_nil]
    · rw [List.append_nil]
    · exact h.resolve_right fun h => h rfl
    · exact Nat.le_add_right ..
  | cons chunk chunks ih =>
    have hcost : d + (chunk :: chunks).length * (2 * N + 1) =
        d + chunks.length * (2 * N + 1) + 1 + 2 * N := by
      rw [List.length_cons, Nat.succ_mul]
      omega
    rw [hcost]
    have hpid (h : F) : t.pool.nextPid ≠ none := by
      obtain ⟨pid, pool, -, -, hn, -⟩ := (hF h).2.cons
      rw [hn]
      exact nofun
    have hstop (x : Stop MqttError) (w : World N) (h : ¬ F) :
        F → ∃ read err, answered (chunk :: chunks) packets = some (read, .error err) ∧
          x = .fail err ∧ w.net.returned = t.returned ++ read := fun hF => absurd hF h
    refine .bind ((Progress.nextPid hdec hS hpid).weaken (fun _ _ h => h) hstop) fun pid =>
      .exists fun pool => .and_left fun hn => ?_
    have hfeasible (h : F) : C.EncodesIfFits ∧ ∃ p packets', packets = p :: packets' ∧
        (∀ a ∈ chunk, a.topic.toList.length ≤ C.topicPathCapacity) ∧
        (C.encode (.subscribe (chunkRequest pid chunk))).length ≤ N ∧ (C.encode p).length ≤ N ∧
        (TcpConnectionState.checkSuback chunk p = .ok () → Feasible C N pool chunks packets') := by
      obtain ⟨pid', pool', p, packets', hn', hp, hfit, hlen, hcons⟩ := (hF h).2.cons
      cases hn.symm.trans hn'
      exact ⟨(hF h).1, p, packets', hp, (hF h).2.topics chunk List.mem_cons_self, hfit, hlen, hcons⟩
    refine .bind (Q := fun topics w => topics = chunk.map AutoSubscribe.toTopic ∧
      Progress C stream F (d + chunks.length * (2 * N + 1) + 1 + 2 * N) { t with pool } w)
      (liftExcept_triple (fun topics w h hw => ⟨mapM_subscribeTopic_eq_ok h, hw⟩)
        fun err w h _ => hstop _ _ fun hF => ?_) fun topics => .and_left fun htopics => ?_
    · obtain ⟨-, p, packets', -, htopics, -⟩ := hfeasible hF
      rw [mapM_subscribeTopic_of_le htopics] at h
      cases h
    subst htopics
    refine .bind ((Progress.writePacketAsync (d := d + chunks.length * (2 * N + 1) + 1) hdec hS hC
      fun h => ?_).conseq (fun w hw => hw.mono fun h => ?_) (fun _ _ h => h) hstop) fun _ => ?_
    · obtain ⟨hfits, p, packets', -, -, hfit, -⟩ := hfeasible h
      exact ⟨hfits, hfit⟩
    · obtain ⟨-, p, packets', -, -, hfit, -⟩ := hfeasible h
      exact Nat.add_le_add_left (Nat.mul_le_mul_left 2 hfit) _
    refine .bind ((Progress.sendAll hdec hS).weaken (fun _ _ h => h) hstop) fun _ => ?_
    refine .bind ((Progress.readPacket (t := ⟨t.accepted ++ [.subscribe (chunkRequest pid chunk)],
      t.returned, pool, t.lent, true⟩) hdec hS (fun h => ?_) hlent).weaken (fun _ _ h => h) hstop)
        fun p => .and_left fun hp => ?_
    · obtain ⟨-, p, packets', rfl, -, -, hlen, -⟩ := hfeasible h
      exact ⟨p, packets', hstream, hlen⟩
    obtain ⟨packets', hp⟩ := hp
    obtain rfl := List.append_cancel_left (hstream.symm.trans hp)
    refine .bind (Q := fun _ => Progress C stream F (d + chunks.length * (2 * N + 1))
      ⟨t.accepted ++ [.subscribe (chunkRequest pid chunk)], t.returned ++ [p], pool, false, true⟩)
        ((Progress.dropPacket hdec hS).weaken (fun _ _ h => h) hstop) fun _ => ?_
    cases hc : TcpConnectionState.checkSuback chunk p with
    | error err =>
      intro w hw _
      exact ⟨[p], err, answered_error hc, rfl, hw.linked.returned⟩
    | ok u =>
      refine .bind (.pure u fun _ h => h) fun _ =>
        (ih (hp.trans (List.append_cons ..)) rfl fun h => ?_).weaken (fun _ w h => ?_)
          (fun x w h hF => ?_)
      · obtain ⟨hfits, q, packets'', hq, -, -, -, hcons⟩ := hfeasible h
        cases hq
        exact ⟨hfits, hcons hc⟩
      · obtain ⟨read, t', hread, hpids, hacc, hret, hdrained, hw⟩ := h
        refine ⟨p :: read, t', ?_, ?_, ?_, ?_, fun _ => ?_, hw⟩
        · rw [answered_ok hc, hread, Option.map_some]
        · rw [List.length_cons, PidPool.upcoming_succ hn, List.length_cons, hpids]
        · rw [hacc, requests_cons hn, List.map_cons, List.append_assoc, List.singleton_append]
        · rw [hret, List.append_assoc, List.singleton_append]
        · exact hdrained (.inl rfl)
      · obtain ⟨read, err, hread, hx, hret⟩ := h hF
        refine ⟨p :: read, err, ?_, hx, ?_⟩
        · rw [answered_ok hc, hread, Option.map_some]
        · rw [hret, List.append_assoc, List.singleton_append]

/-! ## The whole connect -/

/-- A connect that has returned: what it has read of the stream and what it has written. -/
structure Connected (C : Codec) (config : ClientConfig) (lastWill : Option LastWill)
    (pool : PidPool PID_POOL_SIZE) (stream : List Packet) (w : World N) : Prop where
  inner : w.inner = some .connected
  pids : (pool.upcoming config.chunks.length).length = config.chunks.length
  accepted : w.net.accepted = TcpConnectionState.connectPacket config lastWill ::
    (requests pool config.chunks).map .subscribe
  read : ∃ connack packets read, stream = .connack connack :: packets ∧ connack.code = .accepted ∧
    answered config.chunks packets = some (read, .ok ()) ∧
    w.net.returned = .connack connack :: read
  sent : config.chunks ≠ [] → w.net.tx = Framing.frames C.encode w.net.accepted

/-- A connect that has failed on the answer to a SUBSCRIBE. -/
def Refused (config : ClientConfig) (stream : List Packet) (x : Stop MqttError) (w : World N) :
    Prop :=
  ∃ connack packets read err, stream = .connack connack :: packets ∧
    answered config.chunks packets = some (read, .error err) ∧ x = .fail err ∧
    w.net.returned = .connack connack :: read

/-- What a connect to an accepting broker needs. -/
structure Connectable (C : Codec) (N : Nat) (config : ClientConfig) (lastWill : Option LastWill)
    (pool : PidPool PID_POOL_SIZE) (stream : List Packet) : Prop where
  encodes : C.EncodesIfFits
  connect : (C.encode (TcpConnectionState.connectPacket config lastWill)).length ≤ N
  accepting : ∃ connack packets, stream = .connack connack :: packets ∧ connack.code = .accepted ∧
    (C.encode (.connack connack)).length ≤ N ∧ Feasible C N pool config.chunks packets

variable {config : ClientConfig} {lastWill : Option LastWill} {pool : PidPool PID_POOL_SIZE}

theorem Progress.awaitConnack (hC : C.WritesEncoding) (config : ClientConfig)
    (lastWill : Option LastWill) (hF : F → Connectable C N config lastWill pool stream) :
    Triple (Progress C stream F (d + config.chunks.length * (2 * N + 1))
        ⟨[TcpConnectionState.connectPacket config lastWill], [], pool, false, false⟩)
      (TcpConnectionState.awaitConnack C config : Io N _)
      (fun _ => Connected C config lastWill pool stream)
      (fun x w => F → Refused config stream x w) := by
  have hstop (x : Stop MqttError) (w : World N) (h : ¬ F) : F → Refused config stream x w :=
    fun hF => absurd hF h
  refine .bind ((Progress.readPacket (t := ⟨[TcpConnectionState.connectPacket config lastWill], [],
    pool, false, false⟩) hdec hS (fun h => ?_) rfl).weaken (fun _ _ h => h) hstop)
      fun p => .and_left fun ⟨packets, hp⟩ => ?_
  · obtain ⟨-, -, connack, packets, hp, -, hle, -⟩ := hF h
    exact ⟨_, packets, hp, hle⟩
  rw [List.nil_append] at hp
  refine .bind (Q := fun _ => Progress C stream F (d + config.chunks.length * (2 * N + 1))
    ⟨[TcpConnectionState.connectPacket config lastWill], [p], pool, false, false⟩)
      ((Progress.dropPacket hdec hS).weaken (fun _ _ h => h) hstop) fun _ => ?_
  refine .bind (Q := fun connack w => p = .connack connack ∧ Progress C stream F
    (d + config.chunks.length * (2 * N + 1))
      ⟨[TcpConnectionState.connectPacket config lastWill], [p], pool, false, false⟩ w)
    (liftExcept_triple (fun connack w h hw => ⟨?_, hw⟩) fun err w h _ => hstop _ _ fun h' => ?_)
      fun connack => .and_left fun hconnack => ?_
  · cases p <;> cases h
    rfl
  · obtain ⟨-, -, connack, packets, hp', -⟩ := hF h'
    cases hp.symm.trans hp'
    cases h
  subst hconnack
  have hfeasible (h : F) : connack.code = .accepted ∧ C.EncodesIfFits ∧
      Feasible C N pool config.chunks packets := by
    obtain ⟨hfits, -, connack', packets', hp', hcode, -, hfeasible⟩ := hF h
    cases hp.symm.trans hp'
    exact ⟨hcode, hfits, hfeasible⟩
  unfold TcpConnectionState.processConnack
  split
  · rename_i hcode
    refine .bind ((Progress.subscribeChunks (t := ⟨[TcpConnectionState.connectPacket config lastWill],
      [.connack connack], pool, false, false⟩) hdec hS hC config.chunks hp rfl
        fun h => (hfeasible h).2).weaken (fun _ _ h => h) fun x w h hF => ?_) fun _ => ?_
    · obtain ⟨read, err, hread, hx, hret⟩ := h hF
      exact ⟨connack, packets, read, err, hp, hread, hx, hret⟩
    · refine .modify _ fun w ⟨read, t', hread, hpids, hacc, hret, hdrained, hw⟩ => ?_
      have hacc := hw.linked.accepted.trans hacc
      refine ⟨rfl, hpids, hacc, ⟨connack, packets, read, hp, hcode, hread, ?_⟩, fun h => ?_⟩
      · exact hw.linked.returned.trans hret
      · have hout : w.net.tx ++ w.sendBuffer.reaableData =
            Framing.frames C.encode w.net.accepted := hw.linked.outgoing
        rw [hw.linked.drained (hdrained (.inr h)), List.append_nil] at hout
        exact hout
  all_goals
    rename_i hcode
    refine .bind (Q := fun _ _ => ¬ F) (.modify _ fun w _ h => ?_) fun _ => .throw _ fun w h => hstop _ w h
    cases hcode.symm.trans (hfeasible h).1

theorem Progress.sendConnect (hC : C.WritesEncoding) (config : ClientConfig)
    (lastWill : Option LastWill) (hF : F → C.EncodesIfFits ∧
      (C.encode (TcpConnectionState.connectPacket config lastWill)).length ≤ N) :
    Triple (Progress C stream F (d + 2 * N) ⟨[], [], pool, false, true⟩)
      (TcpConnectionState.sendConnect C config lastWill : Io N _)
      (fun _ => Progress C stream F d
        ⟨[TcpConnectionState.connectPacket config lastWill], [], pool, false, false⟩)
      (fun _ _ => ¬ F) := by
  refine .bind (Q := fun sent w => (F → sent = true) ∧ (sent = true → Progress C stream F d
    ⟨[TcpConnectionState.connectPacket config lastWill], [], pool, false, false⟩ w))
      (fun w hw => ?_) fun sent => .bind (Q := fun _ => Progress C stream F d
    ⟨[TcpConnectionState.connectPacket config lastWill], [], pool, false, false⟩)
      (fun w hw => ?_) fun _ => ?_
  · have hw' : Progress C stream F
        (d + 2 * (C.encode (TcpConnectionState.connectPacket config lastWill)).length)
          ⟨[], [], pool, false, true⟩ w :=
      hw.mono fun h => Nat.add_le_add_left (Nat.mul_le_mul_left 2 (hF h).2) d
    refine (Progress.tryWritePacket hdec hS hC hF w.script.length).weaken (fun sent w h => ?_)
      (fun _ _ h => h) w ⟨hw', rfl⟩
    cases sent with
    | true => exact ⟨fun _ => rfl, fun _ => h.2⟩
    | false => exact absurd (h.2.1.linked.drained rfl) h.2.2
  · rw [exec_ensure]
    by_cases hsent : sent = true
    · rw [if_pos hsent]
      exact hw.2 hsent
    · rw [if_neg hsent]
      exact fun h => hsent (hw.1 h)
  · refine .bind (Q := fun _ => Progress C stream F d
      ⟨[TcpConnectionState.connectPacket config lastWill], [], pool, false, false⟩)
        (fun w hw => (Progress.send hdec hS w).weaken (fun _ _ h => h.1) (fun _ _ h => h) w ⟨rfl, hw⟩)
          fun _ => .modify _ fun w hw => ?_
    exact ⟨hw.linked.step hdec hS (.silent rfl rfl rfl rfl) hw.linked.connection
      hw.linked.accepted hw.linked.returned hw.linked.pool hw.linked.lent hw.linked.drained,
      fun h => (hw.supplied h).of_eq rfl rfl rfl⟩

end

/-! ### The establishment -/

section

variable {R : World N → Prop} (hR : ∀ w ps, R w → R (w.withScript ps))
include hR

theorem awaitAnswer_ready (m : Nat) :
    Triple (fun w => R w ∧ (F → Clean w.script ∧ m + 1 ≤ readies w.script)) (awaitAnswer : Io N _)
      (fun a w => R w ∧ (F → (∃ k, a = .ok k) ∧ Clean w.script ∧ m ≤ readies w.script))
      (fun _ _ => ¬ F) := by
  intro w ⟨hw, hF⟩
  rw [awaitAnswer_exec]
  cases hn : nextAnswer w.script with
  | none =>
    intro h
    obtain ⟨k, ps, hk⟩ := nextAnswer_of_ready (hF h).1 (Nat.lt_of_lt_of_le (Nat.succ_pos m) (hF h).2)
    cases hn.symm.trans hk
  | some r =>
    obtain ⟨a, ps⟩ := r
    refine ⟨hR _ _ hw, fun h => ?_⟩
    have hle := (hF h).2
    obtain ⟨k, qs, hk⟩ := nextAnswer_of_ready (hF h).1 (Nat.lt_of_lt_of_le (Nat.succ_pos m) hle)
    cases hn.symm.trans hk
    obtain ⟨hclean, hready⟩ := nextAnswer_clean (hF h).1 hn
    exact ⟨⟨k, rfl⟩, hclean, by rw [World.withScript_script]; omega⟩

theorem resolve_ready (host : Host) (m : Nat) :
    Triple (fun w => R w ∧ (F → Clean w.script ∧ m + 1 ≤ readies w.script))
      (TcpConnectionState.resolve host : Io N _)
      (fun _ w => R w ∧ (F → Clean w.script ∧ m ≤ readies w.script)) (fun _ _ => ¬ F) := by
  cases host with
  | ip addr => exact .pure _ fun w hw => ⟨hw.1, fun h => ⟨(hw.2 h).1, Nat.le_of_succ_le (hw.2 h).2⟩⟩
  | hostname host =>
    refine .bind (awaitAnswer_ready hR m) fun a => ?_
    cases a with
    | ok k => exact .pure _ fun w hw => ⟨hw.1, fun h => (hw.2 h).2⟩
    | error kind =>
      refine .throw _ fun w hw h => ?_
      obtain ⟨k, hk⟩ := (hw.2 h).1
      cases hk

end

theorem Progress.connectTransport {stream : List Packet} {pool : PidPool PID_POOL_SIZE}
    (closed : Bool) :
    Triple (fun w => (w.pool = pool ∧ w.mapped = none ∧ w.recvBuffer.reaableData = [] ∧
        w.sendBuffer.reaableData = []) ∧
        (F → Clean w.script ∧ (Framing.frames C.encode stream).length + d + 1 ≤ readies w.script))
      (TcpConnectionState.connectTransport (Framing.frames C.encode stream) closed : Io N _)
      (fun _ => Progress C stream F d ⟨[], [], pool, false, true⟩) (fun _ _ => ¬ F) := by
  refine .bind (awaitAnswer_ready (fun _ _ h => h) _) fun a => ?_
  cases a with
  | error kind =>
    refine .throw _ fun w hw h => ?_
    obtain ⟨k, hk⟩ := (hw.2 h).1
    cases hk
  | ok k =>
    refine .modify _ fun w ⟨⟨hpool, hm, hrecv, hsend⟩, hw⟩ => ⟨⟨rfl, ?_, ?_, rfl, rfl, hpool, ?_,
      fun _ => hsend⟩, fun h => ⟨(hw h).2.1, ?_⟩⟩
    · simp only [FramedPipe.Outgoing, World.pipe, hsend, List.append_nil, Framing.frames_nil]
    · refine ⟨by simp only [World.pipe, hm, Option.getD_none, Nat.zero_le], stream, rfl, ?_⟩
      simp only [FramedPipe.unread, World.pipe, hm, hrecv, Option.getD_none, List.drop_nil,
        List.nil_append]
    · rw [hm]
      rfl
    · rw [hsend, List.length_nil, Nat.mul_zero, Nat.zero_add]
      exact (hw h).2.2

/-- Enough polls are ready for a connect, and the state is one in which it may be called. -/
structure Startable (d : Nat) (w : World N) : Prop where
  inner : w.inner = none ∨ w.inner = some .error
  mapped : w.mapped = none
  clean : Clean w.script
  ready : d ≤ readies w.script

theorem Progress.establish {stream : List Packet} {pool : PidPool PID_POOL_SIZE}
    (config : ClientConfig) (closed : Bool) :
    Triple (fun w => w.pool = pool ∧
        (F → Startable ((Framing.frames C.encode stream).length + d + 2) w))
      (ConnectionState.establish config (Framing.frames C.encode stream) closed : Io N _)
      (fun _ => Progress C stream F d ⟨[], [], pool, false, true⟩) (fun _ _ => ¬ F) := by
  refine .get_bind fun s => .bind (Q := fun _ w => w.pool = pool ∧
    (F → Startable ((Framing.frames C.encode stream).length + d + 2) w)) (fun w hw => ?_) fun _ => ?_
  · obtain ⟨rfl, hw⟩ := hw
    rw [exec_ensure]
    by_cases hinner : w.inner = none ∨ w.inner = some .error
    · rw [if_pos hinner]
      exact hw
    · rw [if_neg hinner]
      exact fun h => hinner (hw.2 h).inner
  refine .bind (Q := fun _ w => w.pool = pool ∧ w.mapped = none ∧ (F → Clean w.script ∧
    (Framing.frames C.encode stream).length + d + 2 ≤ readies w.script)) (fun w hw => ?_) fun _ => ?_
  · rw [TcpConnectionState.borrowRecv_exec]
    by_cases hm : w.mapped = none
    · rw [if_pos hm]
      exact ⟨hw.1, hm, fun h => ⟨(hw.2 h).clean, (hw.2 h).ready⟩⟩
    · rw [if_neg hm]
      exact fun h => hm (hw.2 h).mapped
  refine .bind (Q := fun _ w => (w.pool = pool ∧ w.mapped = none ∧ w.recvBuffer.reaableData = [] ∧
    w.sendBuffer.reaableData = []) ∧ (F → Clean w.script ∧
      (Framing.frames C.encode stream).length + d + 2 ≤ readies w.script)) (.modify _ fun w hw => ?_)
        fun _ => ?_
  · exact ⟨⟨hw.1, hw.2.1, StackBuffer.reaableData_reset, StackBuffer.reaableData_reset⟩, hw.2.2⟩
  exact .bind (resolve_ready (fun _ _ h => h) config.host _) fun _ => Progress.connectTransport closed

/-- A connect returns if the packets that are read say so. With enough answers, and to an accepting
broker, it returns or fails on the answer to a SUBSCRIBE. -/
theorem Progress.connect {S : Packet → Prop} {stream : List Packet} {pool : PidPool PID_POOL_SIZE}
    (hdec : C.Decodes S) (hS : ∀ p ∈ stream, S p) (hC : C.WritesEncoding) (config : ClientConfig)
    (lastWill : Option LastWill) (closed : Bool)
    (hF : F → Connectable C N config lastWill pool stream) :
    Triple (fun w => w.pool = pool ∧ (F → Startable ((Framing.frames C.encode stream).length +
        (config.chunks.length * (2 * N + 1) + 2 * N) + 2) w))
      (ConnectionState.connect C config lastWill (Framing.frames C.encode stream) closed : Io N _)
      (fun _ => Connected C config lastWill pool stream)
      (fun x w => F → Refused config stream x w) := by
  have hstop (x : Stop MqttError) (w : World N) (h : ¬ F) : F → Refused config stream x w :=
    fun hF => absurd hF h
  refine .bind (Q := fun _ => Progress C stream F (0 + config.chunks.length * (2 * N + 1))
    ⟨[TcpConnectionState.connectPacket config lastWill], [], pool, false, false⟩) ?_ fun _ =>
      Progress.awaitConnack hdec hS hC config lastWill hF
  rw [Nat.zero_add]
  refine .bind ((Progress.establish config closed).weaken (fun _ _ h => h) hstop) fun _ => ?_
  exact (Progress.sendConnect hdec hS hC config lastWill fun h =>
    ⟨(hF h).encodes, (hF h).connect⟩).weaken (fun _ _ h => h) hstop

theorem connect_connected {S : Packet → Prop} {stream : List Packet} (hdec : C.Decodes S)
    (hS : ∀ p ∈ stream, S p) (hC : C.WritesEncoding) {config : ClientConfig}
    {lastWill : Option LastWill} {closed : Bool}
    (h : (ConnectionState.connect C config lastWill (Framing.frames C.encode stream) closed).exec w =
      (.ok (), w')) : Connected C config lastWill w.pool stream w' :=
  (Progress.connect (F := False) hdec hS hC config lastWill closed nofun).of_ok ⟨rfl, nofun⟩ h

/-! ## Connected and subscribed -/

/-- A SUBACK that carries the pid of the SUBSCRIBE and a success code for each of its topics. -/
def Grants (request : Subscribe) (suback : Suback) : Prop :=
  suback.pid = request.pid ∧
    ∀ i < request.topics.length, ∃ qos, suback.returnCodes[i]? = some (.success qos)

/-- Every configured topic has been written with its QoS in a SUBSCRIBE on this connection, and the
SUBACK that was read in answer to it has the same pid and grants the topic at its position. -/
structure Subscribed (C : Codec) (config : ClientConfig) (net : Net) : Prop where
  exchanges : ∃ (requests : List Subscribe) (subacks : List Suback),
    (requests.map (·.topics)).flatten = config.autoSubscribes.toList.map AutoSubscribe.toTopic ∧
    net.accepted.tail = requests.map .subscribe ∧ net.returned.tail = subacks.map .suback ∧
    List.Forall₂ Grants requests subacks
  sent : config.autoSubscribes.toList ≠ [] → net.tx = Framing.frames C.encode net.accepted

/-- The SUBACK that follows each SUBSCRIBE has its pid and at least as many return codes as it has
topics. -/
def Answers (pool : PidPool PID_POOL_SIZE) (chunks : List (List AutoSubscribe))
    (packets : List Packet) : Prop :=
  ∀ (k : Nat) (pid : Pid) (chunk : List AutoSubscribe) (suback : Suback),
    (pool.upcoming chunks.length)[k]? = some pid → chunks[k]? = some chunk →
      packets[k]? = some (.suback suback) →
        suback.pid = pid ∧ chunk.length ≤ suback.returnCodes.length

theorem flatten_chunksOfFive {α : Type} (n : Nat) (l : List α) (h : l.length ≤ 5 * n) :
    (TcpConnectionState.chunksOfFive n l).flatten = l := by
  induction n generalizing l with
  | zero => cases l with
    | nil => rfl
    | cons a l => simp at h
  | succ n ih => cases l with
    | nil => rfl
    | cons a l =>
      rw [TcpConnectionState.chunksOfFive, List.flatten_cons, ih, List.take_append_drop]
      · rw [List.length_drop]
        omega
      · exact nofun

theorem ClientConfig.flatten_chunks (config : ClientConfig) :
    config.chunks.flatten = config.autoSubscribes.toList :=
  flatten_chunksOfFive 10 _ (Nat.le_trans config.autoSubscribes.length_le (by decide))

theorem topics_requests {pool : PidPool PID_POOL_SIZE} {chunks : List (List AutoSubscribe)}
    (h : (pool.upcoming chunks.length).length = chunks.length) :
    ((requests pool chunks).map (·.topics)).flatten =
      chunks.flatten.map AutoSubscribe.toTopic := by
  have hmap : (requests pool chunks).map (·.topics) = chunks.map (List.map AutoSubscribe.toTopic) := by
    rw [requests, List.map_zipWith]
    generalize pool.upcoming chunks.length = pids at h ⊢
    induction chunks generalizing pids with
    | nil => rw [List.zipWith_nil_right, List.map_nil]
    | cons chunk chunks ih =>
      cases pids with
      | nil => cases h
      | cons pid pids =>
        rw [List.zipWith_cons_cons, ih pids (Nat.succ.inj h), List.map_cons]
        rfl
  rw [hmap, List.map_flatten]

/-- Codes that are not missing are all looked at. -/
theorem processSuback_eq_ok_iff {codes : List SubscribeReturnCodes} {chunk : List AutoSubscribe}
    (h : chunk.length ≤ codes.length) :
    TcpConnectionState.processSuback codes chunk = .ok () ↔
      ∀ i < chunk.length, ∃ qos, codes[i]? = some (.success qos) := by
  induction chunk generalizing codes with
  | nil =>
    refine iff_of_true ?_ fun i hi => absurd hi (Nat.not_lt_zero i)
    cases codes with
    | nil => rfl
    | cons code codes => cases code <;> rfl
  | cons a chunk ih =>
    cases codes with
    | nil => cases Nat.not_lt_zero _ h
    | cons code codes =>
      cases code with
      | failure =>
        refine iff_of_false nofun fun hcodes => ?_
        obtain ⟨qos, hqos⟩ := hcodes 0 (Nat.succ_pos _)
        cases hqos
      | success qos =>
        rw [TcpConnectionState.processSuback, ih (Nat.le_of_succ_le_succ h)]
        constructor
        · intro hcodes i hi
          cases i with
          | zero => exact ⟨qos, rfl⟩
          | succ i => exact hcodes i (Nat.lt_of_succ_lt_succ hi)
        · intro hcodes i hi
          exact hcodes (i + 1) (Nat.succ_lt_succ hi)

theorem Grants.checkSuback {pid : Pid} {chunk : List AutoSubscribe} {suback : Suback}
    (h : Grants (chunkRequest pid chunk) suback) :
    TcpConnectionState.checkSuback chunk (.suback suback) = .ok () := by
  have hcodes : ∀ i < chunk.length, ∃ qos, suback.returnCodes[i]? = some (.success qos) := by
    intro i hi
    exact h.2 i (by rwa [chunkRequest, List.length_map])
  refine (processSuback_eq_ok_iff ?_).mpr hcodes
  by_contra hlt
  obtain ⟨qos, hqos⟩ := hcodes suback.returnCodes.length (Nat.lt_of_not_le hlt)
  rw [List.getElem?_eq_none (Nat.le_refl _)] at hqos
  cases hqos

theorem Grants.of_checkSuback {pid : Pid} {chunk : List AutoSubscribe} {suback : Suback}
    (h : TcpConnectionState.checkSuback chunk (.suback suback) = .ok ()) :
    Grants (chunkRequest pid chunk) suback ↔
      suback.pid = pid ∧ chunk.length ≤ suback.returnCodes.length := by
  refine and_congr_right fun _ => ?_
  rw [chunkRequest, List.length_map]
  constructor
  · intro hcodes
    by_contra hlt
    obtain ⟨qos, hqos⟩ := hcodes suback.returnCodes.length (Nat.lt_of_not_le hlt)
    rw [List.getElem?_eq_none (Nat.le_refl _)] at hqos
    cases hqos
  · exact fun hle => (processSuback_eq_ok_iff hle).mp h

theorem answers_cons {pool pool' : PidPool PID_POOL_SIZE} {pid : Pid} {chunk : List AutoSubscribe}
    {chunks : List (List AutoSubscribe)} {suback : Suback} {packets : List Packet}
    (h : pool.nextPid = some (pid, pool')) :
    Answers pool (chunk :: chunks) (.suback suback :: packets) ↔
      (suback.pid = pid ∧ chunk.length ≤ suback.returnCodes.length) ∧
        Answers pool' chunks packets := by
  unfold Answers
  rw [List.length_cons, PidPool.upcoming_succ h]
  constructor
  · exact fun hall => ⟨hall 0 pid chunk suback rfl rfl rfl, fun k => hall (k + 1)⟩
  · intro ⟨hfirst, hrest⟩ k
    cases k with
    | zero =>
      intro pid' chunk' suback' hpid hchunk hsuback
      cases hpid
      cases hchunk
      cases hsuback
      exact hfirst
    | succ k => exact hrest k

theorem checkSuback_eq_ok {chunk : List AutoSubscribe} {p : Packet}
    (h : TcpConnectionState.checkSuback chunk p = .ok ()) : ∃ suback, p = .suback suback := by
  cases p with
  | suback suback => exact ⟨suback, rfl⟩
  | _ => cases h

/-- The exchanges of a connect that has returned grant all topics if and only if the subacks that were
read carry the right pids and enough codes. -/
theorem exchanges_iff {chunks : List (List AutoSubscribe)} {pool : PidPool PID_POOL_SIZE}
    {packets read : List Packet} (h : answered chunks packets = some (read, .ok ()))
    (hpids : (pool.upcoming chunks.length).length = chunks.length) :
    (∃ subacks : List Suback, read = subacks.map .suback ∧
      List.Forall₂ Grants (requests pool chunks) subacks) ↔ Answers pool chunks packets := by
  induction chunks generalizing pool packets read with
  | nil =>
    cases h
    refine iff_of_true ⟨[], rfl, ?_⟩ ?_
    · rw [requests, List.zipWith_nil_right]
      exact .nil
    · intro k pid chunk suback _ hchunk
      cases hchunk
  | cons chunk chunks ih =>
    cases packets with
    | nil => cases h
    | cons p packets =>
      cases hc : TcpConnectionState.checkSuback chunk p with
      | error err =>
        rw [answered_error hc] at h
        cases h
      | ok u =>
        obtain ⟨suback, rfl⟩ := checkSuback_eq_ok hc
        rw [answered_ok hc] at h
        obtain ⟨⟨read', result⟩, hread, heq⟩ := Option.map_eq_some_iff.mp h
        cases heq
        cases hn : pool.nextPid with
        | none =>
          rw [PidPool.upcoming_of_none hn] at hpids
          cases hpids
        | some r =>
          obtain ⟨pid, pool'⟩ := r
          rw [List.length_cons, PidPool.upcoming_succ hn] at hpids
          rw [answers_cons hn, ← Grants.of_checkSuback hc, ← ih hread (Nat.succ.inj hpids),
            requests_cons hn]
          constructor
          · rintro ⟨subacks, hsubacks, hgrants⟩
            cases hgrants with
            | cons hfirst hrest =>
              cases hsubacks
              exact ⟨hfirst, _, rfl, hrest⟩
          · rintro ⟨hfirst, subacks, rfl, hrest⟩
            exact ⟨suback :: subacks, rfl, .cons hfirst hrest⟩

/-- A connect that returns has written every configured topic, and the topics are granted by the
subacks that it has read if and only if each of these has the pid of the SUBSCRIBE before it and at
least as many return codes as that has topics; `connect` looks at neither. -/
theorem connected_subscribed_iff {S : Packet → Prop} {stream : List Packet} (hC : C.WritesEncoding)
    (hdec : C.Decodes S) (hS : ∀ p ∈ stream, S p) {config : ClientConfig}
    {lastWill : Option LastWill} {closed : Bool}
    (h : (ConnectionState.connect C config lastWill (Framing.frames C.encode stream) closed).exec w =
      (.ok (), w')) :
    w'.inner = some .connected ∧
      (Subscribed C config w'.net ↔ Answers w.pool config.chunks stream.tail) := by
  obtain ⟨hinner, hpids, hacc, ⟨connack, packets, read, rfl, -, hread, hret⟩, hsent⟩ :=
    connect_connected hdec hS hC h
  refine ⟨hinner, ?_⟩
  rw [List.tail_cons, ← exchanges_iff hread hpids]
  constructor
  · rintro ⟨⟨requests', subacks, -, hacc', hret', hgrants⟩, -⟩
    rw [hacc, List.tail_cons] at hacc'
    rw [hret, List.tail_cons] at hret'
    have hrequests := List.map_injective_iff.mpr (fun _ _ => Packet.subscribe.inj) hacc'
    exact ⟨subacks, hret', hrequests ▸ hgrants⟩
  · rintro ⟨subacks, hsubacks, hgrants⟩
    refine ⟨⟨requests w.pool config.chunks, subacks, ?_, ?_, ?_, hgrants⟩, fun hne => hsent ?_⟩
    · rw [topics_requests hpids, config.flatten_chunks]
    · rw [hacc, List.tail_cons]
    · rw [hret, List.tail_cons, hsubacks]
    · intro hnil
      rw [← config.flatten_chunks, hnil] at hne
      exact hne rfl

theorem Subscribed.grants {net : Net} {config : ClientConfig} (h : Subscribed C config net) {k : Nat}
    {request : Subscribe} {suback : Suback} (hacc : net.accepted.tail[k]? = some (.subscribe request))
    (hret : net.returned.tail[k]? = some (.suback suback)) : Grants request suback := by
  obtain ⟨requests, subacks, -, hacc', hret', hgrants⟩ := h.exchanges
  rw [hacc', List.getElem?_map] at hacc
  rw [hret', List.getElem?_map] at hret
  obtain ⟨_, hrequest, heq⟩ := Option.map_eq_some_iff.mp hacc
  cases heq
  obtain ⟨_, hsuback, heq⟩ := Option.map_eq_some_iff.mp hret
  cases heq
  obtain ⟨hk, rfl⟩ := List.getElem?_eq_some_iff.mp hrequest
  obtain ⟨hk', rfl⟩ := List.getElem?_eq_some_iff.mp hsuback
  exact List.forall₂_iff_get.mp hgrants |>.2 k hk hk'

/-! ### A client with one auto subscribe -/

def subscribingConfig : ClientConfig :=
  { sampleConfig with autoSubscribes := ⟨[⟨⟨[116], by decide⟩, .atLeastOnce⟩], by decide⟩ }

def acceptingConnack : Connack := ⟨false, .accepted⟩

def pid1 : Pid := ⟨1, Nat.one_pos, Pid.one_lt⟩

def pid7 : Pid := ⟨7, by decide, by decide⟩

/-- The connect of this client when the connack and `packets` arrive at once. -/
def subscribingConnect (packets : List Packet) : Except (Stop MqttError) Unit × World 64 :=
  (ConnectionState.connect (wireWith Wire.parseAnswer) subscribingConfig none
    (Framing.frames (wireWith Wire.parseAnswer).encode (.connack acceptingConnack :: packets))
      false).exec (World.new [.ready 0, .ready 100, .ready 0, .ready 100, .ready 100, .ready 0])

theorem subscribingConnect_not_subscribed :
    ((subscribingConnect [.suback ⟨pid7, [.success .atLeastOnce]⟩]).1 = .ok () ∧
      ¬ Subscribed (wireWith Wire.parseAnswer) subscribingConfig
        (subscribingConnect [.suback ⟨pid7, [.success .atLeastOnce]⟩]).2.net) ∧
    (subscribingConnect [.suback ⟨pid1, []⟩]).1 = .ok () ∧
      ¬ Subscribed (wireWith Wire.parseAnswer) subscribingConfig
        (subscribingConnect [.suback ⟨pid1, []⟩]).2.net := by
  refine ⟨⟨by decide +kernel, fun h => ?_⟩, by decide +kernel, fun h => ?_⟩
  · have hgrants : Grants ⟨pid1, [⟨[116], .atLeastOnce⟩]⟩
        ⟨pid7, [.success .atLeastOnce]⟩ :=
      h.grants (k := 0) (by decide +kernel) (by decide +kernel)
    exact absurd hgrants.1 (by decide)
  · have hgrants : Grants ⟨pid1, [⟨[116], .atLeastOnce⟩]⟩
        ⟨pid1, []⟩ := h.grants (k := 0) (by decide +kernel) (by decide +kernel)
    obtain ⟨qos, hqos⟩ := hgrants.2 0 Nat.one_pos
    cases hqos

theorem connected_subscribed_iff_on_subscribingConnect :
    (subscribingConnect [.suback ⟨pid1, [.success .atLeastOnce]⟩]).2.inner = some .connected ∧
      (Subscribed (wireWith Wire.parseAnswer) subscribingConfig
        (subscribingConnect [.suback ⟨pid1, [.success .atLeastOnce]⟩]).2.net ↔
        Answers .new subscribingConfig.chunks [.suback ⟨pid1, [.success .atLeastOnce]⟩]) := by
  have hok : (subscribingConnect [.suback ⟨pid1, [.success .atLeastOnce]⟩]).1 = .ok () := by decide +kernel
  have hS : ∀ p ∈ [.connack acceptingConnack, .suback ⟨pid1, [.success .atLeastOnce]⟩],
      Wire.FixedWith Wire.parseAnswer p := by decide +kernel
  unfold subscribingConnect at hok ⊢
  exact connected_subscribed_iff (Wire.writesEncodingWith _) (Wire.decodesWith _) hS
    (exec_eq_of_fst hok)

/-! ## Messages during the auto subscribes -/

def Packet.isPublish : Packet → Bool
  | .publish _ => true
  | _ => false

theorem Packet.isPublish_eq_true {p : Packet} (h : p.isPublish = true) : ∃ m, p = .publish m := by
  cases p with
  | publish m => exact ⟨m, rfl⟩
  | _ => cases h

/-- A broker accepts the connection and grants all subscriptions; messages come in between. -/
structure Interleaved (config : ClientConfig) (pool : PidPool PID_POOL_SIZE) (connack : Connack)
    (packets : List Packet) : Prop where
  code : connack.code = .accepted
  subacks : ∃ subacks : List Suback, packets.filter (fun p => !p.isPublish) = subacks.map .suback ∧
    List.Forall₂ Grants (requests pool config.chunks) subacks

/-- What the connect itself needs: the packets that it writes and the answers fit in the buffers, the
topics in those of the codec, and the pool has identifiers left. -/
structure Fitting (C : Codec) (N : Nat) (config : ClientConfig) (lastWill : Option LastWill)
    (pool : PidPool PID_POOL_SIZE) (stream : List Packet) : Prop where
  encodes : C.EncodesIfFits
  topics : MAX_TOPIC_SIZE ≤ C.topicPathCapacity
  pids : (pool.upcoming config.chunks.length).length = config.chunks.length
  connect : (C.encode (TcpConnectionState.connectPacket config lastWill)).length ≤ N
  requests : ∀ request ∈ requests pool config.chunks, (C.encode (.subscribe request)).length ≤ N
  answers : ∀ p ∈ stream, p.isPublish = false → (C.encode p).length ≤ N

/-- `connect` has returned and has left all messages of the stream to the loop that delivers them. -/
def LeavesMessages (stream : List Packet) (w : World N) : Prop :=
  ∃ rest, stream = w.net.returned ++ rest ∧ rest.filter Packet.isPublish = stream.filter Packet.isPublish

/-- The answers decide after the subacks, or at the first message before the last of them. -/
theorem answered_interleaved {chunks : List (List AutoSubscribe)} {pool : PidPool PID_POOL_SIZE}
    {packets : List Packet} {subacks : List Suback}
    (hpids : (pool.upcoming chunks.length).length = chunks.length)
    (hfilter : packets.filter (fun p => !p.isPublish) = subacks.map .suback)
    (hgrants : List.Forall₂ Grants (requests pool chunks) subacks) :
    (∀ p ∈ packets.take chunks.length, p.isPublish = false) ∧
        answered chunks packets = some (packets.take chunks.length, .ok ()) ∨
      ∃ read m, .publish m ∈ packets.take chunks.length ∧
        answered chunks packets = some (read ++ [.publish m], .error .connackError) := by
  induction chunks generalizing pool packets subacks with
  | nil => exact .inl ⟨nofun, rfl⟩
  | cons chunk chunks ih =>
    cases hn : pool.nextPid with
    | none =>
      rw [PidPool.upcoming_of_none hn] at hpids
      cases hpids
    | some r =>
      obtain ⟨pid, pool'⟩ := r
      rw [List.length_cons, PidPool.upcoming_succ hn] at hpids
      rw [requests_cons hn] at hgrants
      cases hgrants with
      | @cons _ suback _ subacks hfirst hrest =>
        cases packets with
        | nil => cases hfilter
        | cons p packets =>
          cases hp : p.isPublish with
          | true =>
            obtain ⟨m, rfl⟩ := Packet.isPublish_eq_true hp
            exact .inr ⟨[], m, List.mem_cons_self, answered_error rfl⟩
          | false =>
            rw [List.filter_cons_of_pos (by rw [hp]; rfl), List.map_cons] at hfilter
            obtain ⟨rfl, htail⟩ := List.cons.inj hfilter
            rcases ih (Nat.succ.inj hpids) htail hrest with ⟨hnone, hread⟩ | ⟨read, m, hm, hread⟩
            · refine .inl ⟨fun q hq => ?_, ?_⟩
              · rcases List.mem_cons.mp hq with rfl | hq
                · exact hp
                · exact hnone q hq
              · rw [answered_ok hfirst.checkSuback, hread, Option.map_some]
                rfl
            · refine .inr ⟨.suback suback :: read, m, List.mem_cons_of_mem _ hm, ?_⟩
              rw [answered_ok hfirst.checkSuback, hread, Option.map_some]
              rfl

theorem Fitting.connectable {pool : PidPool PID_POOL_SIZE} {config : ClientConfig}
    {lastWill : Option LastWill} {connack : Connack} {packets : List Packet}
    {r : List Packet × Except MqttError Unit}
    (h : Fitting C N config lastWill pool (.connack connack :: packets))
    (hcode : connack.code = .accepted)
    (hfits : ∀ p ∈ packets.take config.chunks.length, (C.encode p).length ≤ N)
    (hread : answered config.chunks packets = some r) :
    Connectable C N config lastWill pool (.connack connack :: packets) := by
  refine ⟨h.encodes, h.connect, connack, packets, rfl, hcode,
    h.answers _ List.mem_cons_self rfl, fun chunk _ a _ => ?_, h.pids, h.requests, hfits, ?_⟩
  · exact Nat.le_trans a.topic.length_le h.topics
  · rw [hread]
    exact nofun

section

variable {S : Packet → Prop} {config : ClientConfig} {lastWill : Option LastWill} {closed : Bool}
  {connack : Connack} {packets : List Packet} {polls : Nat → Poll}

variable (closed) in
/-- With a transport that is ready again and again, a connect to an accepting broker comes to an end as
soon as the packets of the stream decide. -/
theorem connect_ends (hC : C.WritesEncoding) (hdec : C.Decodes S)
    (hS : ∀ p ∈ Packet.connack connack :: packets, S p)
    (hconnect : Connectable C N config lastWill w.pool (.connack connack :: packets))
    (hinner : w.inner = none ∨ w.inner = some .error) (hm : w.mapped = none)
    (hclean : ∀ i kind, polls i ≠ .error kind) (hready : ∀ i, ∃ j, i ≤ j ∧ ∃ k, polls j = .ready k) :
    ∃ n w', ((ConnectionState.connect C config lastWill
          (Framing.frames C.encode (.connack connack :: packets)) closed).exec
        (w.withScript (polled polls n)) = (.ok (), w') ∧
          Connected C config lastWill w.pool (.connack connack :: packets) w') ∨
      ∃ x, (ConnectionState.connect C config lastWill
          (Framing.frames C.encode (.connack connack :: packets)) closed).exec
        (w.withScript (polled polls n)) = (.error x, w') ∧
          Refused config (.connack connack :: packets) x w' := by
  obtain ⟨n, hn⟩ := exists_readies_polled hready
    ((Framing.frames C.encode (.connack connack :: packets)).length +
      (config.chunks.length * (2 * N + 1) + 2 * N) + 2)
  refine ⟨n, ?_⟩
  have h := Progress.connect (F := True) hdec hS hC config lastWill closed (fun _ => hconnect)
    (w.withScript (polled polls n)) ⟨rfl, fun _ => ⟨hinner, hm, clean_polled hclean n, hn.le⟩⟩
  rcases he : (ConnectionState.connect C config lastWill
    (Framing.frames C.encode (.connack connack :: packets)) closed).exec
      (w.withScript (polled polls n)) with ⟨x | u, w'⟩
  · rw [he] at h
    exact ⟨w', .inr ⟨x, rfl, h trivial⟩⟩
  · rw [he] at h
    exact ⟨w', .inl ⟨rfl, h⟩⟩

/-- A connect to a broker that accepts and grants everything returns, and leaves the messages of the
stream to the loop, if and only if no message arrives before the last SUBACK. A message that does is
read, dropped and reported as a wrong answer. -/
theorem connect_with_publishes_iff (hC : C.WritesEncoding) (hdec : C.Decodes S)
    (hS : ∀ p ∈ Packet.connack connack :: packets, S p)
    (hstream : Interleaved config w.pool connack packets)
    (hfit : Fitting C N config lastWill w.pool (.connack connack :: packets))
    (hinner : w.inner = none ∨ w.inner = some .error) (hm : w.mapped = none)
    (hclean : ∀ i kind, polls i ≠ .error kind) (hready : ∀ i, ∃ j, i ≤ j ∧ ∃ k, polls j = .ready k) :
    ((∃ n w', (ConnectionState.connect C config lastWill
          (Framing.frames C.encode (.connack connack :: packets)) closed).exec
        (w.withScript (polled polls n)) = (.ok (), w') ∧
          LeavesMessages (.connack connack :: packets) w') ↔
      ∀ p ∈ packets.take config.chunks.length, p.isPublish = false) ∧
    ((∃ p ∈ packets.take config.chunks.length, p.isPublish = true) →
      (∀ p ∈ packets, (C.encode p).length ≤ N) →
        ∃ n w' m, (ConnectionState.connect C config lastWill
            (Framing.frames C.encode (.connack connack :: packets)) closed).exec
          (w.withScript (polled polls n)) = (.error (.fail .connackError), w') ∧
            .publish m ∈ w'.net.returned) := by
  obtain ⟨hcode, subacks, hfilter, hgrants⟩ := hstream
  have hcases := answered_interleaved hfit.pids hfilter hgrants
  refine ⟨⟨?_, fun hnone => ?_⟩, ?_⟩
  · rintro ⟨n, w', hok, -⟩
    have hconnected := connect_connected hdec hS hC hok
    obtain ⟨connack', packets', read, heq, -, hread, -⟩ := hconnected.read
    cases heq
    rcases hcases with ⟨hnone, -⟩ | ⟨read', m, -, hread'⟩
    · exact hnone
    · cases hread.symm.trans hread'
  · rcases hcases with ⟨-, hread⟩ | ⟨read, m, hmem, -⟩
    · have hconnect := hfit.connectable hcode (fun p hp => hfit.answers p
        (List.mem_cons_of_mem _ (List.mem_of_mem_take hp)) (hnone p hp)) hread
      obtain ⟨n, w', ⟨hok, hconnected⟩ | ⟨x, -, href⟩⟩ :=
        connect_ends closed hC hdec hS hconnect hinner hm hclean hready
      · refine ⟨n, w', hok, packets.drop config.chunks.length, ?_, ?_⟩
        · obtain ⟨connack', packets', read, heq, -, hread', hret⟩ := hconnected.read
          cases heq
          cases hread.symm.trans hread'
          rw [hret, List.cons_append, List.take_append_drop]
        · have hsplit : packets.filter Packet.isPublish =
              (packets.drop config.chunks.length).filter Packet.isPublish := by
            conv => lhs; rw [← List.take_append_drop config.chunks.length packets]
            rw [List.filter_append, List.filter_eq_nil_iff.mpr, List.nil_append]
            intro p hp
            rw [hnone p hp]
            exact Bool.false_ne_true
          exact hsplit.symm
      · obtain ⟨_, _, read, err, heq, hread', -⟩ := href
        cases heq
        cases hread.symm.trans hread'
    · cases (hnone _ hmem)
  · rintro ⟨p, hp, hpublish⟩ hfits
    rcases hcases with ⟨hnone, -⟩ | ⟨read, m, -, hread⟩
    · cases hpublish.symm.trans (hnone p hp)
    · have hconnect := hfit.connectable hcode (fun p hp => hfits p (List.mem_of_mem_take hp)) hread
      obtain ⟨n, w', ⟨-, hconnected⟩ | ⟨x, herr, href⟩⟩ :=
        connect_ends closed hC hdec hS hconnect hinner hm hclean hready
      · obtain ⟨_, _, read', heq, -, hread', -⟩ := hconnected.read
        cases heq
        cases hread.symm.trans hread'
      · obtain ⟨_, _, read', err, heq, hread', rfl, hret⟩ := href
        cases heq
        cases hread.symm.trans hread'
        refine ⟨n, w', m, herr, ?_⟩
        rw [hret]
        exact List.mem_cons_of_mem _ (List.mem_append_right _ List.mem_cons_self)

end

def message : Packet := .publish ⟨false, .atMostOnce, false, [116], [1]⟩

theorem requests_subscribingConfig : requests .new subscribingConfig.chunks =
    [⟨pid1, [⟨[116], .atLeastOnce⟩]⟩] := by decide +kernel

theorem granted_subscribingConfig : List.Forall₂ Grants (requests .new subscribingConfig.chunks)
    [⟨pid1, [.success .atLeastOnce]⟩] := by
  rw [requests_subscribingConfig]
  refine .cons ⟨rfl, fun i hi => ?_⟩ .nil
  obtain rfl : i = 0 := Nat.lt_one_iff.mp hi
  exact ⟨_, rfl⟩

theorem subscribingConnect_drops_message :
    Interleaved subscribingConfig .new acceptingConnack
        [message, .suback ⟨pid1, [.success .atLeastOnce]⟩] ∧
      (subscribingConnect [message, .suback ⟨pid1, [.success .atLeastOnce]⟩]).1 =
        .error (.fail .connackError) ∧
      message ∈ (subscribingConnect [message, .suback ⟨pid1, [.success .atLeastOnce]⟩]).2.net.returned :=
  ⟨⟨rfl, _, rfl, granted_subscribingConfig⟩, by decide +kernel, by decide +kernel⟩

theorem connect_with_publishes_iff_on_subscribingConfig :
    ∃ n w', (ConnectionState.connect (wireWith Wire.parseAnswer) subscribingConfig none
        (Framing.frames (wireWith Wire.parseAnswer).encode
          [.connack acceptingConnack, .suback ⟨pid1, [.success .atLeastOnce]⟩, message]) false).exec
      ((World.new [] : World 64).withScript (polled (fun _ => .ready 0) n)) = (.ok (), w') ∧
        LeavesMessages [.connack acceptingConnack, .suback ⟨pid1, [.success .atLeastOnce]⟩, message] w' :=
  (connect_with_publishes_iff (Wire.writesEncodingWith _) (Wire.decodesWith _) (by decide +kernel)
    ⟨rfl, _, rfl, granted_subscribingConfig⟩
    ⟨Wire.encodesIfFitsWith _, by decide, by decide +kernel, by decide +kernel, by decide +kernel,
      by decide +kernel⟩ (.inl rfl) rfl
    (fun _ _ => by simp) fun i => ⟨i, Nat.le_refl i, 0, rfl⟩).1.mpr (by decide +kernel)

end EmbeddedMqttc
