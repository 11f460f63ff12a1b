import EmbeddedMqttc.PublishCopies
import EmbeddedMqttc.PendingScan
import EmbeddedMqttc.ResendScan
import EmbeddedMqttc.SentAll

/-!
# A send pass of the publishes

A pass writes the first PUBRELs of `send_pubrel`, then of each QoS the first messages of
`send_publish`, and then again what is due. It stops at the first packet that is refused. The only
panic is that of a PUBREL without unique id.
-/

namespace EmbeddedMqttc

open Prog EmbeddedMqttc.Comp Run

/-! ## A scan with a reading of the clock -/

namespace Resend

variable {σ α β : Type} {n : Nat} (r : Resend σ α n) (π : σ → β)

/-- `let now = time::now()` and the scan after it. -/
def clocked : Comp σ SendResult := do
  let now ← timeNow
  r.scan now (pure now)

/-- What a scan with its own reading of the clock does. It leaves `π` alone. -/
structure Rewrote (c : Ctx σ) (res : Except (Stop MqttError) SendResult) (c' : Ctx σ) : Prop where
  written : ∃ ws, c'.env.written = c.env.written ++ ws ∧
    ∀ w ∈ ws, ∃ a ∈ r.queue c.inner, r.again (c.env.reading 1) a = some w
  settled : res = .ok .sentAll → ∀ a ∈ r.queue c'.inner, ¬r.due (c.env.reading 1) a
  ne_panic : res ≠ .error .panic
  ticked : c.env.Ticked 1 c'.env
  frame : π c'.inner = π c.inner

variable {π}

/-- A scan that gives its entries the time at which it began reads no clock. -/
theorem scan_frame (now : Instant) (hπ : ∀ i s, π (r.modify (·.modifyAt i (r.mark now)) s) = π s)
    (c : Ctx σ) :
    ((r.scan now (pure now)).exec c).1 ≠ .error .panic ∧
      c.env.Ticked 0 ((r.scan now (pure now)).exec c).2.env ∧
      π ((r.scan now (pure now)).exec c).2.inner = π c.inner := by
  let R (c c' : Ctx σ) : Prop := c.env.Ticked 0 c'.env ∧ π c'.inner = π c.inner
  have hexits : ExitsAt R Fails (r.scan now (pure now)) c := by
    refine Resend.scan_exits (J := fun _ => True) (fun c e => Fails.fail c e)
      (fun c _ => ⟨⟨.congr .refl rfl rfl, rfl⟩, trivial⟩) (fun c i a packet _ _ _ _ => ?_) trivial
    exact ⟨_, rfl, ⟨.congr .refl rfl rfl, hπ i c.inner⟩, trivial⟩
  have hstep (c₁ c₂ : Ctx σ) (h : R c₁ c₂) (hc : R c c₁) : R c c₂ :=
    ⟨hc.1.trans h.1, h.2.trans hc.2⟩
  refine ⟨fun hpanic => ?_, (Fails.movesAt hexits).invariant (I := R c) hstep ⟨.refl, rfl⟩⟩
  obtain ⟨t, -, -, e, he⟩ := hexits.2 _ hpanic
  cases he

theorem clocked_rewrote (hr : r.Lawful)
    (hπ : ∀ now i s, π (r.modify (·.modifyAt i (r.mark now)) s) = π s) (c : Ctx σ) :
    ∃ res c', r.clocked.exec c = (res, c') ∧ Rewrote r π c res c' := by
  have hread := Env.Ticked.read c.env
  obtain ⟨res, c', hexec, hscanned⟩ := scan_scanned (c := { c with env := c.env.read }) hr
    (@stampsFrom_pure _ c.env.read.now) (Nat.le_refl _)
  obtain ⟨hpanic, hticked, hframe⟩ :=
    r.scan_frame c.env.read.now (hπ _) { c with env := c.env.read }
  rw [hexec] at hpanic hticked hframe
  rw [hread.now] at hscanned
  obtain ⟨k, -, hwritten⟩ := hscanned.written
  refine ⟨res, c', ?_, ⟨_, hwritten, fun w hw => ?_⟩, hscanned.settled, hpanic, hread.trans hticked,
    hframe⟩
  · rw [clocked, timeNow_bind_exec, hexec]
  · obtain ⟨a, ha, hagain⟩ := List.mem_filterMap.mp hw
    exact ⟨a, List.mem_of_mem_take ha, hagain⟩

end Resend

variable {QUEUE BUFFER TOPIC : Nat}

namespace PublishesInner

/-! ## The two loops -/

def publishPending : Pending (PublishesInner QUEUE BUFFER TOPIC) (OwnedPublish BUFFER TOPIC) QoS
    (BoundedVec SendPubrel QUEUE × BoundedVec AwaitPubcomp QUEUE) QUEUE where
  queue q := q.sendPublish
  kind e := e.qospid.qos
  space := hasSpace
  offer e := ⟨e.borrow, some e.uniqueId⟩
  reads e := if e.qospid.qos = .atMostOnce then 0 else 1
  rest q := (q.sendPubrel, q.awaitPubcomp)
  unowned _ := False

def pubrelPending : Pending (PublishesInner QUEUE BUFFER TOPIC) SendPubrel Unit
    (BoundedVec (OwnedPublish BUFFER TOPIC) QUEUE × BoundedVec (AwaitPuback BUFFER TOPIC) QUEUE ×
      BoundedVec (AwaitPubrec BUFFER TOPIC) QUEUE) QUEUE where
  queue q := q.sendPubrel
  kind _ := ()
  space q _ := !q.awaitPubcomp.isFull
  offer e := ⟨.pubrel e.pid, e.uniqueId⟩
  reads _ := 1
  rest q := (q.sendPublish, q.awaitPuback, q.awaitPubrec)
  unowned e := e.uniqueId = none

variable {c : Ctx (PublishesInner QUEUE BUFFER TOPIC)} {i : Nat}

theorem Stored.took {current : OwnedPublish BUFFER TOPIC}
    {s : Ctx (PublishesInner QUEUE BUFFER TOPIC)} (h : Stored c i current s)
    (hspace : c.inner.hasSpace current.qospid.qos = true) :
    publishPending.Took c i current s := by
  cases h with
  | atMostOnce hq =>
    have hreads : (@publishPending QUEUE BUFFER TOPIC).reads current = 0 := by
      simp [publishPending, hq, QosPid.qos]
    exact ⟨hspace, rfl, rfl, hreads ▸ .congr .refl rfl rfl, rfl⟩
  | atLeastOnce hq | exactlyOnce hq =>
    have hreads : (@publishPending QUEUE BUFFER TOPIC).reads current = 1 := by
      simp [publishPending, hq, QosPid.qos]
    exact ⟨hspace, rfl, rfl, hreads ▸ .wrote_read .., rfl⟩

theorem sendPendingPublishesTurn_turned {current : OwnedPublish BUFFER TOPIC}
    (hi : c.inner.sendPublish.get? i = some current) :
    ∃ r s, (sendPendingPublishesTurn i).exec c = (r, s) ∧
      publishPending.Turned c i current r s := by
  rcases sendPendingPublishesTurn_cases hi with ⟨hspace, h⟩ | h | ⟨e, h⟩ | ⟨s, hspace, hstored, h⟩
  · exact ⟨_, _, h, .blocked hspace⟩
  · exact ⟨_, _, h, .refused⟩
  · exact ⟨_, _, h, .failed e⟩
  · exact ⟨_, _, h, .sent (hstored.took hspace) hstored.full⟩

theorem sendPendingPubrelTurn_turned {current : SendPubrel}
    (hi : c.inner.sendPubrel.get? i = some current) :
    ∃ r s, (sendPendingPubrelTurn i).exec c = (r, s) ∧ pubrelPending.Turned c i current r s := by
  unfold sendPendingPubrelTurn
  rw [exec_get_bind, hi, exec_unwrap_some_bind]
  cases hfull : c.inner.awaitPubcomp.isFull with
  | true => exact ⟨_, _, rfl, .blocked (by simp [pubrelPending, hfull])⟩
  | false =>
    have hspace : pubrelPending.space c.inner () = true := by
      simp [pubrelPending, hfull]
    rw [Bool.not_false, if_pos rfl]
    rcases tryWritePacket_cases c ⟨.pubrel current.pid, current.uniqueId⟩ with hw | hw | ⟨e, hw⟩
    · let removed : PublishesInner QUEUE BUFFER TOPIC :=
        { c.inner with sendPubrel := c.inner.sendPubrel.removeAt i }
      let env := c.env.wrote ⟨.pubrel current.pid, current.uniqueId⟩
      obtain ⟨pid, uniqueId⟩ := current
      cases uniqueId with
      | none =>
        refine ⟨.error .panic, ⟨removed, env.read⟩, ?_,
          .broken ⟨hspace, rfl, rfl, .wrote_read .., rfl⟩ rfl⟩
        simp [exec_bind_ok hw, AwaitPubcomp.from, exec_bind, removed, env]
      | some uniqueId =>
        obtain ⟨queue, hpush⟩ := BoundedVec.exists_push hfull
          { pid, pubrelSent := env.read.now, uniqueId }
        refine ⟨.ok (.inr i), ⟨{ removed with awaitPubcomp := queue }, env.read⟩, ?_,
          .sent ⟨hspace, rfl, rfl, .wrote_read .., rfl⟩ fun _ hblocked => ?_⟩
        · simp [exec_bind_ok hw, AwaitPubcomp.from, exec_bind, hpush, removed, env]
        · simp [pubrelPending, hfull] at hblocked
    · exact ⟨_, _, exec_bind_ok hw, .refused⟩
    · exact ⟨_, _, exec_bind_error hw, .failed e⟩

theorem sendPendingPubrel_drained (c : Ctx (PublishesInner QUEUE BUFFER TOPIC)) :
    ∃ res s sent, sendPendingPubrel.exec c = (res, s) ∧ pubrelPending.Drained c s sent ∧
      pubrelPending.Ends res s sent := by
  unfold sendPendingPubrel
  rw [exec_get_bind]
  exact Pending.whileIndex_drained (p := pubrelPending)
    (fun _ _ _ => sendPendingPubrelTurn_turned) c

theorem sendPendingPublishes_drained (c : Ctx (PublishesInner QUEUE BUFFER TOPIC)) :
    ∃ res s sent, sendPendingPublishes.exec c = (res, s) ∧ publishPending.Drained c s sent ∧
      publishPending.Ends res s sent := by
  unfold sendPendingPublishes
  rw [exec_get_bind]
  exact Pending.whileIndex_drained (p := publishPending)
    (fun _ _ _ => sendPendingPublishesTurn_turned) c

/-! ## The scans -/

/-- What identifies the PUBRELs that are written again. -/
def released (q : PublishesInner QUEUE BUFFER TOPIC) : List (Pid × UniqueID) :=
  q.awaitPubcomp.toList.map fun e => (e.pid, e.uniqueId)

theorem isFull_awaitPubcomp (q : PublishesInner QUEUE BUFFER TOPIC) :
    q.awaitPubcomp.isFull = (q.released.length == QUEUE) := by
  rw [released, List.length_map]
  rfl

variable (c)

theorem puback_rewrote : ∃ res c', pubackResend.clocked.exec c = (res, c') ∧
    pubackResend.Rewrote
      (fun q => (q.sendPublish, q.sendPubrel, q.awaitPubrec, q.awaitPubcomp)) c res c' :=
  pubackResend.clocked_rewrote ⟨fun _ _ => rfl, fun _ _ => rfl⟩ (fun _ _ _ => rfl) c

theorem pubrec_rewrote : ∃ res c', pubrecResend.clocked.exec c = (res, c') ∧
    pubrecResend.Rewrote
      (fun q => (q.sendPublish, q.sendPubrel, q.awaitPuback, q.awaitPubcomp)) c res c' :=
  pubrecResend.clocked_rewrote ⟨fun _ _ => rfl, fun _ _ => rfl⟩ (fun _ _ _ => rfl) c

theorem pubcomp_rewrote : ∃ res c', pubcompResend.clocked.exec c = (res, c') ∧
    pubcompResend.Rewrote
      (fun q => (q.sendPublish, q.sendPubrel, q.awaitPuback, q.awaitPubrec, q.released))
      c res c' := by
  refine pubcompResend.clocked_rewrote ⟨fun _ _ => rfl, fun _ _ => rfl⟩ (fun now i q => ?_) c
  have hkeys : (q.awaitPubcomp.modifyAt i fun e => { e with pubrelSent := now }).toList.map
      (fun e => (e.pid, e.uniqueId)) = q.released := BoundedVec.map_modifyAt fun _ => rfl
  exact congrArg (q.sendPublish, q.sendPubrel, q.awaitPuback, q.awaitPubrec, ·) hkeys

variable {c} {c' : Ctx (PublishesInner QUEUE BUFFER TOPIC)}

/-! ## The whole pass -/

/-- From `c` to `c'` the entries `pubrels` and `publishes` were written for the first time, and then
the packets `again`. -/
structure Wrote (c c' : Ctx (PublishesInner QUEUE BUFFER TOPIC)) (pubrels : List SendPubrel)
    (publishes : List (OwnedPublish BUFFER TOPIC)) (again : List Written) : Prop where
  written : c'.env.written = c.env.written ++
    (pubrels.map (fun e => ⟨.pubrel e.pid, e.uniqueId⟩) ++
      publishes.map (fun e => ⟨e.borrow, some e.uniqueId⟩) ++ again)
  ofPubrel : c.inner.sendPubrel.toList = pubrels ++ c'.inner.sendPubrel.toList
  ofQos : ∀ qos, c.inner.sendPublish.toList.filter (·.qospid.qos = qos) =
    publishes.filter (·.qospid.qos = qos) ++
      c'.inner.sendPublish.toList.filter (·.qospid.qos = qos)
  sublist : c'.inner.sendPublish.toList.Sublist c.inner.sendPublish.toList
  repeated : ∀ w ∈ again, (∃ message, w.packet = .publish message ∧ message.dup = true) ∨
    ∃ k ∈ c'.inner.released, w = ⟨.pubrel k.1, some k.2⟩

namespace Wrote

variable {s : Ctx (PublishesInner QUEUE BUFFER TOPIC)} {pubrels : List SendPubrel}
  {publishes : List (OwnedPublish BUFFER TOPIC)} {again : List Written}

theorem of_pubrels (h : pubrelPending.Drained c s pubrels) : Wrote c s pubrels [] [] where
  written := by simpa [pubrelPending] using h.written
  ofPubrel := by simpa [pubrelPending] using h.order ()
  ofQos qos := by
    have hsend : s.inner.sendPublish = c.inner.sendPublish := congrArg Prod.fst h.rest
    rw [hsend]
    rfl
  sublist := by
    have hsend : s.inner.sendPublish = c.inner.sendPublish := congrArg Prod.fst h.rest
    rw [hsend]
  repeated := nofun

theorem append_publishes (h : Wrote c s pubrels [] []) (hdrained : publishPending.Drained s c' publishes) :
    Wrote c c' pubrels publishes [] where
  written := by
    have hwritten := h.written
    rw [hdrained.written, hwritten]
    simp [publishPending]
  ofPubrel := by
    have hpubrel : c'.inner.sendPubrel = s.inner.sendPubrel := congrArg Prod.fst hdrained.rest
    rw [hpubrel]
    exact h.ofPubrel
  ofQos qos := (h.ofQos qos).trans (hdrained.order qos)
  sublist := hdrained.sublist.trans h.sublist
  repeated := nofun

/-- A scan comes after what was written for the first time. -/
theorem rewrote {α β : Type} {r : Resend (PublishesInner QUEUE BUFFER TOPIC) α QUEUE}
    {π : PublishesInner QUEUE BUFFER TOPIC → β} {res : Except (Stop MqttError) SendResult}
    (h : Wrote c s pubrels publishes again) (hr : r.Rewrote π s res c')
    (hpublish : c'.inner.sendPublish = s.inner.sendPublish)
    (hpubrel : c'.inner.sendPubrel = s.inner.sendPubrel)
    (hreleased : c'.inner.released = s.inner.released)
    (hpacket : ∀ a ∈ r.queue s.inner, ∀ w, r.again (s.env.reading 1) a = some w →
      (∃ message, w.packet = .publish message ∧ message.dup = true) ∨
        ∃ k ∈ s.inner.released, w = ⟨.pubrel k.1, some k.2⟩) :
    ∃ ws, Wrote c c' pubrels publishes (again ++ ws) := by
  obtain ⟨ws, hwritten, hws⟩ := hr.written
  refine ⟨ws, ⟨?_, hpubrel ▸ h.ofPubrel, fun qos => hpublish ▸ h.ofQos qos, hpublish ▸ h.sublist,
    fun w hw => ?_⟩⟩
  · rw [hwritten, h.written]
    simp only [List.append_assoc]
  · rw [hreleased]
    rcases List.mem_append.mp hw with hw | hw
    · exact h.repeated w hw
    · obtain ⟨a, ha, hagain⟩ := hws w hw
      exact hpacket a ha w hagain

end Wrote

/-- How many times the clock is read while the entries are written for the first time. -/
def readings (pubrels : List SendPubrel) (publishes : List (OwnedPublish BUFFER TOPIC)) : Nat :=
  pubrels.length + (publishes.filter (·.qospid.qos ≠ .atMostOnce)).length

/-- What a pass does. A PUBLISH that is written for the first time is no copy. After `SentAll` nothing
is left that could be sent: the scans read the clock after `k` other readings of it. -/
structure SendPass (c : Ctx (PublishesInner QUEUE BUFFER TOPIC))
    (res : Except (Stop MqttError) SendResult) (c' : Ctx (PublishesInner QUEUE BUFFER TOPIC))
    (pubrels : List SendPubrel) (publishes : List (OwnedPublish BUFFER TOPIC))
    (again : List Written) : Prop extends Wrote c c' pubrels publishes again where
  first : ∀ e ∈ publishes, e.dup = false
  panic : res = .error .panic → publishes = [] ∧ again = [] ∧
    ∃ e, pubrels.getLast? = some e ∧ e.uniqueId = none
  blocked : res = .ok .sentAll →
    c'.inner.sendPubrel.toList = [] ∨ c'.inner.awaitPubcomp.isFull = true
  full : res = .ok .sentAll → c'.inner.TargetsFull
  clock : res = .ok .sentAll → c.env.Ticked (readings pubrels publishes + 3) c'.env
  puback : res = .ok .sentAll → ∀ e ∈ c'.inner.awaitPuback,
    c.env.reading (readings pubrels publishes + 1) - e.publishSent ≤ RESEND_DURATION
  pubrec : res = .ok .sentAll → ∀ e ∈ c'.inner.awaitPubrec,
    c.env.reading (readings pubrels publishes + 2) - e.publishSent ≤ RESEND_DURATION
  pubcomp : res = .ok .sentAll → ∀ e ∈ c'.inner.awaitPubcomp,
    c.env.reading (readings pubrels publishes + 3) - e.pubrelSent ≤ RESEND_DURATION

/-- A pass that ends before it has sent all. -/
theorem Wrote.stopped {s : Ctx (PublishesInner QUEUE BUFFER TOPIC)} {pubrels : List SendPubrel}
    {publishes : List (OwnedPublish BUFFER TOPIC)} {again : List Written}
    {res : Except (Stop MqttError) SendResult} (h : Wrote c s pubrels publishes again)
    (hfirst : ∀ e ∈ publishes, e.dup = false) (hne : res ≠ .ok .sentAll)
    (hpanic : res = .error .panic → publishes = [] ∧ again = [] ∧
      ∃ e, pubrels.getLast? = some e ∧ e.uniqueId = none) :
    SendPass c res s pubrels publishes again where
  toWrote := h
  first := hfirst
  panic := hpanic
  blocked heq := absurd heq hne
  full heq := absurd heq hne
  clock heq := absurd heq hne
  puback heq := absurd heq hne
  pubrec heq := absurd heq hne
  pubcomp heq := absurd heq hne

theorem resendPublishes_exec (c : Ctx (PublishesInner QUEUE BUFFER TOPIC)) :
    resendPublishes.exec c =
      (pubackResend.clocked >>= fun r => r.next pubrecResend.clocked).exec c := by
  obtain ⟨res, s, hexec, -⟩ := puback_rewrote c
  have hscan : (pubackResend.scan c.env.read.now (pure c.env.read.now)).exec
      { c with env := c.env.read } = (res, s) := by
    rwa [Resend.clocked, timeNow_bind_exec] at hexec
  unfold resendPublishes
  rw [timeNow_bind_exec]
  rcases res with x | _ | _
  · rw [exec_bind_error hscan, SendResult.bind_next_of_ne hexec nofun]
  · rw [exec_bind_ok hscan, SendResult.bind_next_of_ne hexec nofun]
    rfl
  · rw [exec_bind_ok hscan, SendResult.bind_next_sentAll hexec]
    rfl

theorem sendPackets_eq : (sendPackets : PublishesCall QUEUE BUFFER TOPIC SendResult) =
    (((sendPendingPubrel >>= fun r => r.next sendPendingPublishes) >>=
      fun r => r.next resendPublishes) >>= fun r => r.next resendPubrel) := by
  simp only [sendPackets, SendResult.nextSync, bind_assoc]

theorem sum_reads (publishes : List (OwnedPublish BUFFER TOPIC)) :
    (publishes.map (@publishPending QUEUE BUFFER TOPIC).reads).sum =
      (publishes.filter (·.qospid.qos ≠ .atMostOnce)).length := by
  induction publishes with
  | nil => rfl
  | cons e publishes ih =>
    rw [List.map_cons, List.sum_cons, ih, List.filter_cons]
    by_cases hqos : e.qospid.qos = .atMostOnce
    · simp [publishPending, hqos]
    · simp [publishPending, hqos]
      omega

theorem Flagged.exits {α : Type} {m : PublishesCall QUEUE BUFFER TOPIC α} (h : c.inner.Flagged)
    (hm : ExitsAt (MoveOr False) Stops m c) : (m.exec c).2.inner.Flagged :=
  (moves_of_exits hm).invariant (I := fun c => c.inner.Flagged) (fun _ _ hmove h => h.move hmove) h

/-- What a scan over messages that wait for an acknowledgement writes is marked. -/
theorem message_of_again {α : Type} {r : Resend (PublishesInner QUEUE BUFFER TOPIC) α QUEUE}
    {now : Instant} {a : α} {e : OwnedPublish BUFFER TOPIC} {w : Written}
    (hpacket : r.packet a = .ok e.borrow) (hdup : e.dup = true) (hagain : r.again now a = some w) :
    ∃ message, w.packet = .publish message ∧ message.dup = true := by
  unfold Resend.again at hagain
  rw [hpacket] at hagain
  split at hagain
  · cases hagain
    exact ⟨_, rfl, hdup⟩
  · cases hagain

/-- The scans, after what was written for the first time has all been sent. -/
theorem resend_pass {s : Ctx (PublishesInner QUEUE BUFFER TOPIC)} {pubrels : List SendPubrel}
    {publishes : List (OwnedPublish BUFFER TOPIC)} (h : Wrote c s pubrels publishes [])
    (hfirst : ∀ e ∈ publishes, e.dup = false) (hflagged : s.inner.Flagged)
    (hticked : c.env.Ticked (readings pubrels publishes) s.env)
    (hblocked : s.inner.sendPubrel.toList = [] ∨ s.inner.awaitPubcomp.isFull = true)
    {res : Except (Stop MqttError) SendResult}
    (hexec : (resendPublishes >>= fun r => r.next resendPubrel).exec s = (res, c'))
    (hfull : res = .ok .sentAll → c'.inner.TargetsFull) :
    ∃ again, SendPass c res c' pubrels publishes again := by
  obtain ⟨r₁, s₁, h₁, hpuback⟩ := puback_rewrote s
  have hframe₁ := hpuback.frame
  simp only [Prod.mk.injEq] at hframe₁
  obtain ⟨hpublish₁, hpubrel₁, hpubrec₁, hpubcomp₁⟩ := hframe₁
  obtain ⟨again₁, hwrote₁⟩ := h.rewrote hpuback hpublish₁ hpubrel₁
    (congrArg (fun v => v.toList.map fun e => (e.pid, e.uniqueId)) hpubcomp₁)
    fun e he w hw => .inl (message_of_again rfl (hflagged.awaitPuback e he) hw)
  have hticked₁ := hticked.trans hpuback.ticked
  have hresend := resendPublishes_exec s
  by_cases heq₁ : r₁ = .ok .sentAll
  case neg =>
    rw [SendResult.bind_next_of_ne h₁ heq₁] at hresend
    rw [SendResult.bind_next_of_ne hresend heq₁] at hexec
    cases hexec
    exact ⟨_, hwrote₁.stopped hfirst heq₁ fun hpanic => absurd hpanic hpuback.ne_panic⟩
  subst heq₁
  rw [SendResult.bind_next_sentAll h₁] at hresend
  obtain ⟨r₂, s₂, h₂, hpubrec⟩ := pubrec_rewrote s₁
  rw [h₂] at hresend
  have hframe₂ := hpubrec.frame
  simp only [Prod.mk.injEq] at hframe₂
  obtain ⟨hpublish₂, hpubrel₂, hpuback₂, hpubcomp₂⟩ := hframe₂
  have hdup₂ (e : AwaitPubrec BUFFER TOPIC) (he : e ∈ s₁.inner.awaitPubrec) : e.publish.dup = true :=
    hflagged.awaitPubrec e (hpubrec₁ ▸ he)
  obtain ⟨again₂, hwrote₂⟩ := hwrote₁.rewrote hpubrec hpublish₂ hpubrel₂
    (congrArg (fun v => v.toList.map fun e => (e.pid, e.uniqueId)) hpubcomp₂)
    fun e he w hw => .inl (message_of_again rfl (hdup₂ e he) hw)
  have hticked₂ := hticked₁.trans hpubrec.ticked
  by_cases heq₂ : r₂ = .ok .sentAll
  case neg =>
    rw [SendResult.bind_next_of_ne hresend heq₂] at hexec
    cases hexec
    exact ⟨_, hwrote₂.stopped hfirst heq₂ fun hpanic => absurd hpanic hpubrec.ne_panic⟩
  subst heq₂
  rw [SendResult.bind_next_sentAll hresend] at hexec
  obtain ⟨r₃, s₃, h₃, hpubcomp⟩ := pubcomp_rewrote s₂
  cases hexec.symm.trans h₃
  have hframe₃ := hpubcomp.frame
  simp only [Prod.mk.injEq] at hframe₃
  obtain ⟨hpublish₃, hpubrel₃, hpuback₃, hpubrec₃, hreleased₃⟩ := hframe₃
  obtain ⟨again₃, hwrote₃⟩ := hwrote₂.rewrote hpubcomp hpublish₃ hpubrel₃ hreleased₃
    fun e he w hw => by
      unfold Resend.again at hw
      split at hw
      · cases hw
        exact .inr ⟨_, List.mem_map_of_mem he, rfl⟩
      · cases hw
  have hticked₃ := hticked₂.trans hpubcomp.ticked
  refine ⟨_, { toWrote := hwrote₃, first := hfirst, panic := fun hpanic => absurd hpanic hpubcomp.ne_panic
               blocked := fun _ => ?_, full := hfull, clock := fun _ => hticked₃
               puback := fun heq e he => ?_, pubrec := fun heq e he => ?_
               pubcomp := fun heq e he => ?_ }⟩
  · rw [hpubrel₃, hpubrel₂, hpubrel₁, isFull_awaitPubcomp, hreleased₃, ← isFull_awaitPubcomp,
      hpubcomp₂, hpubcomp₁]
    exact hblocked
  · have he₁ : e ∈ s₁.inner.awaitPuback := hpuback₂ ▸ hpuback₃ ▸ he
    have hdue := hpuback.settled rfl e he₁
    rw [hticked.reading_add] at hdue
    exact Nat.le_of_not_lt hdue
  · have he₂ : e ∈ s₂.inner.awaitPubrec := hpubrec₃ ▸ he
    have hdue := hpubrec.settled rfl e he₂
    rw [hticked₁.reading_add] at hdue
    exact Nat.le_of_not_lt hdue
  · have hdue := hpubcomp.settled heq e he
    rw [hticked₂.reading_add] at hdue
    exact Nat.le_of_not_lt hdue

theorem sendPackets_pass (hflagged : c.inner.Flagged) :
    ∃ pubrels publishes again,
      SendPass c (sendPackets.exec c).1 (sendPackets.exec c).2 pubrels publishes again := by
  obtain ⟨res, c', hexec⟩ : ∃ res c', sendPackets.exec c = (res, c') := ⟨_, _, rfl⟩
  have hfull : res = .ok .sentAll → c'.inner.TargetsFull := by
    rintro rfl
    exact sendPackets_sentAll hexec
  have hpass := hexec
  rw [sendPackets_eq] at hpass
  rw [hexec]
  obtain ⟨r₁, s₁, pubrels, h₁, hdrained₁, hends₁⟩ := sendPendingPubrel_drained c
  have hwrote₁ := Wrote.of_pubrels hdrained₁
  by_cases heq₁ : r₁ = .ok .sentAll
  case neg =>
    have hstop := SendResult.bind_next_of_ne (f := sendPendingPublishes) h₁ heq₁
    have hstop := SendResult.bind_next_of_ne (f := resendPublishes) hstop heq₁
    rw [SendResult.bind_next_of_ne hstop heq₁] at hpass
    cases hpass
    exact ⟨_, _, _, hwrote₁.stopped nofun heq₁ fun hpanic => ⟨rfl, rfl, hends₁.unowned hpanic⟩⟩
  subst heq₁
  have hflagged₁ := hflagged.exits sendPendingPubrel_exits
  rw [h₁] at hflagged₁
  obtain ⟨r₂, s₂, publishes, h₂, hdrained₂, hends₂⟩ := sendPendingPublishes_drained s₁
  have hwrote₂ := hwrote₁.append_publishes hdrained₂
  have hphase₂ := SendResult.bind_next_sentAll (f := sendPendingPublishes) h₁
  rw [h₂] at hphase₂
  have hfirst (e : OwnedPublish BUFFER TOPIC) (he : e ∈ publishes) : e.dup = false :=
    hflagged₁.sendPublish e (hdrained₂.mem he)
  by_cases heq₂ : r₂ = .ok .sentAll
  case neg =>
    have hstop := SendResult.bind_next_of_ne (f := resendPublishes) hphase₂ heq₂
    rw [SendResult.bind_next_of_ne hstop heq₂] at hpass
    cases hpass
    refine ⟨_, _, _, hwrote₂.stopped hfirst heq₂ fun hpanic => ?_⟩
    obtain ⟨e, -, hunowned⟩ := hends₂.unowned hpanic
    exact hunowned.elim
  subst heq₂
  have hflagged₂ := hflagged₁.exits sendPendingPublishes_exits
  rw [h₂] at hflagged₂
  have hticked : c.env.Ticked (readings pubrels publishes) s₂.env := by
    have hticked := hdrained₁.ticked.trans hdrained₂.ticked
    rw [sum_reads] at hticked
    simpa [pubrelPending, readings] using hticked
  obtain ⟨hpubrel, hpubcomp⟩ := Prod.mk.inj hdrained₂.rest
  have hblocked : s₂.inner.sendPubrel.toList = [] ∨ s₂.inner.awaitPubcomp.isFull = true := by
    rw [hpubrel, hpubcomp]
    refine or_iff_not_imp_left.mpr fun hne => ?_
    obtain ⟨e, he⟩ := List.exists_mem_of_ne_nil _ hne
    have hspace := hends₁.blocked rfl e he
    simpa [pubrelPending] using hspace
  have hphase := SendResult.bind_next_sentAll (f := resendPublishes) hphase₂
  rw [exec_bind, hphase, ← exec_bind] at hpass
  obtain ⟨again, hsend⟩ := resend_pass hwrote₂ hfirst hflagged₂ hticked hblocked hpass hfull
  exact ⟨pubrels, publishes, again, hsend⟩

end PublishesInner

namespace Client

open PublishesInner

variable {topicPathCapacity : Nat} {ls : List Label} {s : Client QUEUE BUFFER TOPIC}

theorem flagged_of_run (hr : run (next · topicPathCapacity) new ls = some s) :
    s.publishes.Flagged := by
  obtain ⟨t, ht, rfl⟩ := Story.exists_of_run (.new : Story QUEUE BUFFER TOPIC) hr
  exact (Story.sound_of_run ht).flagged

/-- Every pass, from every state that a client reaches, with every answer of the connection and every
clock. -/
theorem send_pass (hr : run (next · topicPathCapacity) new ls = some s)
    (answers : List (Except MqttError Bool)) (ticks : List Duration) :
    let c : Ctx (PublishesInner QUEUE BUFFER TOPIC) := ⟨s.publishes, (s.scripted answers ticks).env⟩
    ∃ pubrels publishes again, SendPass c (Publishes.sendPackets.exec c).1
      (Publishes.sendPackets.exec c).2 pubrels publishes again :=
  sendPackets_pass (flagged_of_run hr)

/-- A publish of QoS 1 was written six seconds ago, and one of QoS 2 waits. -/
def mixedRun : List Label :=
  let publish (qos : QoS) : Label := .publish [116] [7] qos false 1
  [ publish .atLeastOnce, .poll 0, .sendPublishes [.ok true] [], publish .exactlyOnce, .poll 0,
    .wait (.fromSecs 6) ]

theorem send_pass_on_mixedRun : ∃ s : Client 1 8 8, run (next · 16) new mixedRun = some s ∧
    let c : Ctx (PublishesInner 1 8 8) := ⟨s.publishes, (s.scripted [.ok true, .ok true] []).env⟩
    (Publishes.sendPackets.exec c).1 = .ok .sentAll ∧
    ∃ pubrels publishes again, SendPass c (Publishes.sendPackets.exec c).1
      (Publishes.sendPackets.exec c).2 pubrels publishes again := by
  have hany : (run (next · 16) (new : Client 1 8 8) mixedRun).any (fun s =>
      decide ((Publishes.sendPackets.exec
        ⟨s.publishes, (s.scripted [.ok true, .ok true] []).env⟩).1 = .ok .sentAll)) = true := by
    decide +kernel
  obtain ⟨s, hr, hres⟩ := (Option.any_eq_true _ _).mp hany
  exact ⟨s, hr, of_decide_eq_true hres, send_pass hr [.ok true, .ok true] []⟩

end Client

end EmbeddedMqttc
