import EmbeddedMqttc.IncomingStream

/-!
# The end of the incoming stream

A transport whose peer has closed the stream answers a read with `Ok(0)` once everything has been
read. The reading loops do not look at this answer: they end if and only if the bytes up to the end
of the stream contain something to return, a packet, an error of decoding or more bytes than the
buffer holds (`reads_end_iff`). Otherwise they read on for ever. A packet that is in the buffer when
the stream has ended is returned (`runIo_returns_of_closed`), unlike on a stream that stays silent.
-/

namespace EmbeddedMqttc

open Prog

variable {N : Nat} {C : Codec} {w w' : World N}

/-! ## Transports without errors -/

def Poll.isReady : Poll → Bool
  | .ready _ => true
  | _ => false

/-- The number of polls of a script that are ready. -/
def readies (script : List Poll) : Nat := script.countP Poll.isReady

def Clean (script : List Poll) : Prop := ∀ kind, Poll.error kind ∉ script

theorem Clean.tail {p : Poll} {script : List Poll} (h : Clean (p :: script)) : Clean script :=
  fun kind hk => h kind (List.mem_cons_of_mem _ hk)

@[simp] theorem readies_ready (k : Nat) (script : List Poll) :
    readies (.ready k :: script) = readies script + 1 := List.countP_cons_of_pos rfl

@[simp] theorem readies_pending (script : List Poll) :
    readies (.pending :: script) = readies script := List.countP_cons_of_neg nofun

theorem readies_tail (script : List Poll) : readies script ≤ readies script.tail + 1 := by
  cases script with
  | nil => exact Nat.zero_le _
  | cons p script =>
    rw [readies, List.countP_cons, List.tail_cons, readies]
    split <;> omega

theorem exists_ready {script : List Poll} (h : 0 < readies script) : ∃ k, Poll.ready k ∈ script := by
  obtain ⟨p, hp, hr⟩ := List.countP_pos_iff.mp h
  cases p with
  | ready k => exact ⟨k, hp⟩
  | pending | error => cases hr

/-- Without errors, an awaited answer is the next poll that is ready. -/
theorem nextAnswer_clean {script : List Poll} (h : Clean script)
    (ha : nextAnswer script = some (.ok k, ps)) : Clean ps ∧ readies script = readies ps + 1 := by
  induction script with
  | nil => cases ha
  | cons p script ih =>
    cases p with
    | pending => simpa using ih h.tail ha
    | ready k => cases ha; exact ⟨h.tail, readies_ready ..⟩
    | error kind => cases ha

/-- On a closed stream without errors, a read takes the next poll that is ready. -/
theorem awaitRead_clean {net : Net} {len : Nat} {script : List Poll} (hc : net.closed = true)
    (h : Clean script) (ha : net.awaitRead len script = some (.ok bytes, ps)) :
    Clean ps ∧ readies script = readies ps + 1 := by
  induction script with
  | nil => cases ha
  | cons p script ih =>
    simp only [Net.awaitRead] at ha
    cases p with
    | pending => simpa using ih h.tail ha
    | ready k =>
      have hr : ∃ r, net.readAnswer len (.ready k) = some r := by
        simp only [Net.readAnswer, hc, if_true]
        split <;> exact ⟨_, rfl⟩
      obtain ⟨r, hr⟩ := hr
      simp only [hr] at ha
      cases ha
      exact ⟨h.tail, readies_ready ..⟩
    | error kind => cases ha

/-! ## Reading towards the end -/

/-- What the reading loops return on: a full buffer, or a packet or an error in the bytes `T`. -/
def Ends (C : Codec) (N : Nat) (T : List UInt8) : Prop :=
  N ≤ T.length ∨ C.decodeSliceWithLen T ≠ .ok none

instance (T : List UInt8) : Decidable (Ends C N T) := inferInstanceAs (Decidable (_ ∨ _))

/-- A state in which `T` is what is still to be decoded, from the buffer and from a closed stream. -/
structure Ending (T : List UInt8) (w : World N) : Prop where
  connection : w.connection = true
  mapped : w.mapped = none
  closed : w.net.closed = true
  clean : Clean w.script
  total : w.recvBuffer.reaableData ++ w.net.rx = T

/-- Enough polls are ready to send what is pending, three for each write, and to read what is left of
the stream, with `d` to spare. -/
def Funded (d : Nat) (w : World N) : Prop :=
  3 * w.sendBuffer.reaableData.length + w.net.rx.length + d < readies w.script

/-- A state on the way to the end, in a run that is known (`F`) to have enough answers or not. -/
structure Going (F : Prop) (d : Nat) (T : List UInt8) (w : World N) : Prop where
  ending : Ending T w
  funded : F → Funded d w

/-- The stops of a part of a reading loop: it is suspended, but not in a run with enough answers. -/
def Suspended (F : Prop) (x : Stop MqttError) (_ : World N) : Prop := x = .parked ∧ ¬ F

variable {T : List UInt8} {F : Prop} {d : Nat}

theorem Ending.of_eq (hw : Ending T w) (hcon : w'.connection = w.connection)
    (hm : w'.mapped = w.mapped) (hclosed : w'.net.closed = w.net.closed) (hclean : Clean w'.script)
    (ht : w'.recvBuffer.reaableData ++ w'.net.rx = w.recvBuffer.reaableData ++ w.net.rx) :
    Ending T w' :=
  ⟨hcon ▸ hw.connection, hm ▸ hw.mapped, hclosed ▸ hw.closed, hclean, ht.trans hw.total⟩

/-- What is interrupted on the way to the end is suspended, because no poll is ready any more. -/
theorem Going.interrupted {α : Type} {b : StackBuffer N} {r : Except (Stop MqttError) α × World N}
    (hw : Going F d T w) (h : Interrupted (w.withRecv b) r) :
    ∃ w', r = (.error .parked, w') ∧ Suspended F .parked w' := by
  obtain ⟨ps, -, ⟨he, hk⟩ | ⟨kind, -, hk⟩⟩ := h
  · refine ⟨_, he, rfl, fun hF => ?_⟩
    obtain ⟨k, hmem⟩ := exists_ready (Nat.lt_of_le_of_lt (Nat.zero_le _) (hw.funded hF))
    exact hk hw.ending.closed k hmem
  · exact absurd hk (hw.ending.clean kind)

theorem Going.transmit (k : Nat) :
    Triple (fun w => Going F 0 T w ∧ w.sendBuffer.hasRemainingLen = true ∧ w.script.length ≤ k)
      (TcpConnectionState.transmit : Io N _)
      (fun _ w => Going F 2 T w ∧ w.script.length < k) (Suspended F) := by
  intro w ⟨hw, hr, hk⟩
  rcases TcpConnectionState.transmit_cases w with hi | ⟨n, ps, b, hn, hps, hb, -, he⟩
  · obtain ⟨w', he, hs⟩ := Going.interrupted (b := w.recvBuffer) hw hi
    rw [he]; exact hs
  · obtain ⟨hclean, hready⟩ := nextAnswer_clean hw.ending.clean hn
    rw [he]
    refine ⟨⟨hw.ending.of_eq rfl rfl rfl hclean rfl, fun hF => ?_⟩, Nat.lt_of_lt_of_le hps hk⟩
    have hpos := List.length_pos_iff.mpr (StackBuffer.hasRemainingLen_iff.mp hr)
    have hfunded : 3 * w.sendBuffer.reaableData.length + w.net.rx.length + 0 < readies w.script :=
      hw.funded hF
    change 3 * b.reaableData.length + w.net.rx.length + 2 < readies ps
    rw [hb, List.length_drop]
    omega

theorem Going.networkFlush (k : Nat) :
    Triple (fun w => Going F (d + 1) T w ∧ w.script.length < k) (networkFlush : Io N _)
      (fun _ w => Going F d T w ∧ w.script.length < k) (Suspended F) := by
  intro w ⟨hw, hk⟩
  rcases networkFlush_cases w with hi | ⟨n, ps, hn, hps, he⟩
  · obtain ⟨w', he, hs⟩ := Going.interrupted (b := w.recvBuffer) hw hi
    rw [he]; exact hs
  · obtain ⟨hclean, hready⟩ := nextAnswer_clean hw.ending.clean hn
    rw [he]
    refine ⟨⟨hw.ending.of_eq rfl rfl rfl hclean rfl, fun hF => ?_⟩, Nat.lt_trans hps hk⟩
    have hfunded : 3 * w.sendBuffer.reaableData.length + w.net.rx.length + (d + 1) <
      readies w.script := hw.funded hF
    change 3 * w.sendBuffer.reaableData.length + w.net.rx.length + d < readies ps
    omega

/-- The bytes that a read hands over leave what is still to be decoded as it is. -/
theorem total_receive {b : StackBuffer N} {bytes : List UInt8}
    (hb : bytes = w.net.rx.take bytes.length) (hd : b.reaableData = w.recvBuffer.reaableData ++ bytes) :
    b.reaableData ++ w.net.rx.drop bytes.length = w.recvBuffer.reaableData ++ w.net.rx := by
  have hsplit : bytes ++ w.net.rx.drop bytes.length = w.net.rx := by
    conv => lhs; arg 1; rw [hb]
    exact List.take_append_drop ..
  rw [hd, List.append_assoc, hsplit]

theorem Going.receive_networkTryRead (k : Nat) :
    Triple (fun w => Going F 1 T w ∧ w.script.length < k)
      (TcpConnectionState.receive networkTryRead : Io N _)
      (fun _ w => Going F 0 T w ∧ w.script.length < k) (Suspended F) := by
  intro w ⟨hw, hk⟩
  rcases TcpConnectionState.receive_networkTryRead_cases w with
    ⟨b, kind, ps, -, hscript, -⟩ | ⟨bytes, ps, b, hb, hd, hps, he⟩
  · exact absurd (hscript ▸ List.mem_cons_self) (hw.ending.clean kind)
  · have hps : Clean ps ∧ readies w.script ≤ readies ps + 1 ∧ ps.length ≤ w.script.length := by
      rcases hps with rfl | rfl
      · exact ⟨hw.ending.clean, Nat.le_succ _, Nat.le_refl _⟩
      · refine ⟨fun kind hk => hw.ending.clean kind (List.mem_of_mem_tail hk), readies_tail _, ?_⟩
        simp
    obtain ⟨hclean, hready, hlen⟩ := hps
    rw [he]
    refine ⟨⟨hw.ending.of_eq rfl rfl rfl hclean (total_receive hb hd), fun hF => ?_⟩,
      Nat.lt_of_le_of_lt hlen hk⟩
    have hfunded : 3 * w.sendBuffer.reaableData.length + w.net.rx.length + 1 < readies w.script :=
      hw.funded hF
    change 3 * w.sendBuffer.reaableData.length + (w.net.rx.drop bytes.length).length + 0 < readies ps
    rw [List.length_drop]
    omega

/-- A blocking read brings the end of the stream nearer or has reached it. -/
theorem Going.receive_networkRead (k : Nat) :
    Triple (fun w => Going F 0 T w ∧ w.recvBuffer.reaableData.length < N ∧ w.script.length ≤ k)
      (TcpConnectionState.receive networkRead : Io N _)
      (fun _ w => Ending T w ∧ (F → Funded 0 w ∨ w.net.rx = []) ∧ w.script.length < k)
      (Suspended F) := by
  intro w ⟨hw, hlt, hk⟩
  rcases TcpConnectionState.receive_networkRead_cases w with
    ⟨-, b, -, hi⟩ | ⟨bytes, ps, b, hb, hd, hnil, -, hread, he⟩
  · obtain ⟨w', he, hs⟩ := hw.interrupted hi
    rw [he]; exact hs
  · obtain ⟨len, hread⟩ := hread hlt
    obtain ⟨hclean, hready⟩ := awaitRead_clean hw.ending.closed hw.ending.clean hread
    rw [he]
    refine ⟨hw.ending.of_eq rfl rfl rfl hclean (total_receive hb hd), fun hF => ?_,
      Nat.lt_of_lt_of_le (awaitRead_length hread).1 hk⟩
    rcases Nat.eq_zero_or_pos bytes.length with hzero | hpos
    · rcases hnil (List.eq_nil_of_length_eq_zero hzero) with hfull | ⟨hrx, -⟩
      · exact absurd hfull (Nat.ne_of_lt hlt)
      · exact .inr (by change w.net.rx.drop _ = []; rw [hrx, List.drop_nil])
    · have hfunded : 3 * w.sendBuffer.reaableData.length + w.net.rx.length + 0 <
        readies w.script := hw.funded hF
      have hle := congrArg List.length hb
      rw [List.length_take] at hle
      refine .inl ?_
      change 3 * w.sendBuffer.reaableData.length + (w.net.rx.drop bytes.length).length + 0 < readies ps
      rw [List.length_drop]
      omega

theorem Going.receive_networkRead_full :
    Triple (fun w => Going F 0 T w ∧ w.recvBuffer.reaableData.length = N)
      (TcpConnectionState.receive networkRead : Io N _)
      (fun _ w => Going F 0 T w ∧ w.recvBuffer.reaableData.length = N) (Suspended F) := by
  intro w ⟨hw, hfull⟩
  rcases TcpConnectionState.receive_networkRead_cases w with
    ⟨hlt, -⟩ | ⟨bytes, ps, b, hb, hd, -, hps, -, he⟩
  · exact absurd hfull (Nat.ne_of_lt hlt)
  · have hle := b.length_reaableData_le
    have hlen := congrArg List.length hd
    rw [List.length_append] at hlen
    obtain rfl : bytes = [] := List.eq_nil_of_length_eq_zero (by omega)
    obtain rfl := hps hfull
    rw [he]
    refine ⟨⟨hw.ending.of_eq rfl rfl rfl hw.ending.clean (total_receive hb hd), hw.funded⟩, ?_⟩
    change b.reaableData.length = N
    rw [hd, List.append_nil, hfull]

theorem Going.sendReceiveTurn (k : Nat) :
    Triple (fun w => Going F 0 T w ∧ w.script.length ≤ k)
      (TcpConnectionState.sendReceiveTurn : Io N _)
      (fun o w => Going F 0 T w ∧ match o with
        | some true => w.script.length < k
        | some false => w.script.length ≤ k
        | none => w.script.length < k)
      (Suspended F) := by
  refine .get_bind fun t => ?_
  split
  · rename_i hr
    refine .bind ((Going.transmit (T := T) k).conseq (fun w h => ?_) (fun _ _ h => h) (fun _ _ h => h))
      fun _ => .bind (Going.networkFlush (T := T) k) fun _ => ?_
    · obtain ⟨rfl, hw, hk⟩ := h
      exact ⟨hw, hr, hk⟩
    refine .bind (Going.receive_networkTryRead k) fun bytesReceived => .pure _ fun w h => ?_
    by_cases hpos : 0 < bytesReceived
    · simp only [hpos, if_true]
      exact h
    · simp only [hpos, if_false]
      exact h
  · exact .pure _ fun w h => h.2

theorem Going.sendReceive (k : Nat) :
    Triple (fun w => Going F 0 T w ∧ w.script.length ≤ k) (TcpConnectionState.sendReceive : Io N _)
      (fun _ w => Ending T w ∧ (F → Funded 0 w ∨ w.net.rx = []) ∧
        (w.script.length < k ∨ w.recvBuffer.reaableData.length = N))
      (Suspended F) := by
  refine .bind (Q := fun _ w => Going F 0 T w ∧ w.script.length ≤ k) (fun w hw => ?_) fun _ => ?_
  · rw [TcpConnectionState.borrowRecv_exec, if_pos hw.1.ending.mapped]
    exact hw
  refine .bind (Q := fun _ w => Going F 0 T w ∧ w.script.length ≤ k) (.modify _ fun w hw => ?_)
    fun _ => ?_
  · refine ⟨⟨hw.1.ending.of_eq rfl rfl rfl hw.1.ending.clean ?_, hw.1.funded⟩, hw.2⟩
    simp only [StackBuffer.reaableData_flip]
  refine .bind (Q := fun _ w => Going F 0 T w ∧ w.script.length ≤ k) (fun w hw => ?_)
    fun _ => .get_bind fun t => ?_
  · rw [TcpConnectionState.unwrapConnection_exec, if_pos hw.1.ending.connection]
    exact hw
  refine .bind (Q := fun early w => Going F 0 T w ∧ match early with
    | true => w.script.length < k
    | false => w.script.length ≤ k) ?_ fun early => ?_
  · refine (Triple.loop_measure (I := fun w => Going F 0 T w ∧ w.script.length ≤ k)
      (fun w => w.script.length) (fun j s hs => ?_) _).conseq
        (fun s hs => ⟨hs.2, Nat.lt_succ_of_le (hs.1 ▸ Nat.le_refl _)⟩) (fun _ _ h => h)
        (fun _ _ h => h)
    have hj : j ≤ k := hs.2 ▸ hs.1.2
    refine (Going.sendReceiveTurn j).weaken (fun o w h => ?_) (fun _ _ h => h) s ⟨hs.1.1, hs.2.le⟩
    match o with
    | some true => exact ⟨h.1, Nat.lt_of_lt_of_le h.2 hj⟩
    | some false => exact ⟨h.1, Nat.le_trans h.2 hj⟩
    | none => exact ⟨⟨h.1, Nat.le_trans h.2.le hj⟩, h.2⟩
  · cases early with
    | true => exact .pure _ fun w h => ⟨h.1.ending, fun hF => .inl (h.1.funded hF), .inl h.2⟩
    | false =>
      refine .bind (Q := fun _ w => Ending T w ∧ (F → Funded 0 w ∨ w.net.rx = []) ∧
        (w.script.length < k ∨ w.recvBuffer.reaableData.length = N)) (fun s hs => ?_)
        fun _ => .pure _ fun _ h => h
      rcases Nat.lt_or_ge s.recvBuffer.reaableData.length N with hlt | hge
      · exact (Going.receive_networkRead k).weaken
          (fun _ _ h => ⟨h.1, h.2.1, .inl h.2.2⟩) (fun _ _ h => h) s ⟨hs.1, hlt, hs.2⟩
      · exact Going.receive_networkRead_full.weaken
          (fun _ _ h => ⟨h.1.ending, fun hF => .inl (h.1.funded hF), .inr h.2⟩) (fun _ _ h => h) s
          ⟨hs.1, Nat.le_antisymm s.recvBuffer.length_reaableData_le hge⟩

/-! ## The loops -/

/-- The stops of a reading loop: it is suspended, but not in a run with enough answers, or it returns
an error on something the stream contains. -/
def Stopped (C : Codec) (N : Nat) (T : List UInt8) (F : Prop) (x : Stop MqttError) (_ : World N) :
    Prop :=
  x = .parked ∧ ¬ F ∨ ∃ err, x = .fail err ∧ Ends C N T

section

variable (hdec : C.Decisive)
include hdec

/-- Decoding ends the loop, or shows that the bytes in the buffer are not what it ends on. -/
theorem Ending.tryReadPacket {R : World N → Prop} :
    Triple (fun w => Ending T w ∧ R w) (TcpConnectionState.tryReadPacket C : Io N _)
      (fun o w => match o with
        | some _ => Ends C N T
        | none => (Ending T w ∧ R w) ∧ w.recvBuffer.reaableData.length < N ∧
          (w.net.rx = [] → ¬ Ends C N T))
      (Stopped C N T F) := by
  intro w ⟨hw, hR⟩
  have hends (h : C.decodeSliceWithLen w.recvBuffer.reaableData ≠ .ok none) : Ends C N T :=
    .inr (hw.total ▸ hdec _ _ h)
  have hlen : w.recvBuffer.reaableData.length ≤ T.length := by
    rw [← hw.total, List.length_append]; omega
  rw [TcpConnectionState.tryReadPacket_exec, hw.mapped]
  simp only [Option.isSome_none, Bool.false_eq_true, if_false]
  cases hd : C.decodeSliceWithLen w.recvBuffer.reaableData with
  | error err => exact .inr ⟨_, rfl, hends (by rw [hd]; exact nofun)⟩
  | ok o =>
    cases o with
    | some r => exact hends (by rw [hd]; exact nofun)
    | none =>
      by_cases hfull : w.recvBuffer.reaableData.length = N
      · simp only [hfull, if_true]
        exact .inr ⟨_, rfl, .inl (hfull ▸ hlen)⟩
      · simp only [hfull, if_false]
        have hlt := Nat.lt_of_le_of_ne w.recvBuffer.length_reaableData_le hfull
        refine ⟨⟨hw, hR⟩, hlt, fun hrx h => ?_⟩
        obtain rfl : w.recvBuffer.reaableData = T := by rw [← hw.total, hrx, List.append_nil]
        rcases h with h | h
        · exact Nat.lt_irrefl _ (Nat.lt_of_lt_of_le hlt h)
        · exact h hd

variable (hF : F → Ends C N T)
include hF

theorem Going.readPacket :
    Triple (Going F 0 T) (TcpConnectionState.readPacket C : Io N _) (fun _ _ => Ends C N T)
      (Stopped C N T F) := by
  refine .bind (Q := fun _ => Going F 0 T) (fun w hw => ?_) fun _ => .get_bind fun t => ?_
  · rw [TcpConnectionState.unwrapConnection_exec, if_pos hw.ending.connection]
    exact hw
  refine (Triple.loop_measure
    (I := fun w => Ending T w ∧ (F → Funded 0 w ∨ w.net.rx = [])) (fun w => w.script.length)
    (fun k => ?_) _).conseq (fun s hs => ?_) (fun _ _ h => h) (fun _ _ h => h)
  · refine .bind ((Ending.tryReadPacket hdec (R := fun w => (F → Funded 0 w ∨ w.net.rx = []) ∧
      w.script.length = k)).conseq (fun s hs => ⟨hs.1.1, hs.1.2, hs.2⟩) (fun _ _ h => h)
        (fun _ _ h => h)) fun o => ?_
    cases o with
    | some p => exact .pure _ fun _ h => h
    | none =>
      refine .bind ((Going.receive_networkRead (F := F) k).conseq (fun w h => ?_)
        (fun _ _ h => ⟨⟨h.1, h.2.1⟩, h.2.2⟩) (fun _ _ h => .inl h)) fun _ => .pure _ fun _ h => h
      obtain ⟨⟨hw, hfunded, hk⟩, hlt, hrx⟩ := h
      refine ⟨⟨hw, fun h => (hfunded h).resolve_right fun hnil => hrx hnil (hF h)⟩, hlt, hk.le⟩
  · obtain ⟨rfl, hw⟩ := hs
    exact ⟨⟨hw.ending, fun h => .inl (hw.funded h)⟩, Nat.lt_succ_self _⟩

theorem Going.runIo :
    Triple (fun w => Going F 0 T w ∧ w.inner = some .connected) (ConnectionState.runIo C : Io N _)
      (fun _ _ => Ends C N T) (Stopped C N T F) := by
  refine .get_bind fun t => .bind
    (Q := fun _ w => Going F 0 T w ∧ w.script.length < t.script.length + 1) (fun w h => ?_)
    fun _ => ?_
  · obtain ⟨rfl, hw, hinner⟩ := h
    rw [exec_ensure, if_pos hinner]
    exact ⟨hw, Nat.lt_succ_self _⟩
  refine Triple.loop_measure (I := Going F 0 T) (fun w => w.script.length) (fun k => ?_) _
  refine .bind ((Going.sendReceive k).conseq (fun s hs => ⟨hs.1, hs.2.le⟩) (fun _ _ h => h)
    (fun _ _ h => .inl h)) fun _ => ?_
  refine (Ending.tryReadPacket hdec (R := fun w => (F → Funded 0 w ∨ w.net.rx = []) ∧
    (w.script.length < k ∨ w.recvBuffer.reaableData.length = N))).weaken
      (fun o w h => ?_) (fun _ _ h => h)
  cases o with
  | some p => exact h
  | none =>
    obtain ⟨⟨hw, hfunded, hk⟩, hlt, hrx⟩ := h
    exact ⟨⟨hw, fun h => (hfunded h).resolve_right fun hnil => hrx hnil (hF h)⟩,
      hk.resolve_right (Nat.ne_of_lt hlt)⟩

end

/-! ## Infinitely many answers -/

/-- The first `n` answers of a transport. -/
def polled (polls : Nat → Poll) (n : Nat) : List Poll := (List.range n).map polls

theorem polled_succ (polls : Nat → Poll) (n : Nat) :
    polled polls (n + 1) = polled polls n ++ [polls n] := by
  simp [polled, List.range_succ]

theorem clean_polled {polls : Nat → Poll} (h : ∀ i kind, polls i ≠ .error kind) (n : Nat) :
    Clean (polled polls n) := by
  intro kind hk
  obtain ⟨i, -, hi⟩ := List.mem_map.mp hk
  exact h i kind hi

theorem readies_polled_mono {polls : Nat → Poll} {m n : Nat} (h : m ≤ n) :
    readies (polled polls m) ≤ readies (polled polls n) := by
  induction h with
  | refl => exact Nat.le_refl _
  | step _ ih =>
    rw [polled_succ, readies, readies, List.countP_append]
    exact Nat.le_trans ih (Nat.le_add_right ..)

/-- A transport that is ready again and again is ready as often as is needed. -/
theorem exists_readies_polled {polls : Nat → Poll}
    (h : ∀ i, ∃ j, i ≤ j ∧ ∃ k, polls j = .ready k) (m : Nat) :
    ∃ n, m < readies (polled polls n) := by
  induction m with
  | zero =>
    obtain ⟨j, -, k, hj⟩ := h 0
    refine ⟨j + 1, ?_⟩
    rw [polled_succ, hj, readies, List.countP_append]
    simp [Poll.isReady]
  | succ m ih =>
    obtain ⟨n, hn⟩ := ih
    obtain ⟨j, hle, k, hj⟩ := h n
    refine ⟨j + 1, ?_⟩
    have hmono : readies (polled polls n) ≤ readies (polled polls j) := readies_polled_mono hle
    have hlast : readies (polled polls (j + 1)) = readies (polled polls j) + 1 := by
      rw [polled_succ, hj, readies, readies, List.countP_append]
      rfl
    omega

/-- The outcome of a call that has returned, with a value or an error. -/
def Returned {α : Type} (r : Except (Stop MqttError) α) : Prop :=
  (∃ a, r = .ok a) ∨ ∃ err, r = .error (.fail err)

section

variable {α : Type} {m : Io N α} {P : World N → Prop} {polls : Nat → Poll}

/-- A loop that returns on `T` only, and is not suspended while it has enough answers, returns if and
only if `T` is something to return on. -/
theorem returns_iff (hm : w.mapped = none) (hcon : w.connection = true)
    (hclosed : w.net.closed = true) (hclean : ∀ i kind, polls i ≠ .error kind)
    (hready : ∀ i, ∃ j, i ≤ j ∧ ∃ k, polls j = .ready k) (hP : ∀ ps, P (w.withScript ps))
    (hloop : ∀ F : Prop, (F → Ends C N (w.recvBuffer.reaableData ++ w.net.rx)) →
      Triple (fun s => Going F 0 (w.recvBuffer.reaableData ++ w.net.rx) s ∧ P s) m
        (fun _ _ => Ends C N (w.recvBuffer.reaableData ++ w.net.rx))
        (Stopped C N (w.recvBuffer.reaableData ++ w.net.rx) F)) :
    (∃ n, Returned (m.exec (w.withScript (polled polls n))).1) ↔
      Ends C N (w.recvBuffer.reaableData ++ w.net.rx) := by
  have hending (n : Nat) : Ending (w.recvBuffer.reaableData ++ w.net.rx)
      (w.withScript (polled polls n)) := ⟨hcon, hm, hclosed, clean_polled hclean n, rfl⟩
  constructor
  · rintro ⟨n, hn⟩
    have h := hloop False nofun _ ⟨⟨hending n, nofun⟩, hP _⟩
    rcases he : m.exec (w.withScript (polled polls n)) with ⟨x | a, w'⟩
    · rw [he] at h hn
      rcases h with ⟨rfl, -⟩ | ⟨err, -, hends⟩
      · rcases hn with ⟨a, hn⟩ | ⟨err, hn⟩ <;> cases hn
      · exact hends
    · rw [he] at h; exact h
  · intro hends
    obtain ⟨n, hn⟩ := exists_readies_polled hready
      (3 * w.sendBuffer.reaableData.length + w.net.rx.length + 0)
    refine ⟨n, ?_⟩
    have h := hloop True (fun _ => hends) _ ⟨⟨hending n, fun _ => hn⟩, hP _⟩
    rcases he : m.exec (w.withScript (polled polls n)) with ⟨x | a, w'⟩
    · rw [he] at h
      rcases h with ⟨-, hF⟩ | ⟨err, rfl, -⟩
      · exact absurd trivial hF
      · exact .inr ⟨err, rfl⟩
    · exact .inl ⟨a, rfl⟩

end

/-- On a closed stream, and with a transport that is ready again and again and reports no error,
`read_packet` and `run_io` return if and only if the bytes in the buffer and in the rest of the
stream are at least `N` or contain a packet or an error at their front. -/
theorem reads_end_iff (hdec : C.Decisive) (hm : w.mapped = none) (hcon : w.connection = true)
    (hclosed : w.net.closed = true) {polls : Nat → Poll} (hclean : ∀ i kind, polls i ≠ .error kind)
    (hready : ∀ i, ∃ j, i ≤ j ∧ ∃ k, polls j = .ready k) :
    ((∃ n, Returned ((TcpConnectionState.readPacket C).exec (w.withScript (polled polls n))).1) ↔
      Ends C N (w.recvBuffer.reaableData ++ w.net.rx)) ∧
    (w.inner = some .connected →
      ((∃ n, Returned ((ConnectionState.runIo C).exec (w.withScript (polled polls n))).1) ↔
        Ends C N (w.recvBuffer.reaableData ++ w.net.rx))) := by
  constructor
  · exact returns_iff (P := fun _ => True) hm hcon hclosed hclean hready (fun _ => trivial)
      fun F hF => (Going.readPacket hdec hF).conseq (fun _ h => h.1) (fun _ _ h => h) (fun _ _ h => h)
  · intro hinner
    exact returns_iff (P := fun s => s.inner = some .connected) hm hcon hclosed hclean hready
      (fun _ => hinner) fun F hF => Going.runIo hdec hF

/-! ## A packet in the buffer at the end of the stream -/

/-- Everything has been read, and `d` is what is unread in the buffer. -/
structure Drained (d : List UInt8) (w : World N) : Prop where
  mapped : w.mapped = none
  rx : w.net.rx = []
  unread : w.recvBuffer.reaableData = d

theorem Drained.step {a : Act} {d : List UInt8} (ha : a = .silent ∨ a = .transmit ∨ a = .receive)
    (h : Step C a w w') (hw : Drained d w) : Drained d w' := by
  cases h with
  | silent _ hr hm hn => exact ⟨hm ▸ hw.mapped, hn ▸ hw.rx, hr ▸ hw.unread⟩
  | transmit => exact ⟨hw.mapped, hw.rx, hw.unread⟩
  | receive bytes hb hd =>
    rw [hw.rx, List.take_nil] at hb
    rw [hb, List.append_nil] at hd
    refine ⟨hw.mapped, ?_, hd.trans hw.unread⟩
    change w.net.rx.drop _ = []
    rw [hw.rx, List.drop_nil]
  | decode | consume | accept | refuse => simp at ha

/-- When `send_receive` comes back, the packet at the front of the buffer is returned. -/
theorem runIo_of_sendReceive {r : Nat × Packet} (hinner : w.inner = some .connected)
    (hm : w.mapped = none) (hrx : w.net.rx = [])
    (hr : C.decodeSliceWithLen w.recvBuffer.reaableData = .ok (some r))
    (hback : (TcpConnectionState.sendReceive.exec w).1 = .ok ()) :
    ((ConnectionState.runIo C).exec w).1 = .ok r.2 := by
  have hmoves := TcpConnectionState.sendReceive_moves (C := C)
    (A := fun a => a = .silent ∨ a = .transmit ∨ a = .receive) (.inl rfl) (.inr (.inl rfl))
    (.inr (.inr rfl)) w
  have hdrained : Drained w.recvBuffer.reaableData (TcpConnectionState.sendReceive.exec w).2 :=
    hmoves.invariant (fun _ _ ⟨_, ha, h⟩ => Drained.step ha h) ⟨hm, hrx, rfl⟩
  obtain ⟨w₁, hexec⟩ : ∃ w₁, TcpConnectionState.sendReceive.exec w = (.ok (), w₁) :=
    ⟨_, Prod.ext hback rfl⟩
  rw [hexec] at hdrained
  have hread : ((TcpConnectionState.tryReadPacket C).exec w₁).1 = .ok (some r.2) := by
    rw [TcpConnectionState.tryReadPacket_exec, hdrained.mapped, hdrained.unread, hr]
    rfl
  have hturn : ((ConnectionState.runIoTurn C).exec w).1 = .ok (some r.2) := by
    rw [ConnectionState.runIoTurn, exec_bind_ok hexec, hread]
  rw [ConnectionState.runIo, exec_get_bind, exec_bind, exec_ensure, if_pos hinner]
  dsimp only
  rw [Prog.loop, exec_bind_ok (Prod.ext hturn rfl)]
  rfl

/-- On a stream that the peer has closed, `run_io` does return a complete packet at the front of the
unread bytes: the read before the decoding answers `Ok(0)`. -/
theorem runIo_returns_of_closed {r : Nat × Packet} (hm : w.mapped = none)
    (hcon : w.connection = true) (hinner : w.inner = some .connected)
    (hclosed : w.net.closed = true) (hrx : w.net.rx = [])
    (hr : C.decodeSliceWithLen w.recvBuffer.reaableData = .ok (some r)) {polls : Nat → Poll}
    (hclean : ∀ i kind, polls i ≠ .error kind)
    (hready : ∀ i, ∃ j, i ≤ j ∧ ∃ k, polls j = .ready k) :
    ∃ n, ((ConnectionState.runIo C).exec (w.withScript (polled polls n))).1 = .ok r.2 := by
  obtain ⟨n, hn⟩ := exists_readies_polled hready
    (3 * w.sendBuffer.reaableData.length + w.net.rx.length + 0)
  have hgoing : Going True 0 (w.recvBuffer.reaableData ++ w.net.rx)
      (w.withScript (polled polls n)) :=
    ⟨⟨hcon, hm, hclosed, clean_polled hclean n, rfl⟩, fun _ => hn⟩
  refine ⟨n, runIo_of_sendReceive hinner hm hrx hr ?_⟩
  have hback := Going.sendReceive (polled polls n).length _ ⟨hgoing, Nat.le_refl _⟩
  rcases he : TcpConnectionState.sendReceive.exec (w.withScript (polled polls n)) with ⟨x | a, w'⟩
  · rw [he] at hback
    exact absurd trivial hback.2
  · rfl

/-! ### A stream that ends after the connack -/

/-- A component that has been connected by a peer that closes the stream after the connack. -/
@[irreducible] def closed20 : World 20 :=
  Call.after wire ((ConnectionState.establish sampleConfig connackBytes true).exec
    (World.new [.ready 0])).2 connectOnly

theorem closed20_onConnection : OnConnection wire connackBytes true connectOnly closed20 := by
  unfold closed20
  exact .of_calls (by decide +kernel) _

theorem closed20_connected : closed20.inner = some .connected := by decide +kernel

theorem closed20_mapped : closed20.mapped = none := by decide +kernel

theorem closed20_connection : closed20.connection = true := by decide +kernel

theorem closed20_closed : closed20.net.closed = true := by decide +kernel

theorem runIo_never_ends_on_closed20 :
    OnConnection wire connackBytes true connectOnly closed20 ∧
      closed20.inner = some .connected ∧ closed20.net.closed = true ∧ closed20.net.rx = [] ∧
      ∀ n, ¬ Returned ((ConnectionState.runIo wire).exec
        (closed20.withScript (polled (fun _ => .ready 0) n))).1 := by
  refine ⟨closed20_onConnection, closed20_connected, closed20_closed, by decide +kernel, ?_⟩
  intro n hn
  have hends : ¬ Ends wire 20 (closed20.recvBuffer.reaableData ++ closed20.net.rx) := by
    decide +kernel
  exact hends ((returns_iff (P := fun s => s.inner = some .connected) closed20_mapped
    closed20_connection closed20_closed (fun _ _ => by simp) (fun i => ⟨i, Nat.le_refl i, 0, rfl⟩)
    (fun _ => closed20_connected) fun F hF => Going.runIo Wire.decisive hF).mp ⟨n, hn⟩)

theorem reads_end_iff_on_closed20 :
    (∃ n, Returned ((TcpConnectionState.readPacket wire).exec
        (closed20.withScript (polled (fun _ => .ready 0) n))).1) ↔
      Ends wire 20 (closed20.recvBuffer.reaableData ++ closed20.net.rx) :=
  (reads_end_iff Wire.decisive closed20_mapped closed20_connection closed20_closed
    (fun _ _ => by simp) fun i => ⟨i, Nat.le_refl i, 0, rfl⟩).1

end EmbeddedMqttc
