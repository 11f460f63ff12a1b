import EmbeddedMqttc.ClientSession

/-!
# What makes `run` panic

The connection is full of `unwrap` and of borrows that are checked at run time. Whatever bytes the
broker sends and however the transport behaves, none of them panics in the calls of `run` that the
assertions allow (`panics_only`). What is left is the CONNACK that `process_packet` does not expect,
which any broker can send twice, and the pid pool, which an auto subscribe can find exhausted.

The codec is a parameter whose calls return: for any bytes `decode_slice_with_len` gives a packet,
nothing or an error. A panic inside it would be a panic of `run` too, and is not looked at here.
-/

namespace EmbeddedMqttc

open Prog TcpConnectionState

variable {N : Nat} {α β : Type} {value : Option ConnectionStateValue} {C : Codec} {w w' : World N}

/-- A call has stopped without a panic and left the world open. -/
def World.Stopped (value : Option ConnectionStateValue) (x : Stop MqttError) (w : World N) : Prop :=
  x ≠ .panic ∧ w.Open value

/-- A call has panicked for want of a pid only. -/
def World.Exhausted (x : Stop MqttError) (w : World N) : Prop := x = .panic → w.pool.nextPid = none

/-- A call that leaves an open world open and does not panic. -/
def Steady (value : Option ConnectionStateValue) (m : Io N α) : Prop :=
  Triple (World.Open value) m (fun _ => World.Open value) (World.Stopped value)

theorem World.Open.stopped {x : Stop MqttError} (h : w.Open value) (hx : x ≠ .panic) :
    w.Stopped value x := ⟨hx, h⟩

theorem World.Stopped.exhausted {x : Stop MqttError} (h : w.Stopped value x) : w.Exhausted x :=
  fun he => absurd he h.1

theorem Steady.pure (a : α) : Steady value (pure a : Io N α) := Triple.pure a fun _ h => h

theorem Steady.throw {x : Stop MqttError} (hx : x ≠ .panic) : Steady value (throw x : Io N α) :=
  Triple.throw x fun _ h => h.stopped hx

theorem Steady.bind {m : Io N α} {f : α → Io N β} (hm : Steady value m)
    (hf : ∀ a, Steady value (f a)) : Steady value (m >>= f) := Triple.bind hm hf

theorem Steady.get_bind {f : World N → Io N β} (hf : ∀ t, Steady value (f t)) :
    Steady value (MonadState.get >>= f) := Triple.get_bind_of_pre fun t _ => hf t

theorem Steady.modify {g : World N → World N} (hg : ∀ w, w.Open value → (g w).Open value) :
    Steady value (modify g : Io N PUnit) := Triple.modify g hg

theorem Steady.loop {body : Io N (Option α)} (h : Steady value body) (n : Nat) :
    Steady value (Prog.loop n body) := by
  refine Triple.loop (h.weaken (fun o _ hw => ?_) fun _ _ hw => hw) (fun _ hw => hw.stopped nofun) n
  cases o <;> exact hw

theorem Interrupted.stopped {m : Io N α} (h : Interrupted w' (m.exec w)) (hw : w'.Open value) :
    ∃ x s, m.exec w = (.error x, s) ∧ s.Stopped value x := by
  obtain ⟨ps, -, ⟨h, -⟩ | ⟨kind, h, -⟩⟩ := h
  · exact ⟨_, _, h, World.Open.stopped (hw.congr rfl rfl rfl) nofun⟩
  · exact ⟨_, _, h, World.Open.stopped (hw.congr rfl rfl rfl) nofun⟩

/-! ## The functions of the connection -/

theorem networkFlush_steady : Steady value (networkFlush : Io N Unit) := by
  intro w hw
  rcases networkFlush_cases w with h | ⟨k, ps, -, -, h⟩
  · obtain ⟨x, s, h, hs⟩ := h.stopped hw
    rw [h]
    exact hs
  · rw [h]
    exact hw.congr rfl rfl rfl

theorem unwrapConnection_steady : Steady value (unwrapConnection : Io N Unit) := by
  intro w hw
  rw [unwrapConnection_exec, if_pos hw.connection]
  exact hw

theorem borrowRecv_steady : Steady value (borrowRecv : Io N Unit) := by
  intro w hw
  rw [borrowRecv_exec, if_pos hw.mapped]
  exact hw

theorem transmit_steady : Steady value (transmit : Io N Unit) := by
  intro w hw
  rcases transmit_cases w with h | ⟨k, ps, b, -, -, -, -, h⟩
  · obtain ⟨x, s, h, hs⟩ := h.stopped hw
    rw [h]
    exact hs
  · rw [h]
    exact hw.congr rfl rfl rfl

theorem receive_steady {read : Nat → Io N (List UInt8)}
    (h : read = networkRead ∨ read = networkTryRead) : Steady value (receive read) := by
  intro w hw
  rcases h with rfl | rfl
  · rcases receive_networkRead_cases w with ⟨-, b, -, h⟩ | ⟨bytes, ps, b, -, -, -, -, -, h⟩
    · obtain ⟨x, s, h, hs⟩ := h.stopped (hw.congr rfl rfl rfl)
      rw [h]
      exact hs
    · rw [h]
      exact hw.congr rfl rfl rfl
  · rcases receive_networkTryRead_cases w with ⟨b, kind, ps, -, -, h⟩ | ⟨bytes, ps, b, -, -, -, h⟩
    · rw [h]
      exact World.Open.stopped (hw.congr rfl rfl rfl) nofun
    · rw [h]
      exact hw.congr rfl rfl rfl

theorem sendAll_steady : Steady value (sendAll : Io N Unit) := by
  refine .bind unwrapConnection_steady fun _ =>
    .get_bind fun _ => .bind (.loop (.get_bind fun _ => ?_) _) fun _ => networkFlush_steady
  split
  · exact .bind transmit_steady fun _ => .pure _
  · exact .pure _

theorem send_steady : Steady value (send : Io N Unit) := by
  refine .get_bind fun _ => ?_
  split
  · exact .bind unwrapConnection_steady fun _ => .bind transmit_steady fun _ => networkFlush_steady
  · exact .pure _

theorem sendReceive_steady : Steady value (sendReceive : Io N Unit) := by
  have hturn : Steady value (sendReceiveTurn : Io N _) := by
    refine .get_bind fun _ => ?_
    split
    · exact .bind transmit_steady fun _ => .bind networkFlush_steady fun _ =>
        .bind (receive_steady (.inr rfl)) fun _ => .pure _
    · exact .pure _
  refine .bind borrowRecv_steady fun _ => .bind (.modify fun w hw => hw.congr rfl rfl rfl) fun _ =>
    .bind unwrapConnection_steady fun _ => .get_bind fun _ => .bind (.loop hturn _) fun early => ?_
  cases early with
  | true => exact .pure _
  | false => exact .bind (receive_steady (.inl rfl)) fun _ => .pure _

theorem ensure_steady {c : Prop} [Decidable c] {x : Stop MqttError} (hx : x ≠ .panic) :
    Steady value (Prog.ensure c x : Io N Unit) :=
  .ensure _ _ (fun _ h _ => h) fun _ h _ => h.stopped hx

theorem liftExcept_steady (r : Except MqttError α) : Steady value (liftExcept r : Io N α) := by
  cases r with
  | ok a => exact .pure a
  | error e => exact .throw nofun

theorem tryWritePacket_steady (hC : C.WritesEncoding) (p : Packet) :
    Steady value (TcpConnectionState.tryWritePacket C p : Io N Bool) := by
  intro w hw
  rcases TcpConnectionState.tryWritePacket_cases hC p w with ⟨b, -, h⟩ | ⟨b, r, -, hr, h⟩ <;> rw [h]
  · exact hw.congr rfl rfl rfl
  · have hopen : (w.withSend b).Open value := hw.congr rfl rfl rfl
    rcases hr with rfl | rfl | ⟨err, rfl⟩
    · exact hopen
    · exact hopen.stopped nofun
    · exact hopen.stopped nofun

theorem trait_tryWritePacket_steady (hC : C.WritesEncoding) (p : Packet) :
    Steady value (ConnectionState.tryWritePacket C p : Io N Bool) := by
  intro w hw
  rcases ConnectionState.tryWritePacket_cases hC p w with
    ⟨n, b, -, -, h⟩ | ⟨err, b, r, -, -, -, -, hr, h⟩ <;> rw [h]
  · exact hw.congr rfl rfl rfl
  · have hopen : (w.withSend b).Open value := hw.congr rfl rfl rfl
    rcases hr with ⟨-, rfl⟩ | ⟨-, rfl⟩
    · exact hopen
    · exact hopen.stopped nofun

/-- With nothing pending, the inherent method finds the whole buffer free: it never asks to be called
again. -/
theorem tryWritePacket_drained (hC : C.WritesEncoding) (p : Packet) :
    Triple (fun w : World N => w.Open value ∧ w.Drained) (TcpConnectionState.tryWritePacket C p)
      (fun sent w => sent = true ∧ w.Open value) (World.Stopped value) := by
  rintro w ⟨hw, hdrained⟩
  have hsteady := tryWritePacket_steady hC p w hw
  have hne : ((TcpConnectionState.tryWritePacket C p).exec w).1 ≠ .ok false := by
    have hfront : w.sendBuffer.flip.writeableData.writePosition = 0 := by
      have hflip : w.sendBuffer.flip.writePosition = 0 := by
        rw [StackBuffer.writePosition_flip, ← StackBuffer.length_reaableData, hdrained,
          List.length_nil]
      rw [StackBuffer.writePosition_writeableData, hflip, StackBuffer.readPosition_flip]
      split <;> omega
    rw [TcpConnectionState.tryWritePacket, exec_get_bind]
    simp only [exec_set_bind]
    cases hresult : (C.encodeSlice p w.sendBuffer.flip.writeableData.freeData).1 with
    | ok n =>
      obtain ⟨b, hb, -⟩ := hC.commit hresult
      simp only [hb]
      intro h
      cases h
    | error err =>
      cases err with
      | other code =>
        intro h
        cases h
      | writeZero =>
        have hcapacity : (w.sendBuffer.flip.writeableData.writeSlice
            (C.encodeSlice p w.sendBuffer.flip.writeableData.freeData).2).isMaxCapacity = true := by
          simp [StackBuffer.isMaxCapacity, hfront]
        simp only [hcapacity, if_true]
        intro h
        cases h
  rcases hexec : (TcpConnectionState.tryWritePacket C p).exec w with ⟨x | sent, w'⟩ <;>
    rw [hexec] at hsteady hne
  · exact hsteady
  · cases sent with
    | true => exact ⟨rfl, hsteady⟩
    | false => exact absurd rfl hne

theorem writePacketAsync_steady (hC : C.WritesEncoding) (p : Packet) :
    Steady value (writePacketAsync C p : Io N Unit) := by
  refine .get_bind fun _ => .loop (.bind (tryWritePacket_steady hC p) fun sent => ?_) _
  cases sent with
  | true => exact .pure _
  | false => exact .bind send_steady fun _ => .pure _

theorem nextPid_exhausts : Triple (World.Open value) (nextPid : Io N Pid)
    (fun _ => World.Open value) World.Exhausted := by
  intro w hw
  rw [nextPid, exec_get_bind]
  cases hpid : w.pool.nextPid with
  | none => exact fun _ => hpid
  | some r => exact hw.congr rfl rfl rfl

/-- A packet that has been read borrows no more than the unread bytes. -/
def World.Lends (value : Option ConnectionStateValue) (packet : Option Packet) (w : World N) : Prop :=
  match packet with
  | some _ => (w.inner = value ∧ w.connection = true) ∧
      ∃ n, w.mapped = some n ∧ n ≤ w.recvBuffer.reaableData.length
  | none => w.Open value

section

variable (hlen : C.LengthsInRange)
include hlen

theorem tryReadPacket_steady : Triple (World.Open value) (tryReadPacket C : Io N _)
    (World.Lends value) (World.Stopped value) := by
  intro w hw
  rw [tryReadPacket_exec, hw.mapped, if_neg (by simp)]
  rcases hdecode : C.decodeSliceWithLen w.recvBuffer.reaableData with err | (_ | ⟨n, packet⟩)
  · exact hw.stopped nofun
  · by_cases hfull : w.recvBuffer.reaableData.length = N
    · simp only [hfull, if_true]
      exact hw.stopped nofun
    · simp only [hfull, if_false]
      exact hw
  · exact ⟨⟨hw.inner, hw.connection⟩, n, rfl, (hlen _ _ _ hdecode).2⟩

omit hlen in
theorem dropPacket_steady (packet : Packet) :
    Triple (World.Lends value (some packet)) (dropPacket : Io N _) (fun _ => World.Open value)
      (World.Stopped value) := by
  rintro w ⟨⟨hinner, hconnection⟩, n, hmapped, hn⟩
  obtain ⟨b, hb, -⟩ := StackBuffer.addBytesRead_of_le hn
  rw [dropPacket_exec, hmapped]
  simp only [hb]
  exact World.Open.mk (w := { w with recvBuffer := b, mapped := none }) hinner hconnection rfl

omit hlen in
/-- A loop of reads ends with a packet. -/
theorem loop_steady {body : Io N (Option Packet)}
    (h : Triple (World.Open value) body (World.Lends value) (World.Stopped value)) (n : Nat) :
    Triple (World.Open value) (Prog.loop n body) (fun packet => World.Lends value (some packet))
      (World.Stopped value) := by
  refine Triple.loop (h.weaken (fun o _ hw => ?_) fun _ _ hw => hw) (fun _ hw => hw.stopped nofun) n
  cases o <;> exact hw

theorem readPacket_steady : Triple (World.Open value) (readPacket C : Io N _)
    (fun packet => World.Lends value (some packet)) (World.Stopped value) := by
  have hturn : Triple (World.Open value) (readPacketTurn C : Io N _) (World.Lends value)
      (World.Stopped value) := by
    refine .bind (tryReadPacket_steady hlen) fun o => ?_
    cases o with
    | some packet => exact .pure _ fun _ h => h
    | none => exact .bind (receive_steady (.inl rfl)) fun _ => .pure _ fun _ h => h
  exact .bind unwrapConnection_steady fun _ => .get_bind_of_pre fun _ _ => loop_steady hturn _

/-! ## The functions that `run` calls -/

theorem runIo_steady : Triple (World.Open (some .connected)) (ConnectionState.runIo C : Io N _)
    (fun packet => World.Lends (some .connected) (some packet))
    (World.Stopped (some .connected)) := by
  refine .get_bind_of_pre fun t ht => .bind (Q := fun _ => World.Open (some .connected)) ?_ fun _ =>
    loop_steady (.bind sendReceive_steady fun _ => tryReadPacket_steady hlen) _
  exact .ensure _ _ (fun _ h _ => h) fun _ _ h => absurd ht.inner h

theorem runIoNonblocking_steady : Triple (World.Open (some .connected))
    (ConnectionState.runIoNonblocking C : Io N _) (World.Lends (some .connected))
    (World.Stopped (some .connected)) := by
  refine .get_bind_of_pre fun t ht => .bind (Q := fun _ => World.Open (some .connected)) ?_ fun _ =>
    .bind send_steady fun _ => .bind unwrapConnection_steady fun _ => .bind borrowRecv_steady fun _ =>
      .bind (receive_steady (.inr rfl)) fun _ => tryReadPacket_steady hlen
  exact .ensure _ _ (fun _ h _ => h) fun _ _ h => absurd ht.inner h

variable (hC : C.WritesEncoding)
include hC

theorem subscribeChunks_exhausts (chunks : List (List AutoSubscribe)) :
    Triple (World.Open value) (subscribeChunks C chunks : Io N Unit) (fun _ => World.Open value)
      World.Exhausted := by
  have hstop {β : Type} {P : World N → Prop} {Q : β → World N → Prop} {m : Io N β}
      (h : Triple P m Q (World.Stopped value)) : Triple P m Q World.Exhausted :=
    h.weaken (fun _ _ h => h) fun _ _ h => h.exhausted
  induction chunks with
  | nil => exact .pure _ fun _ h => h
  | cons chunk chunks ih =>
    exact .bind nextPid_exhausts fun pid => .bind (hstop (liftExcept_steady _))
      fun topics => .bind (hstop (writePacketAsync_steady hC _)) fun _ =>
        .bind (hstop sendAll_steady) fun _ => .bind (hstop (readPacket_steady hlen)) fun packet =>
          .bind (hstop (dropPacket_steady packet)) fun _ => .bind (hstop (liftExcept_steady _))
            fun _ => ih

/-- The handshake panics for want of a pid only. -/
theorem awaitConnack_exhausts (config : ClientConfig) :
    Triple (World.Open (some .connectSent)) (awaitConnack C config : Io N Unit) (fun _ _ => True)
      World.Exhausted := by
  have hstop {β : Type} {P : World N → Prop} {Q : β → World N → Prop} {m : Io N β}
      (h : Triple P m Q (World.Stopped (some .connectSent))) : Triple P m Q World.Exhausted :=
    h.weaken (fun _ _ h => h) fun _ _ h => h.exhausted
  have hnotify (value : ConnectionStateValue) : Triple (World.Open (N := N) (some .connectSent))
      (notify value) (fun _ _ => True) World.Exhausted := .modify _ fun _ _ => trivial
  have hrefused (e : MqttError) : Triple (World.Open (N := N) (some .connectSent))
      (do notify .error; Prog.fail e : Io N Unit) (fun _ _ => True) World.Exhausted :=
    .bind (hnotify .error) fun _ => .throw _ fun _ _ => nofun
  refine .bind (hstop (readPacket_steady hlen)) fun packet =>
    .bind (hstop (dropPacket_steady packet)) fun _ => .bind (hstop (liftExcept_steady _))
      fun connack => ?_
  unfold processConnack
  split
  · exact .bind (subscribeChunks_exhausts hlen hC _) fun _ => hnotify .connected
  all_goals exact hrefused _

omit hlen hC in
theorem establish_steady (config : ClientConfig) (incoming : List UInt8) (closed : Bool) :
    Triple World.Idle (ConnectionState.establish config incoming closed : Io N Unit)
      (fun _ w => ∃ value, w.Open value) (fun x _ => x ≠ .panic) := by
  have hanswer : Triple (World.Idle (N := N)) awaitAnswer (fun _ => World.Idle)
      (fun x _ => x ≠ .panic) := by
    intro w hw
    rw [awaitAnswer_exec]
    rcases nextAnswer w.script with _ | ⟨answer, ps⟩
    · exact nofun
    · exact (⟨hw.inner, hw.mapped⟩ : (w.withScript ps).Idle)
  have hresolve : Triple (World.Idle (N := N)) (resolve config.host) (fun _ => World.Idle)
      (fun x _ => x ≠ .panic) := by
    cases config.host with
    | ip addr => exact .pure _ fun _ h => h
    | hostname name =>
      refine .bind hanswer fun answer => ?_
      cases answer with
      | ok k => exact .pure _ fun _ h => h
      | error kind => exact .throw _ fun _ _ => nofun
  have hborrow : Triple (World.Idle (N := N)) borrowRecv (fun _ => World.Idle)
      (fun x _ => x ≠ .panic) := by
    intro w hw
    rw [borrowRecv_exec, if_pos hw.mapped]
    exact hw
  refine .get_bind_of_pre fun t ht => .bind (Q := fun _ => World.Idle)
    (.ensure _ _ (fun _ h _ => h) fun _ _ h => absurd ht.inner h) fun _ => .bind hborrow fun _ =>
      .bind (.modify (Q := fun _ => World.Idle) _ fun w hw => ⟨hw.inner, hw.mapped⟩) fun _ =>
        .bind hresolve fun _ => .bind hanswer fun answer => ?_
  cases answer with
  | ok k => exact .modify _ fun w hw => ⟨w.inner, rfl, rfl, hw.mapped⟩
  | error kind => exact .throw _ fun _ _ => nofun

omit hlen in
theorem connectUntilConnack_steady (config : ClientConfig) (lastWill : Option LastWill)
    (incoming : List UInt8) (closed : Bool) :
    Triple World.Idle (ConnectionState.connectUntilConnack C config lastWill incoming closed : Io N _)
      (fun _ _ => True) (fun x _ => x ≠ .panic) := by
  refine .bind (establish_steady config incoming closed) fun _ => .exists fun value => ?_
  have hsend : Triple (World.Open (N := N) value) (sendConnect C config lastWill) (fun _ _ => True)
      (World.Stopped value) :=
    .bind (tryWritePacket_steady hC _) fun _ => .bind (ensure_steady nofun) fun _ =>
      .bind send_steady fun _ => .modify _ fun _ _ => trivial
  exact hsend.weaken (fun _ _ h => h) fun _ _ h => h.1

omit hlen in
theorem disconnect_steady : Triple (World.Open (some .connected))
    (ConnectionState.disconnect C : Io N Unit) (fun _ _ => True)
    (World.Stopped (some .connected)) := by
  have hdrains : Triple (World.Open (N := N) (some .connected)) sendAll
      (fun _ w => w.Open (some .connected) ∧ w.Drained) (World.Stopped (some .connected)) :=
    (Triple.and sendAll_steady
      (sendAll_drains.conseq (fun _ _ => trivial) (fun _ _ h => h) fun _ _ h => h)).weaken
        (fun _ _ h => h) fun _ _ h => h.1
  refine .get_bind_of_pre fun t ht => .bind (Q := fun _ => World.Open (some .connected))
    (.ensure _ _ (fun _ h _ => h) fun _ _ h => absurd ht.inner h) fun _ => .bind hdrains fun _ =>
      .bind (tryWritePacket_drained hC .disconnect) fun sent => .and_left fun hsent => ?_
  subst hsent
  have hsent : Steady (N := N) (some .connected) (Prog.ensure (true = true) .panic) :=
    .ensure _ _ (fun _ h _ => h) fun _ _ h => absurd rfl h
  exact .bind hsent fun _ => .bind sendAll_steady fun _ => .bind unwrapConnection_steady fun _ =>
    .bind (.modify (Q := fun _ _ => True) _ fun _ _ => trivial) fun _ => .modify _ fun _ _ => trivial

end

/-! ## Runs -/

namespace Runner

variable {s s' : Runner N} {l : RunLabel} {config : ClientConfig} {lastWill : Option LastWill}

/-- The packet that is processed borrows no more than the unread bytes. -/
def Lending (s : Runner N) : Prop :=
  ∀ packet, s.stage = .processing packet → s.world.Lends (some .connected) (some packet)

/-- `process_packet` is given a CONNACK, or an auto subscribe finds no pid. -/
def Crashes (s : Runner N) (l : RunLabel) (s' : Runner N) : Prop :=
  (∃ connack result, s.stage = .processing (.connack connack) ∧ l = .processed result) ∨
    ∃ script, l = .awaitConnack script ∧ s'.world.pool.nextPid = none

/-- The state after a call of `run_once` that did not panic. -/
structure Calm (s : Runner N) : Prop where
  lending : s.Lending
  stage : s.stage ≠ .panicked

theorem Calm.of_stage {stage : RunStage} (hprocessing : ∀ packet, stage ≠ .processing packet)
    (hpanicked : stage ≠ .panicked) : (⟨w, stage⟩ : Runner N).Calm :=
  ⟨fun packet h => absurd h (hprocessing packet), hpanicked⟩

theorem calm_start (w : World N) : (start w).Calm := by
  unfold start
  split <;> exact .of_stage nofun nofun

theorem calm_raise (handshake : Bool) (e : MqttError) (w : World N) :
    (raise handshake e w).Calm := by
  unfold raise
  split
  · exact calm_start _
  · exact .of_stage nofun nofun

theorem calm_woken (disconnect : Bool) (w : World N) : (woken disconnect w).Calm := by
  unfold woken
  split
  · exact .of_stage nofun nofun
  · exact calm_start w

/-- What a step leaves: a packet that is lent out as it should be, and a panic for its reasons. -/
def Leaves (s : Runner N) (l : RunLabel) (s' : Runner N) : Prop :=
  s'.Lending ∧ (s'.stage = .panicked → s.Crashes l s')

theorem Calm.leaves (h : s'.Calm) : s.Leaves l s' := ⟨h.lending, fun hp => absurd hp h.stage⟩

/-- A call into the connection that does not panic. -/
theorem settle_calm {α : Type} {done : α → World N → Runner N} {m : Io N α} {P : World N → Prop}
    {Q : α → World N → Prop} {X : Stop MqttError → World N → Prop}
    {failed : MqttError → World N → Runner N} (hs : settle done failed (m.exec w) = some s')
    (h : Triple P m Q X) (hw : P w) (hX : ∀ x w, X x w → x ≠ .panic)
    (hdone : ∀ a w, Q a w → (done a w).Calm) (hfailed : ∀ e w, (failed e w).Calm) : s'.Calm :=
  settle_spec hs h hw hdone (fun e w _ => hfailed e w) fun _ hx => absurd rfl (hX _ _ hx)

theorem finishPacket_leaves {packet : Packet} {result : Except MqttError Unit}
    (hw : w.Lends (some .connected) (some packet)) (h : finishPacket packet result w = some s') :
    (⟨w, .processing packet⟩ : Runner N).Leaves (.processed result) s' := by
  cases packet with
  | connack connack =>
    cases h
    exact ⟨nofun, fun _ => .inl ⟨connack, result, rfl, rfl⟩⟩
  | _ =>
    refine (settle_calm h (dropPacket_steady _) hw (fun _ _ hx => hx.1) (fun _ w _ => ?_)
      (calm_raise false)).leaves
    cases result with
    | ok => exact calm_start w
    | error e => exact calm_raise false e w

theorem leaves_step (hC : C.WritesEncoding) (hlen : C.LengthsInRange) (hinv : s.Inv)
    (hlending : s.Lending) (h : s.next C config lastWill l = some s') : s.Leaves l s' := by
  obtain ⟨w, stage⟩ := s
  have hprocessing {packet : Packet} {w : World N}
      (hw : w.Lends (some .connected) (some packet)) : (⟨w, .processing packet⟩ : Runner N).Calm :=
    ⟨fun _ hstage => by cases hstage; exact hw, nofun⟩
  cases l with
  | run =>
    cases stage with
    | new | returned | returnedError e handshake => cases h; exact (calm_start w).leaves
    | _ => cases h
  | connect incoming closed script =>
    obtain ⟨rfl, h⟩ := Option.ite_none_right_eq_some.mp h
    have hidle : World.Idle (w.withScript script) := ⟨hinv.inner, hinv.mapped⟩
    exact (settle_calm h (connectUntilConnack_steady hC config lastWill incoming closed) hidle
      (fun _ _ hx => hx) (fun _ _ _ => .of_stage nofun nofun) (calm_raise false)).leaves
  | awaitConnack script =>
    obtain ⟨rfl, h⟩ := Option.ite_none_right_eq_some.mp h
    refine settle_spec (J := Leaves _ _) h (awaitConnack_exhausts hlen hC config)
      (World.Open.congr hinv rfl rfl rfl) (fun _ w _ => ?_) (fun e w _ => (calm_raise true e w).leaves)
      fun w hw => ⟨nofun, fun _ => .inr ⟨script, rfl, hw rfl⟩⟩
    exact Calm.leaves (.of_stage nofun nofun)
  | tryWritePacket packet =>
    obtain ⟨rfl, h⟩ := Option.ite_none_right_eq_some.mp h
    exact (settle_calm h (trait_tryWritePacket_steady hC packet) hinv (fun _ _ hx => hx.1)
      (fun _ _ _ => .of_stage nofun nofun) (calm_raise false)).leaves
  | sent result =>
    obtain ⟨rfl, h⟩ := Option.ite_none_right_eq_some.mp h
    rcases result with e | _ | _
    · cases h
      exact (calm_raise false e w).leaves
    all_goals
      cases h
      exact Calm.leaves (.of_stage nofun nofun)
  | runIoNonblocking script =>
    obtain ⟨rfl, h⟩ := Option.ite_none_right_eq_some.mp h
    refine (settle_calm h (runIoNonblocking_steady hlen) (World.Open.congr hinv rfl rfl rfl)
      (fun _ _ hx => hx.1) (fun packet w hw => ?_) (calm_raise false)).leaves
    cases packet with
    | some packet => exact hprocessing hw
    | none => exact calm_start w
  | runIo script =>
    obtain ⟨rfl, h⟩ := Option.ite_none_right_eq_some.mp h
    exact (settle_calm h (runIo_steady hlen) (World.Open.congr hinv rfl rfl rfl)
      (fun _ _ hx => hx.1) (fun _ _ hw => hprocessing hw) (calm_raise false)).leaves
  | interruptIo disconnect script =>
    cases script with
    | none =>
      obtain ⟨rfl, h⟩ := Option.ite_none_right_eq_some.mp h
      cases h
      exact (calm_woken disconnect w).leaves
    | some script =>
      obtain ⟨rfl, h⟩ := Option.ite_none_right_eq_some.mp h
      dsimp only at h
      split at h
      · cases h
        exact (calm_woken disconnect _).leaves
      · cases h
  | processed result =>
    cases stage with
    | processing packet => exact finishPacket_leaves (hlending packet rfl) h
    | _ => cases h
  | disconnect script =>
    obtain ⟨rfl, h⟩ := Option.ite_none_right_eq_some.mp h
    exact (settle_calm h (disconnect_steady hC) (World.Open.congr hinv rfl rfl rfl)
      (fun _ _ hx => hx.1) (fun _ _ _ => .of_stage nofun nofun)
      fun _ _ => .of_stage nofun nofun).leaves

/-- **`run` panics only** when `process_packet` is given a CONNACK, and then always, or when an auto
subscribe finds no pid: in any calls of `run` that its assertions allow, with any bytes from any
broker, any behaviour of the transport and any codec that does not panic itself. -/
theorem panics_only (hC : C.WritesEncoding) (hlen : C.LengthsInRange) {steps : List RunLabel}
    (h : Run.AllSteps (next C config lastWill) Resumable (new (N := N)) steps)
    (hr : Run.run (next C config lastWill) new steps = some s)
    (hs : s.next C config lastWill l = some s') :
    (s'.stage = .panicked → s.Crashes l s') ∧
      ∀ connack, s.stage = .processing (.connack connack) → s'.stage = .panicked := by
  have hreached : s.Inv ∧ s.Lending := by
    refine h.invariant (I := fun s => s.Inv ∧ s.Lending) (fun s l s' hs hl hnext => ?_)
      ⟨inv_new, nofun⟩ hr
    exact ⟨inv_step hs.1 hl hnext, (leaves_step hC hlen hs.1 hs.2 hnext).1⟩
  refine ⟨(leaves_step hC hlen hreached.1 hreached.2 hs).2, fun connack hstage => ?_⟩
  obtain ⟨w, stage⟩ := s
  obtain rfl : stage = .processing (.connack connack) := hstage
  cases l with
  | processed result => cases hs; rfl
  | interruptIo disconnect script => cases script <;> cases hs
  | _ => cases hs

/-! ### A broker that sends two CONNACKs -/

def secondConnack : List RunLabel :=
  [.run, .connect (Framing.frames wire.encode [.connack acceptingConnack, .connack acceptingConnack])
      false [.ready 0, .ready 100, .ready 0],
    .awaitConnack [.ready 3], .sent (.ok .sentAll), .runIo [.ready 100]]

theorem panics_only_on_secondConnack : ∃ s s' : Runner 20,
    Run.AllSteps (next wire sampleConfig none) Resumable (new (N := 20)) secondConnack ∧
    Run.run (next wire sampleConfig none) new secondConnack = some s ∧
    s.next wire sampleConfig none (.processed (.ok ())) = some s' ∧ s'.stage = .panicked := by
  have hresumable : Run.AllSteps (next wire sampleConfig none) Resumable (new (N := 20))
      secondConnack := by decide +kernel
  have hrun : (Run.run (next wire sampleConfig none) (new (N := 20)) secondConnack).map stage =
      some (.processing (.connack acceptingConnack)) := by decide +kernel
  obtain ⟨s, hs, hstage⟩ := Option.map_eq_some_iff.mp hrun
  have hnext : s.next wire sampleConfig none (.processed (.ok ())) = some ⟨s.world, .panicked⟩ := by
    rw [next, hstage]
    rfl
  exact ⟨s, _, hresumable, hs, hnext,
    (panics_only Wire.writesEncoding Wire.lengthsInRange hresumable hs hnext).2 _ hstage⟩

end Runner

end EmbeddedMqttc
