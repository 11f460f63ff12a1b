import EmbeddedMqttc.ConnectionSpec
import EmbeddedMqttc.EventLoop
import EmbeddedMqttc.OutgoingStream

/-!
# One call of `run` after the other

`State::run` of `src/state/mod.rs` as far as it touches the connection. A step is one call that
`run` makes into the connection, one result of the other components, or a call of `run` by the
application. The other components write any packets and give any results, so that what holds here
holds with the real ones.

`connect` asserts that the state is `None` or `Error`. A call of `run` can leave behind two other
states in which the next one connects: `Disconnected` after a disconnect, and `ConnectSent` after an
error of the handshake that `run` takes to be final.
-/

namespace EmbeddedMqttc

open Prog TcpConnectionState

/-- Where a call of `run` stands, or how the last one ended. `handshake` tells whether the error
arose in `connect` after CONNECT was sent. -/
inductive RunStage where
  | new
  | returned
  | returnedError (e : MqttError) (handshake : Bool)
  | connecting
  | handshake
  | sending
  | runIoNonblocking
  | select
  | processing (packet : Packet)
  | disconnecting
  | panicked
  deriving DecidableEq

inductive RunLabel where
  /-- The application calls `run`. -/
  | run
  /-- `connect` up to the wait for the connack. -/
  | connect (incoming : List UInt8) (closed : Bool) (script : List Poll)
  /-- The rest of `connect`. -/
  | awaitConnack (script : List Poll)
  /-- A component writes a packet while `run_once` sends. -/
  | tryWritePacket (packet : Packet)
  | sent (result : Except MqttError SendResult)
  | runIoNonblocking (script : List Poll)
  /-- The future of `run_io` wins the `select3`. -/
  | runIo (script : List Poll)
  /-- Another future wins, with a request to disconnect or not. The future of `run_io` is dropped
  after these polls, if there were any. -/
  | interruptIo (disconnect : Bool) (script : Option (List Poll))
  | processed (result : Except MqttError Unit)
  | disconnect (script : List Poll)

structure Runner (N : Nat) where
  world : World N
  stage : RunStage
  deriving DecidableEq

variable {N : Nat}

namespace Runner

variable {s s' : Runner N} {l : RunLabel}

def new : Runner N := ⟨.new [], .new⟩

/-- `run_once` begins. -/
def start (w : World N) : Runner N where
  world := w
  stage := if w.inner = some .connected then .sending else .connecting

/-- An error of `run_once`. -/
def raise (handshake : Bool) (e : MqttError) (w : World N) : Runner N :=
  if e.isRecoverable then start (ConnectionState.setError.exec w).2
  else ⟨w, .returnedError e handshake⟩

/-- What follows a call into the connection. While the call is suspended there is no step. -/
def settle {α : Type} (done : α → World N → Runner N) (failed : MqttError → World N → Runner N) :
    Except (Stop MqttError) α × World N → Option (Runner N)
  | (.ok a, w) => some (done a w)
  | (.error (.fail e), w) => some (failed e w)
  | (.error .panic, w) => some ⟨w, .panicked⟩
  | (.error .parked, _) => none

/-- The arms of the `select3` other than the one of `run_io`. -/
def woken (disconnect : Bool) (w : World N) : Runner N :=
  if disconnect then ⟨w, .disconnecting⟩ else start w

/-- `process_packet` panics on a connack. The packet is dropped when it has returned. -/
def finishPacket (packet : Packet) (result : Except MqttError Unit) (w : World N) :
    Option (Runner N) :=
  match packet with
  | .connack _ => some ⟨w, .panicked⟩
  | _ =>
    settle (fun _ => match result with
      | .ok () => start
      | .error e => raise false e) (raise false) (dropPacket.exec w)

variable (C : Codec) (config : ClientConfig) (lastWill : Option LastWill)

def next (s : Runner N) : RunLabel → Option (Runner N)
  | .run =>
    match s.stage with
    | .new | .returned | .returnedError .. => some (start s.world)
    | _ => none
  | .connect incoming closed script =>
    if s.stage = .connecting then
      settle (fun _ w => ⟨w, .handshake⟩) (raise false)
        ((ConnectionState.connectUntilConnack C config lastWill incoming closed).exec
          (s.world.withScript script))
    else none
  | .awaitConnack script =>
    if s.stage = .handshake then
      settle (fun _ w => ⟨w, .sending⟩) (raise true)
        ((awaitConnack C config).exec (s.world.withScript script))
    else none
  | .tryWritePacket packet =>
    if s.stage = .sending then
      settle (fun _ w => ⟨w, .sending⟩) (raise false)
        ((ConnectionState.tryWritePacket C packet).exec s.world)
    else none
  | .sent result =>
    if s.stage = .sending then
      match result with
      | .ok .partiallySent => some { s with stage := .runIoNonblocking }
      | .ok .sentAll => some { s with stage := .select }
      | .error e => some (raise false e s.world)
    else none
  | .runIoNonblocking script =>
    if s.stage = .runIoNonblocking then
      settle (fun packet w => match packet with
        | some packet => ⟨w, .processing packet⟩
        | none => start w) (raise false)
        ((ConnectionState.runIoNonblocking C).exec (s.world.withScript script))
    else none
  | .runIo script =>
    if s.stage = .select then
      settle (fun packet w => ⟨w, .processing packet⟩) (raise false)
        ((ConnectionState.runIo C).exec (s.world.withScript script))
    else none
  | .interruptIo disconnect none =>
    if s.stage = .select then some (woken disconnect s.world) else none
  | .interruptIo disconnect (some script) =>
    if s.stage = .select then
      match (ConnectionState.runIo C).exec (s.world.withScript script) with
      | (.error .parked, w) => some (woken disconnect w)
      | _ => none
    else none
  | .processed result =>
    match s.stage with
    | .processing packet => finishPacket packet result s.world
    | _ => none
  | .disconnect script =>
    if s.stage = .disconnecting then
      -- an error of `disconnect` is returned, whichever it is
      settle (fun _ w => ⟨w, .returned⟩) (fun e w => ⟨w, .returnedError e false⟩)
        ((ConnectionState.disconnect C).exec (s.world.withScript script))
    else none

/-- The assertion of the function that a step calls. -/
def Asserts (s : Runner N) : RunLabel → Prop
  | .connect .. => s.world.inner = none ∨ s.world.inner = some .error
  | .runIoNonblocking _ | .runIo _ | .interruptIo _ (some _) | .disconnect _ =>
    s.world.inner = some .connected
  | _ => True

/-- No assertion fails in a step, and neither does an `unwrap` of the stored connection: where a step
panics, a connection is stored. -/
def Sound (s : Runner N) (l : RunLabel) : Prop :=
  ∀ s', s.next C config lastWill l = some s' →
    s.Asserts l ∧ (s'.stage = .panicked → s'.world.connection = true)

/-- `run` is not called again after it has returned `Ok` from a disconnect, nor after it has returned
an error of the handshake other than that of a refused authentication. -/
def Resumable (s : Runner N) : RunLabel → Prop
  | .run =>
    match s.stage with
    | .returned => False
    | .returnedError e handshake => handshake = true → e = .authenticationError
    | _ => True
  | _ => True

instance : Decidable (s.Asserts l) :=
  match l with
  | .connect .. => inferInstanceAs (Decidable (_ ∨ _))
  | .runIoNonblocking _ | .runIo _ | .interruptIo _ (some _) | .disconnect _ =>
    inferInstanceAs (Decidable (_ = _))
  | .run | .awaitConnack _ | .tryWritePacket _ | .sent _ | .interruptIo _ none | .processed _ =>
    .isTrue trivial

instance : Decidable (s.Resumable l) :=
  match s, l with
  | ⟨_, .returned⟩, .run => .isFalse id
  | ⟨_, .returnedError _ _⟩, .run => inferInstanceAs (Decidable (_ → _))
  | ⟨_, .new⟩, .run | ⟨_, .connecting⟩, .run | ⟨_, .handshake⟩, .run | ⟨_, .sending⟩, .run
  | ⟨_, .runIoNonblocking⟩, .run | ⟨_, .select⟩, .run | ⟨_, .processing _⟩, .run
  | ⟨_, .disconnecting⟩, .run | ⟨_, .panicked⟩, .run => .isTrue trivial
  | _, .connect .. | _, .awaitConnack _ | _, .tryWritePacket _ | _, .sent _
  | _, .runIoNonblocking _ | _, .runIo _ | _, .interruptIo .. | _, .processed _
  | _, .disconnect _ => .isTrue trivial

end Runner

/-! ## What the calls leave alone -/

/-- A connection is stored, the state is `value` and no packet is borrowed. -/
structure World.Open (value : Option ConnectionStateValue) (w : World N) : Prop where
  inner : w.inner = value
  connection : w.connection = true
  mapped : w.mapped = none

/-- How a call stops in an open world: it panics with the connection stored, or leaves the world
open. A refused authentication is not among its errors. -/
def World.Broken (value : Option ConnectionStateValue) (x : Stop MqttError) (w : World N) : Prop :=
  w.connection = true ∧ x ≠ .fail .authenticationError ∧ (x ≠ .panic → w.Open value)

theorem World.Open.broken {w : World N} {value : Option ConnectionStateValue} {x : Stop MqttError}
    (h : w.Open value) (hx : x ≠ .fail .authenticationError) : w.Broken value x :=
  ⟨h.connection, hx, fun _ => h⟩

/-- A call that leaves an open world open. -/
def Quiet {α : Type} (value : Option ConnectionStateValue) (m : Io N α) : Prop :=
  Triple (World.Open value) m (fun _ => World.Open value) (World.Broken value)

section

variable {α β : Type} {value : Option ConnectionStateValue} {C : Codec} {w w' : World N}

theorem Quiet.pure (a : α) : Quiet value (pure a : Io N α) := Triple.pure a fun _ h => h

theorem Quiet.throw {x : Stop MqttError} (hx : x ≠ .fail .authenticationError) :
    Quiet value (throw x : Io N α) := Triple.throw x fun _ h => h.broken hx

theorem Quiet.bind {m : Io N α} {f : α → Io N β} (hm : Quiet value m)
    (hf : ∀ a, Quiet value (f a)) : Quiet value (m >>= f) := Triple.bind hm hf

theorem Quiet.get_bind {f : World N → Io N β} (hf : ∀ t, t.Open value → Quiet value (f t)) :
    Quiet value (MonadState.get >>= f) := Triple.get_bind_of_pre hf

theorem Quiet.set {t : World N} (h : t.Open value) : Quiet value (set t : Io N PUnit) :=
  fun _ _ => h

theorem Quiet.modify {g : World N → World N} (hg : ∀ w, w.Open value → (g w).Open value) :
    Quiet value (modify g : Io N PUnit) := Triple.modify g hg

theorem Quiet.unwrap (o : Option α) : Quiet value (Prog.unwrap o : Io N α) := by
  cases o with
  | none => exact .throw nofun
  | some a => exact .pure a

theorem Quiet.loop {body : Io N (Option α)} (h : Quiet value body) (n : Nat) :
    Quiet value (Prog.loop n body) := by
  refine Triple.loop (h.weaken (fun o _ hw => ?_) fun _ _ hw => hw) (fun _ hw => hw.broken nofun) n
  cases o <;> exact hw

theorem World.Open.congr (h : w.Open value) (hi : w'.inner = w.inner)
    (hc : w'.connection = w.connection) (hm : w'.mapped = w.mapped) : w'.Open value :=
  ⟨hi.trans h.inner, hc.trans h.connection, hm.trans h.mapped⟩

theorem Interrupted.broken {m : Io N α} (h : Interrupted w' (m.exec w)) (hw : w'.Open value) :
    ∃ x s, m.exec w = (.error x, s) ∧ s.Broken value x := by
  obtain ⟨ps, -, ⟨h, -⟩ | ⟨kind, h, -⟩⟩ := h
  · exact ⟨_, _, h, World.Open.broken (hw.congr rfl rfl rfl) nofun⟩
  · exact ⟨_, _, h, World.Open.broken (hw.congr rfl rfl rfl) nofun⟩

theorem networkFlush_quiet : Quiet value (networkFlush : Io N Unit) := by
  intro w hw
  rcases networkFlush_cases w with h | ⟨k, ps, -, -, h⟩
  · obtain ⟨x, s, h, hs⟩ := h.broken hw
    rw [h]
    exact hs
  · rw [h]
    exact hw.congr rfl rfl rfl

theorem unwrapConnection_quiet : Quiet value (unwrapConnection : Io N Unit) := by
  intro w hw
  rw [unwrapConnection_exec, if_pos hw.connection]
  exact hw

theorem borrowRecv_quiet : Quiet value (borrowRecv : Io N Unit) := by
  intro w hw
  rw [borrowRecv_exec, if_pos hw.mapped]
  exact hw

theorem transmit_quiet : Quiet value (transmit : Io N Unit) := by
  intro w hw
  rcases transmit_cases w with h | ⟨k, ps, b, -, -, -, -, h⟩
  · obtain ⟨x, s, h, hs⟩ := h.broken hw
    rw [h]
    exact hs
  · rw [h]
    exact hw.congr rfl rfl rfl

theorem receive_quiet {read : Nat → Io N (List UInt8)}
    (h : read = networkRead ∨ read = networkTryRead) : Quiet value (receive read) := by
  intro w hw
  rcases h with rfl | rfl
  · rcases receive_networkRead_cases w with ⟨-, b, -, h⟩ | ⟨bytes, ps, b, -, -, -, -, -, h⟩
    · obtain ⟨x, s, h, hs⟩ := h.broken (hw.congr rfl rfl rfl)
      rw [h]
      exact hs
    · rw [h]
      exact hw.congr rfl rfl rfl
  · rcases receive_networkTryRead_cases w with ⟨b, kind, ps, -, -, h⟩ | ⟨bytes, ps, b, -, -, -, h⟩
    · rw [h]
      exact World.Open.broken (hw.congr rfl rfl rfl) nofun
    · rw [h]
      exact hw.congr rfl rfl rfl

theorem sendAllIntern_quiet : Quiet value (sendAllIntern : Io N Unit) := by
  refine .get_bind fun _ _ => .bind (.loop (.get_bind fun _ _ => ?_) _) fun _ => networkFlush_quiet
  split
  · exact .bind transmit_quiet fun _ => .pure _
  · exact .pure _

theorem sendAll_quiet : Quiet value (sendAll : Io N Unit) :=
  .bind unwrapConnection_quiet fun _ => sendAllIntern_quiet

theorem send_quiet : Quiet value (send : Io N Unit) := by
  refine .get_bind fun _ _ => ?_
  split
  · exact .bind unwrapConnection_quiet fun _ => .bind transmit_quiet fun _ => networkFlush_quiet
  · exact .pure _

/-- The world after a read that may have given a packet, which then borrows the receive buffer. -/
def World.Lent (value : Option ConnectionStateValue) (packet : Option Packet) (w : World N) : Prop :=
  match packet with
  | some _ => w.inner = value ∧ w.connection = true
  | none => w.Open value

theorem tryReadPacket_lends : Triple (World.Open value) (tryReadPacket C : Io N _)
    (World.Lent value) (World.Broken value) := by
  intro w hw
  rw [tryReadPacket_exec, hw.mapped, if_neg (by simp)]
  rcases C.decodeSliceWithLen w.recvBuffer.reaableData with err | (_ | ⟨n, packet⟩)
  · exact hw.broken nofun
  · by_cases hlen : w.recvBuffer.reaableData.length = N
    · simp only [hlen, if_true]
      exact hw.broken nofun
    · simp only [hlen, if_false]
      exact hw
  · exact ⟨hw.inner, hw.connection⟩

/-- A loop of reads ends with a packet. -/
theorem loop_lends {body : Io N (Option Packet)}
    (h : Triple (World.Open value) body (World.Lent value) (World.Broken value)) (n : Nat) :
    Triple (World.Open value) (Prog.loop n body) (fun packet => World.Lent value (some packet))
      (World.Broken value) := by
  refine Triple.loop (h.weaken (fun o _ hw => ?_) fun _ _ hw => hw) (fun _ hw => hw.broken nofun) n
  cases o <;> exact hw

theorem readPacket_lends : Triple (World.Open value) (readPacket C : Io N _)
    (fun packet => World.Lent value (some packet)) (World.Broken value) := by
  have hturn : Triple (World.Open value) (readPacketTurn C : Io N _) (World.Lent value)
      (World.Broken value) := by
    refine .bind tryReadPacket_lends fun o => ?_
    cases o with
    | some packet => exact .pure _ fun _ h => h
    | none => exact .bind (receive_quiet (.inl rfl)) fun _ => .pure _ fun _ h => h
  exact .bind unwrapConnection_quiet fun _ => .get_bind fun t =>
    (loop_lends hturn _).conseq (fun _ h => h.2) (fun _ _ h => h) fun _ _ h => h

theorem dropPacket_opens (packet : Packet) :
    Triple (World.Lent value (some packet)) (dropPacket : Io N _) (fun _ => World.Open value)
      (World.Broken value) := by
  rintro w ⟨hinner, hconnection⟩
  rw [dropPacket_exec]
  rcases hm : w.mapped with _ | n
  · exact ⟨hinner, hconnection, hm⟩
  · dsimp only
    cases w.recvBuffer.addBytesRead n with
    | ok b => exact World.Open.mk (w := { w with recvBuffer := b, mapped := none }) hinner hconnection rfl
    | error _ => exact ⟨hconnection, nofun, fun h => absurd rfl h⟩

theorem sendReceive_quiet : Quiet value (sendReceive : Io N Unit) := by
  have hturn : Quiet value (sendReceiveTurn : Io N _) := by
    refine .get_bind fun _ _ => ?_
    split
    · exact .bind transmit_quiet fun _ => .bind networkFlush_quiet fun _ =>
        .bind (receive_quiet (.inr rfl)) fun _ => .pure _
    · exact .pure _
  refine .bind borrowRecv_quiet fun _ => .bind (.modify fun w hw => hw.congr rfl rfl rfl) fun _ =>
    .bind unwrapConnection_quiet fun _ => .get_bind fun _ _ => .bind (.loop hturn _) fun early => ?_
  cases early with
  | true => exact .pure _
  | false => exact .bind (receive_quiet (.inl rfl)) fun _ => .pure _

theorem ensure_quiet {c : Prop} [Decidable c] {x : Stop MqttError}
    (hx : x ≠ .fail .authenticationError) : Quiet value (Prog.ensure c x : Io N Unit) := by
  unfold Prog.ensure
  split
  · exact .pure _
  · exact .throw hx

theorem tryWritePacket_quiet (packet : Packet) :
    Quiet value (TcpConnectionState.tryWritePacket C packet : Io N Bool) := by
  refine .get_bind fun w hw => .bind (.set (hw.congr rfl rfl rfl)) fun _ => ?_
  split
  · exact .bind (.unwrap _) fun _ => .bind (.set (hw.congr rfl rfl rfl)) fun _ => .pure _
  · split
    · exact .throw nofun
    · exact .pure _
  · exact .throw nofun

theorem trait_tryWritePacket_quiet (packet : Packet) :
    Quiet value (ConnectionState.tryWritePacket C packet : Io N Bool) := by
  refine .get_bind fun w hw => .bind (.set (hw.congr rfl rfl rfl)) fun _ => ?_
  split
  · exact .pure _
  · exact .bind (.unwrap _) fun _ => .bind (.set (hw.congr rfl rfl rfl)) fun _ => .pure _
  · exact .throw nofun

theorem writePacketAsync_quiet (packet : Packet) :
    Quiet value (writePacketAsync C packet : Io N Unit) := by
  refine .get_bind fun _ _ => .loop (.bind (tryWritePacket_quiet packet) fun sent => ?_) _
  cases sent with
  | true => exact .pure _
  | false => exact .bind send_quiet fun _ => .pure _

theorem liftExcept_quiet {r : Except MqttError α} (h : r ≠ .error .authenticationError) :
    Quiet value (liftExcept r : Io N α) := by
  cases r with
  | ok a => exact .pure a
  | error e => exact .throw fun he => h (by cases he; rfl)

theorem nextPid_quiet : Quiet value (nextPid : Io N Pid) :=
  .get_bind fun _ _ => .bind (.unwrap _) fun _ =>
    .bind (.modify fun _ hw => hw.congr rfl rfl rfl) fun _ => .pure _

/-- What is read with a packet is used after the packet has been dropped. -/
theorem read_quiet {f : Packet → Io N α} (hf : ∀ packet, Quiet value (f packet)) :
    Quiet value (do
      let nextPacket ← readPacket C
      dropPacket
      f nextPacket) :=
  Triple.bind readPacket_lends fun packet => .bind (dropPacket_opens packet) fun _ => hf packet

theorem mapM_subscribeTopic_ne (l : List AutoSubscribe) :
    l.mapM (subscribeTopic C) ≠ .error .authenticationError := by
  induction l with
  | nil => exact nofun
  | cons a l ih =>
    rw [List.mapM_cons]
    intro h
    rcases ha : subscribeTopic C a with e | topic
    · rw [ha] at h
      cases h
      unfold subscribeTopic at ha
      split at ha <;> cases ha
    · rw [ha] at h
      rcases hl : l.mapM (subscribeTopic C) with e | topics
      · rw [hl] at h ih
        cases h
        exact ih rfl
      · rw [hl] at h
        cases h

theorem processSuback_ne (codes : List SubscribeReturnCodes) (l : List AutoSubscribe) :
    processSuback codes l ≠ .error .authenticationError := by
  induction codes, l using processSuback.induct with
  | case1 _ codes _ l ih => exact ih
  | case2 => exact nofun
  | case3 codes l h₁ h₂ => 
    rw [processSuback]
    · exact nofun
    · exact h₁
    · exact h₂

theorem checkSuback_ne (chunk : List AutoSubscribe) (packet : Packet) :
    checkSuback chunk packet ≠ .error .authenticationError := by
  unfold checkSuback
  split
  · exact processSuback_ne _ _
  · exact nofun

theorem subscribeChunks_quiet (chunks : List (List AutoSubscribe)) :
    Quiet value (subscribeChunks C chunks : Io N Unit) := by
  induction chunks with
  | nil => exact .pure _
  | cons chunk chunks ih =>
    exact .bind nextPid_quiet fun pid => .bind (liftExcept_quiet (mapM_subscribeTopic_ne chunk))
      fun topics => .bind (writePacketAsync_quiet _) fun _ => .bind sendAll_quiet fun _ =>
        read_quiet fun packet => .bind (liftExcept_quiet (checkSuback_ne chunk packet)) fun _ => ih

/-- What `connect` leaves before it has sent CONNECT. -/
structure World.Idle (w : World N) : Prop where
  inner : w.inner = none ∨ w.inner = some .error
  mapped : w.mapped = none

/-- How `connect` stops before it has sent CONNECT. -/
def World.Unsent (x : Stop MqttError) (w : World N) : Prop :=
  (x = .panic → w.connection = true) ∧ (x ≠ .panic → w.Idle)

theorem World.Idle.unsent {x : Stop MqttError} (h : w.Idle) (hx : x ≠ .panic) : w.Unsent x :=
  ⟨fun he => absurd he hx, fun _ => h⟩

theorem World.Broken.unsent {x : Stop MqttError} (h : w.Broken value x)
    (hvalue : value = none ∨ value = some .error) : w.Unsent x :=
  ⟨fun _ => h.1, fun hx => ⟨(h.2.2 hx).inner ▸ hvalue, (h.2.2 hx).mapped⟩⟩

theorem awaitAnswer_idle :
    Triple World.Idle (awaitAnswer : Io N _) (fun _ => World.Idle) World.Unsent := by
  intro w hw
  rw [awaitAnswer_exec]
  rcases nextAnswer w.script with _ | ⟨answer, ps⟩
  · exact World.Idle.unsent ⟨hw.inner, hw.mapped⟩ nofun
  · exact (⟨hw.inner, hw.mapped⟩ : (w.withScript ps).Idle)

theorem resolve_idle (host : Host) :
    Triple World.Idle (resolve host : Io N Unit) (fun _ => World.Idle) World.Unsent := by
  cases host with
  | ip addr => exact .pure _ fun _ h => h
  | hostname name =>
    refine .bind awaitAnswer_idle fun answer => ?_
    cases answer with
    | ok k => exact .pure _ fun _ h => h
    | error kind => exact .throw _ fun _ h => h.unsent nofun

theorem connectTransport_opens (incoming : List UInt8) (closed : Bool) :
    Triple World.Idle (connectTransport incoming closed : Io N Unit)
      (fun _ w => ∃ value, (value = none ∨ value = some .error) ∧ w.Open value) World.Unsent := by
  refine .bind awaitAnswer_idle fun answer => ?_
  cases answer with
  | ok k => exact .modify _ fun w hw => ⟨w.inner, hw.inner, rfl, rfl, hw.mapped⟩
  | error kind => exact .throw _ fun _ h => h.unsent nofun

theorem establish_opens (config : ClientConfig) (incoming : List UInt8) (closed : Bool) :
    Triple World.Idle (ConnectionState.establish config incoming closed : Io N Unit)
      (fun _ w => ∃ value, (value = none ∨ value = some .error) ∧ w.Open value) World.Unsent := by
  refine .get_bind_of_pre fun t ht => .bind (Q := fun _ => World.Idle) ?_ fun _ =>
    .bind (Q := fun _ => World.Idle) ?_ fun _ => .bind (.modify _ fun w hw => ⟨hw.inner, hw.mapped⟩)
      fun _ => .bind (resolve_idle config.host) fun _ => connectTransport_opens incoming closed
  · intro w hw
    rw [exec_ensure, if_pos ht.inner]
    exact hw
  · intro w hw
    rw [borrowRecv_exec, if_pos hw.mapped]
    exact hw

theorem sendConnect_opens (config : ClientConfig) (lastWill : Option LastWill) :
    Triple (World.Open value) (sendConnect C config lastWill : Io N _)
      (fun _ => World.Open (some .connectSent)) (World.Broken value) :=
  .bind (tryWritePacket_quiet _) fun _ => .bind (ensure_quiet nofun) fun _ => .bind send_quiet
    fun _ => .modify _ fun _ hw => ⟨rfl, hw.connection, hw.mapped⟩

theorem connectUntilConnack_opens (config : ClientConfig) (lastWill : Option LastWill)
    (incoming : List UInt8) (closed : Bool) :
    Triple World.Idle (ConnectionState.connectUntilConnack C config lastWill incoming closed : Io N _)
      (fun _ => World.Open (some .connectSent)) World.Unsent :=
  .bind (establish_opens config incoming closed) fun _ => .exists fun _ => .and_left fun hvalue =>
    (sendConnect_opens config lastWill).weaken (fun _ _ h => h) fun _ _ h => h.unsent hvalue

/-- How a connack refuses the connection. -/
def World.Refused (x : Stop MqttError) (w : World N) : Prop :=
  w.Open (some .error) ∧ ∃ e, x = .fail e ∧ (e = .connackError ∨ e = .authenticationError)

theorem processConnack_connects (config : ClientConfig) (connack : Connack) :
    Triple (World.Open (some .connectSent)) (processConnack C config connack : Io N _)
      (fun _ => World.Open (some .connected))
      (fun x w => w.Broken (some .connectSent) x ∨ w.Refused x) := by
  have hrefused (e : MqttError) (he : e = .connackError ∨ e = .authenticationError) :
      Triple (World.Open (N := N) (some .connectSent)) (do notify .error; Prog.fail e)
        (fun _ : Unit => World.Open (some .connected))
        (fun x w => w.Broken (some .connectSent) x ∨ w.Refused x) :=
    .bind (.modify (Q := fun _ => World.Open (some .error)) _ fun w hw =>
      ⟨rfl, hw.connection, hw.mapped⟩) fun _ => .throw _ fun _ h => .inr ⟨h, e, rfl, he⟩
  unfold processConnack
  split
  · exact .bind ((subscribeChunks_quiet _).weaken (fun _ _ h => h) fun _ _ h => .inl h) fun _ =>
      .modify _ fun w hw => ⟨rfl, hw.connection, hw.mapped⟩
  · exact hrefused _ (.inl rfl)
  · exact hrefused _ (.inl rfl)
  · exact hrefused _ (.inl rfl)
  · exact hrefused _ (.inr rfl)
  · exact hrefused _ (.inr rfl)

theorem awaitConnack_connects (config : ClientConfig) :
    Triple (World.Open (some .connectSent)) (awaitConnack C config : Io N _)
      (fun _ => World.Open (some .connected))
      (fun x w => w.Broken (some .connectSent) x ∨ w.Refused x) := by
  refine .bind (readPacket_lends.weaken (fun _ _ h => h) fun _ _ h => .inl h) fun packet =>
    .bind ((dropPacket_opens packet).weaken (fun _ _ h => h) fun _ _ h => .inl h) fun _ => ?_
  have hcheck : checkConnack packet ≠ .error .authenticationError := by
    cases packet <;> exact nofun
  exact .bind ((liftExcept_quiet hcheck).weaken (fun _ _ h => h) fun _ _ h => .inl h) fun connack =>
    processConnack_connects config connack

theorem runIo_lends : Triple (World.Open value) (ConnectionState.runIo C : Io N _)
    (fun packet => World.Lent value (some packet)) (World.Broken value) := by
  refine .get_bind_of_pre fun t ht => .bind (ensure_quiet nofun) fun _ => loop_lends ?_ _
  exact .bind sendReceive_quiet fun _ => tryReadPacket_lends

theorem runIoNonblocking_lends : Triple (World.Open value)
    (ConnectionState.runIoNonblocking C : Io N _) (World.Lent value) (World.Broken value) :=
  .get_bind_of_pre fun _ _ => .bind (ensure_quiet nofun) fun _ => .bind send_quiet fun _ =>
    .bind unwrapConnection_quiet fun _ => .bind borrowRecv_quiet fun _ =>
      .bind (receive_quiet (.inr rfl)) fun _ => tryReadPacket_lends

theorem disconnect_closes : Triple (World.Open value) (ConnectionState.disconnect C : Io N _)
    (fun _ w => w.inner = some .disconnected) (World.Broken value) :=
  .get_bind_of_pre fun _ _ => .bind (ensure_quiet nofun) fun _ => .bind sendAll_quiet fun _ =>
    .bind (tryWritePacket_quiet _) fun _ => .bind (ensure_quiet nofun) fun _ =>
      .bind sendAll_quiet fun _ => .bind unwrapConnection_quiet fun _ =>
        .bind (.modify (Q := fun _ _ => True) _ fun _ _ => trivial) fun _ =>
          .modify _ fun _ _ => rfl

end

/-! ## The invariant of a runner -/

namespace Runner

variable {α : Type} {P : World N → Prop} {s s' : Runner N} {l : RunLabel} {w : World N}

/-- What a call of `run` finds, where it does not fail. -/
def Resting (w : World N) : Prop := w.Idle ∨ w.Open (some .connected)

/-- The world after an error that `run` returned. -/
def AfterError (e : MqttError) (handshake : Bool) (w : World N) : Prop :=
  (handshake = true ∧ e ≠ .authenticationError ∧ w.inner = some .connectSent) ∨
    ((handshake = true → e = .authenticationError) ∧ Resting w)

/-- What is known of the world at each stage. -/
def Inv (s : Runner N) : Prop :=
  match s.stage with
  | .new | .connecting => s.world.Idle
  | .returned => s.world.inner = some .disconnected
  | .returnedError e handshake => AfterError e handshake s.world
  | .handshake => s.world.Open (some .connectSent)
  | .sending | .runIoNonblocking | .select | .disconnecting => s.world.Open (some .connected)
  | .processing packet => s.world.Lent (some .connected) (some packet)
  | .panicked => s.world.connection = true

theorem inv_new : (new (N := N)).Inv := World.Idle.mk (w := .new []) (.inl rfl) rfl

theorem inv_start (h : Resting w) : (start w).Inv := by
  unfold start
  split
  · rename_i hinner
    rcases h with h | h
    · rcases h.inner with h | h <;> cases h.symm.trans hinner
    · exact h
  · rename_i hinner
    rcases h with h | h
    · exact h
    · exact absurd h.inner hinner

theorem inv_raise {handshake : Bool} {e : MqttError} (hmapped : w.mapped = none)
    (h : e.isRecoverable = false → AfterError e handshake w) : (raise handshake e w).Inv := by
  unfold raise
  split
  · exact inv_start (.inl ⟨.inr rfl, hmapped⟩)
  · exact h (Bool.eq_false_iff.mpr (by assumption))

theorem inv_raise_of_resting {e : MqttError} (hmapped : w.mapped = none) (h : Resting w) :
    (raise false e w).Inv := inv_raise hmapped fun _ => .inr ⟨nofun, h⟩

/-- A call into the connection keeps the invariant if it is specified so. -/
theorem inv_settle {done : α → World N → Runner N} {failed : MqttError → World N → Runner N}
    {m : Io N α} {Q : α → World N → Prop} {E : Stop MqttError → World N → Prop}
    (hs : settle done failed (m.exec w) = some s') (h : Triple P m Q E) (hw : P w)
    (hdone : ∀ a w, Q a w → (done a w).Inv) (hfailed : ∀ e w, E (.fail e) w → (failed e w).Inv)
    (hpanic : ∀ w, E .panic w → w.connection = true) : s'.Inv := by
  have hend := h w hw
  rcases hm : m.exec w with ⟨x | a, w'⟩
  · rw [hm] at hend hs
    cases x with
    | fail e =>
      cases hs
      exact hfailed e w' hend
    | panic =>
      cases hs
      exact hpanic w' hend
    | parked => cases hs
  · rw [hm] at hend hs
    cases hs
    exact hdone a w' hend

theorem inv_raise_of_broken {e : MqttError} (h : w.Broken (some .connected) (.fail e)) :
    (raise false e w).Inv := by
  have hopen := h.2.2 nofun
  exact inv_raise_of_resting hopen.mapped (.inr hopen)

/-- After a refused authentication `run` may be called again, after the other errors that end the
handshake it may not. -/
theorem inv_raise_of_handshake {e : MqttError}
    (h : w.Broken (some .connectSent) (.fail e) ∨ w.Refused (.fail e)) : (raise true e w).Inv := by
  rcases h with h | ⟨h, _, he, hkind⟩
  · have hopen := h.2.2 nofun
    exact inv_raise hopen.mapped fun _ =>
      .inl ⟨rfl, fun he => h.2.1 (congrArg Stop.fail he), hopen.inner⟩
  · cases he
    refine inv_raise h.mapped fun hrecoverable => .inr ⟨fun _ => ?_, .inl ⟨.inr h.inner, h.mapped⟩⟩
    -- the other refusal is an error after which `run` connects again
    rcases hkind with rfl | rfl
    · cases hrecoverable
    · rfl

theorem inv_woken (disconnect : Bool) (h : w.Open (some .connected)) :
    (woken disconnect w).Inv := by
  unfold woken
  split
  · exact h
  · exact inv_start (.inr h)

theorem inv_finishPacket {packet : Packet} {result : Except MqttError Unit}
    (hw : w.Lent (some .connected) (some packet)) (h : finishPacket packet result w = some s') :
    s'.Inv := by
  have hdrop (h : settle (fun _ => match result with
      | .ok () => start
      | .error e => raise false e) (raise false) (dropPacket.exec w) = some s') : s'.Inv := by
    refine inv_settle h (dropPacket_opens packet) hw (fun _ w hw => ?_)
      (fun _ _ hw => inv_raise_of_broken hw) fun _ hw => hw.1
    cases result with
    | ok => exact inv_start (.inr hw)
    | error e => exact inv_raise_of_resting hw.mapped (.inr hw)
  cases packet with
  | connack connack => cases h; exact hw.2
  | _ => exact hdrop h

variable {C : Codec} {config : ClientConfig} {lastWill : Option LastWill}

theorem inv_step (hinv : s.Inv) (hl : s.Resumable l)
    (h : s.next C config lastWill l = some s') : s'.Inv := by
  obtain ⟨w, stage⟩ := s
  cases l with
  | run =>
    cases stage with
    | new => cases h; exact inv_start (.inl hinv)
    | returned => exact hl.elim
    | returnedError e handshake =>
      cases h
      rcases hinv with ⟨hhandshake, he, -⟩ | ⟨-, hw⟩
      · exact absurd (hl hhandshake) he
      · exact inv_start hw
    | _ => cases h
  | connect incoming closed script =>
    obtain ⟨rfl, h⟩ := Option.ite_none_right_eq_some.mp h
    refine inv_settle h (connectUntilConnack_opens config lastWill incoming closed)
      ⟨hinv.inner, hinv.mapped⟩ (fun _ _ hw => hw) (fun e w hw => ?_) fun _ hw => hw.1 rfl
    have hidle := hw.2 nofun
    exact inv_raise_of_resting hidle.mapped (.inl hidle)
  | awaitConnack script =>
    obtain ⟨rfl, h⟩ := Option.ite_none_right_eq_some.mp h
    exact inv_settle h (awaitConnack_connects config) (World.Open.congr hinv rfl rfl rfl)
      (fun _ _ hw => hw) (fun _ _ hw => inv_raise_of_handshake hw)
      fun _ hw => hw.elim (·.1) (·.1.connection)
  | tryWritePacket packet =>
    obtain ⟨rfl, h⟩ := Option.ite_none_right_eq_some.mp h
    exact inv_settle h (trait_tryWritePacket_quiet packet) hinv (fun _ _ hw => hw)
      (fun _ _ hw => inv_raise_of_broken hw) fun _ hw => hw.1
  | sent result =>
    obtain ⟨rfl, h⟩ := Option.ite_none_right_eq_some.mp h
    rcases result with e | _ | _
    · cases h
      exact inv_raise_of_resting hinv.mapped (.inr hinv)
    all_goals
      cases h
      exact hinv
  | runIoNonblocking script =>
    obtain ⟨rfl, h⟩ := Option.ite_none_right_eq_some.mp h
    refine inv_settle h runIoNonblocking_lends (World.Open.congr hinv rfl rfl rfl)
      (fun packet w hw => ?_) (fun _ _ hw => inv_raise_of_broken hw) fun _ hw => hw.1
    cases packet with
    | some packet => exact hw
    | none => exact inv_start (.inr hw)
  | runIo script =>
    obtain ⟨rfl, h⟩ := Option.ite_none_right_eq_some.mp h
    exact inv_settle h runIo_lends (World.Open.congr hinv rfl rfl rfl) (fun _ _ hw => hw)
      (fun _ _ hw => inv_raise_of_broken hw) fun _ hw => hw.1
  | interruptIo disconnect script =>
    cases script with
    | none =>
      obtain ⟨rfl, h⟩ := Option.ite_none_right_eq_some.mp h
      cases h
      exact inv_woken disconnect hinv
    | some script =>
      obtain ⟨rfl, h⟩ := Option.ite_none_right_eq_some.mp h
      have hio := runIo_lends (C := C) (w.withScript script)
        (World.Open.congr (w := w) hinv rfl rfl rfl)
      dsimp only at h
      split at h
      · rename_i hexec
        rw [hexec] at hio
        cases h
        exact inv_woken disconnect (hio.2.2 nofun)
      · cases h
  | processed result =>
    cases stage with
    | processing packet => exact inv_finishPacket hinv h
    | _ => cases h
  | disconnect script =>
    obtain ⟨rfl, h⟩ := Option.ite_none_right_eq_some.mp h
    exact inv_settle h disconnect_closes (World.Open.congr hinv rfl rfl rfl)
      (fun _ _ hw => hw) (fun e w hw => .inr ⟨nofun, .inr (hw.2.2 nofun)⟩) fun _ hw => hw.1

/-- Where the invariant holds, the function that a step calls finds the state it asserts. -/
theorem asserts_of_inv (hinv : s.Inv) (h : s.next C config lastWill l = some s') :
    s.Asserts l := by
  obtain ⟨w, stage⟩ := s
  cases l with
  | connect incoming closed script =>
    obtain ⟨rfl, -⟩ := Option.ite_none_right_eq_some.mp h
    exact hinv.inner
  | runIoNonblocking script | runIo script | disconnect script =>
    obtain ⟨rfl, -⟩ := Option.ite_none_right_eq_some.mp h
    exact hinv.inner
  | interruptIo disconnect script =>
    cases script with
    | none => trivial
    | some script =>
      obtain ⟨rfl, -⟩ := Option.ite_none_right_eq_some.mp h
      exact hinv.inner
  | _ => trivial

/-- **The assertions hold**, and every `unwrap` of the stored connection succeeds, in the calls of
`run` one after the other as long as each of them is resumable. -/
theorem assertions_hold (C : Codec) (config : ClientConfig) (lastWill : Option LastWill)
    (steps : List RunLabel) (h : Run.AllSteps (next C config lastWill) Resumable (new (N := N)) steps) :
    Run.AllSteps (next C config lastWill) (Sound C config lastWill) (new (N := N)) steps := by
  refine Run.AllSteps.of_invariant (I := Inv) (fun _ _ _ => inv_step) (fun s l hinv hl s' hs => ?_)
    inv_new h
  refine ⟨asserts_of_inv hinv hs, fun hpanicked => ?_⟩
  have hinv' := inv_step hinv hl hs
  rwa [Inv, hpanicked] at hinv'

/-- The condition is exact: the first call of `run` that is not resumable connects, and the assertion
of `connect` fails. -/
theorem connect_panics_of_not_resumable {steps : List RunLabel}
    (h : Run.AllSteps (next C config lastWill) Resumable (new (N := N)) steps)
    (hr : Run.run (next C config lastWill) new steps = some s) (hs : ¬ s.Resumable .run)
    (incoming : List UInt8) (closed : Bool) (script : List Poll) :
    ∃ t w, s.next C config lastWill .run = some t ∧ ¬ t.Asserts (.connect incoming closed script) ∧
      t.next C config lastWill (.connect incoming closed script) = some ⟨w, .panicked⟩ := by
  have hinv : s.Inv := h.invariant (fun _ _ _ => inv_step) inv_new hr
  have hfails (w : World N) (hw : w.inner = some .connectSent ∨ w.inner = some .disconnected) :
      ∃ w', ¬ (start w).Asserts (.connect incoming closed script) ∧
        (start w).next C config lastWill (.connect incoming closed script) =
          some ⟨w', .panicked⟩ := by
    have hinner : ¬ (w.inner = none ∨ w.inner = some .error) := by
      rcases hw with hw | hw <;> simp [hw]
    have hstage : start w = ⟨w, .connecting⟩ := by
      rw [start, if_neg]
      rcases hw with hw | hw <;> simp [hw]
    have hexec : (ConnectionState.connectUntilConnack C config lastWill incoming closed).exec
        (w.withScript script) = (.error .panic, w.withScript script) := by
      refine exec_bind_error ?_
      rw [ConnectionState.establish, exec_get_bind]
      refine exec_bind_error ?_
      rw [exec_ensure, if_neg]
      exact hinner
    rw [hstage]
    refine ⟨w.withScript script, hinner, ?_⟩
    rw [next, if_pos rfl, hexec]
    rfl
  obtain ⟨w, stage⟩ := s
  cases stage with
  | returned =>
    obtain ⟨w', hasserts, hnext⟩ := hfails w (.inr hinv)
    exact ⟨_, w', rfl, hasserts, hnext⟩
  | returnedError e handshake =>
    obtain ⟨hhandshake, he⟩ := Classical.not_imp.mp hs
    rcases hinv with ⟨-, -, hw⟩ | ⟨hauth, -⟩
    · obtain ⟨w', hasserts, hnext⟩ := hfails w (.inl hw)
      exact ⟨_, w', rfl, hasserts, hnext⟩
    · exact absurd (hauth hhandshake) he
  | _ => exact absurd trivial hs

/-! ### Calling `run` again after a disconnect -/

/-- A call of `run` that ends with a disconnect, and another one. -/
def againAfterDisconnect : List RunLabel :=
  [.run, .connect connackBytes false [.ready 0, .ready 100, .ready 0],
    .awaitConnack [.ready 100], .sent (.ok .sentAll), .interruptIo true none,
    .disconnect [.ready 0, .ready 100, .ready 0], .run]

theorem assertions_fail_after_disconnect :
    ¬ Run.AllSteps (next wire sampleConfig none) (Sound wire sampleConfig none) (new (N := 20))
      (againAfterDisconnect ++ [.connect connackBytes false []]) := by
  intro h
  have hrun : (Run.run (next wire sampleConfig none) (new (N := 20)) againAfterDisconnect).any
      (fun s => decide (¬ s.Asserts (.connect connackBytes false []) ∧
        (s.next wire sampleConfig none (.connect connackBytes false [])).isSome)) = true := by
    decide +kernel
  obtain ⟨s, hs, hfails⟩ := (Option.any_eq_true _ _).mp hrun
  obtain ⟨hfails, hnext⟩ := of_decide_eq_true hfails
  obtain ⟨s', hs'⟩ := Option.isSome_iff_exists.mp hnext
  exact hfails ((h.append hs).2.1 s' hs').1

/-! ### A refused authentication and then a connection -/

/-- `run` returns the error of a refused authentication, and the next call connects, reads a packet
and ends with a disconnect. -/
def againAfterRefusal : List RunLabel :=
  [.run, .connect (Framing.frames wire.encode [.connack ⟨false, .notAuthorized⟩]) false
      [.ready 0, .ready 100, .ready 0],
    .awaitConnack [.ready 100], .run,
    .connect (Framing.frames wire.encode [.connack ⟨false, .accepted⟩, .pingresp]) false
      [.ready 0, .ready 100, .ready 0],
    .awaitConnack [.ready 3], .tryWritePacket .pingreq, .sent (.ok .partiallySent),
    .runIoNonblocking [.ready 100, .ready 0, .pending], .sent (.ok .sentAll), .runIo [.ready 100],
    .processed (.ok ()), .sent (.ok .sentAll), .interruptIo true (some [.pending]),
    .disconnect [.ready 0, .ready 100, .ready 0]]

theorem assertions_hold_on_againAfterRefusal :
    Run.AllSteps (next wire sampleConfig none) Resumable (new (N := 20)) againAfterRefusal ∧
      (Run.run (next wire sampleConfig none) (new (N := 20)) againAfterRefusal).map stage =
        some .returned ∧
      Run.AllSteps (next wire sampleConfig none) (Sound wire sampleConfig none) (new (N := 20))
        againAfterRefusal :=
  ⟨by decide +kernel, by decide +kernel, assertions_hold wire sampleConfig none _ (by decide +kernel)⟩

end Runner

end EmbeddedMqttc
