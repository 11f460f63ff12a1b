import EmbeddedMqttc.AutoSubscribes
import EmbeddedMqttc.ConformingBroker
import EmbeddedMqttc.Library.Conversation
import EmbeddedMqttc.RunCalls

/-!
# What a broker hears

On each connection the client opens with CONNECT, subscribes to the configured topics, lets the other
components write, and ends with DISCONNECT: whatever the outcomes of DNS, transport and handshake,
whenever errors make `run` connect again, and wherever a broken connection cuts the stream
(`conversation_kept`). The other components write neither CONNECT nor DISCONNECT, so that this holds
of `run` with the packets of a client (`polite_of_attended`).

`run` may be called again after an error of `disconnect`. If DISCONNECT has been accepted by then, the
client is still taken to be connected and goes on after DISCONNECT, so that such a call is left out.
-/

namespace EmbeddedMqttc

open Prog TcpConnectionState

variable {N : Nat} {C : Codec} {config : ClientConfig} {lastWill : Option LastWill} {w w' : World N}

/-- The packets that only the connection itself writes are not ordinary. -/
def Packet.isOrdinary : Packet → Bool
  | .connect _ | .disconnect => false
  | _ => true

/-- A SUBSCRIBE for the topics of a chunk. -/
def AsksFor (chunk : List AutoSubscribe) (packet : Packet) : Prop :=
  ∃ pid, packet = .subscribe (chunkRequest pid chunk)

def etiquette (config : ClientConfig) (lastWill : Option LastWill) : Etiquette Packet where
  greeting := connectPacket config lastWill
  demands := config.chunks.map AsksFor
  ordinary packet := packet.isOrdinary = true
  farewell := .disconnect

/-! ## What the functions of the connection say -/

/-- What has been accepted on the connection is a conversation, and all of it has been handed to the
transport or is pending. -/
structure World.Talks (C : Codec) (E : Etiquette Packet) (stage : Etiquette.Stage Packet)
    (w : World N) : Prop where
  conversation : E.Says stage w.net.accepted
  outgoing : FramedPipe.Outgoing C.encode w.pipe

/-- A conversation, the rest of which may have been lost with the send buffer. -/
def World.Told (C : Codec) (E : Etiquette Packet) (w : World N) : Prop :=
  (∃ stage, E.Says stage w.net.accepted) ∧
    w.net.tx <+: Framing.frames C.encode w.net.accepted

/-- Nothing is pending. -/
def World.Drained (w : World N) : Prop := w.sendBuffer.reaableData = []

section

variable {α : Type} {E : Etiquette Packet} {stage stage' : Etiquette.Stage Packet} {p : Packet}

theorem World.Talks.told (h : w.Talks C E stage) : w.Told C E :=
  ⟨⟨stage, h.conversation⟩, _, h.outgoing⟩

theorem World.Talks.of_eq (h : w.Talks C E stage) (hnet : w'.net = w.net)
    (hbuffer : w'.sendBuffer.reaableData = w.sendBuffer.reaableData) : w'.Talks C E stage := by
  have houtgoing := h.outgoing
  simp only [FramedPipe.Outgoing, World.pipe, ← hnet, ← hbuffer] at houtgoing
  exact ⟨hnet ▸ h.conversation, houtgoing⟩

theorem World.Told.of_eq (h : w.Told C E) (hnet : w'.net = w.net) : w'.Told C E := by
  unfold World.Told
  rw [hnet]
  exact h

/-- The kinds of steps that accept no packet. -/
def Act.Mute (a : Act) : Prop := a ≠ .accept

theorem World.Talks.moves (h : Moves C Act.Mute w w') (hw : w.Talks C E stage) :
    w'.Talks C E stage := by
  obtain ⟨a, ha, h⟩ := h
  have houtgoing : FramedPipe.Outgoing C.encode w'.pipe := by
    rcases h.pipe with hpipe | hpipe
    · exact hpipe ▸ hw.outgoing
    · exact hw.outgoing.step hpipe
  have haccepted : w'.net.accepted = w.net.accepted := by
    cases h with
    | silent _ _ _ hnet => rw [hnet]
    | accept => exact absurd rfl ha
    | _ => rfl
  exact ⟨haccepted ▸ hw.conversation, houtgoing⟩

/-- A function that accepts no packet. -/
theorem talks_of_moves {m : Io N α} (h : ∀ w, MovesAt (Moves C Act.Mute) m w) :
    Triple (World.Talks C E stage) m (fun _ => World.Talks C E stage)
      (fun _ => World.Talks C E stage) :=
  .of_movesAt h fun _ _ => World.Talks.moves

/-- A packet that may be said next is said if it is accepted. -/
theorem talks_of_writeResult {m : Io N Bool} (hm : ∀ w, WriteResult C w p (m.exec w))
    (hp : ∀ l, E.Says stage l → E.Says stage' (l ++ [p])) :
    Triple (World.Talks C E stage) m
      (fun sent => World.Talks C E (if sent then stage' else stage))
      (fun _ => World.Talks C E stage) := by
  intro w hw
  have hresult := hm w
  have houtgoing := hw.outgoing
  dsimp only [FramedPipe.Outgoing, World.pipe] at houtgoing
  have hrefused (hr : (m.exec w).1 ≠ .ok true) : (m.exec w).2.Talks C E stage := by
    obtain ⟨haccepted, hbuffer⟩ := hresult.refused hr
    refine ⟨haccepted ▸ hw.conversation, ?_⟩
    dsimp only [FramedPipe.Outgoing, World.pipe]
    rw [hresult.sent, haccepted, hbuffer, houtgoing]
  have haccepted (hr : (m.exec w).1 = .ok true) : (m.exec w).2.Talks C E stage' := by
    obtain ⟨haccepted, hbuffer⟩ := hresult.accepted hr
    refine ⟨haccepted ▸ hp _ hw.conversation, ?_⟩
    dsimp only [FramedPipe.Outgoing, World.pipe]
    rw [hresult.sent, haccepted, hbuffer, ← List.append_assoc, houtgoing, Framing.frames_concat]
  rcases hexec : m.exec w with ⟨x | sent, w'⟩ <;> rw [hexec] at hrefused haccepted
  · exact hrefused nofun
  · cases sent with
    | true => exact haccepted rfl
    | false => exact hrefused nofun

theorem notify_talks (value : ConnectionStateValue) :
    Triple (World.Talks C E stage) (notify value : Io N Unit) (fun _ => World.Talks C E stage)
      (fun _ => World.Talks C E stage) :=
  .modify _ fun _ hw => hw.of_eq rfl rfl

theorem writePacketAsync_talks (hC : C.WritesEncoding)
    (hp : ∀ l, E.Says stage l → E.Says stage' (l ++ [p])) :
    Triple (World.Talks C E stage) (writePacketAsync C p : Io N Unit)
      (fun _ => World.Talks C E stage') (fun _ => World.Talks C E stage) := by
  refine .get_bind_of_pre fun w _ => .loop (.bind (talks_of_writeResult
    (TcpConnectionState.writeResult hC p) hp) fun sent => ?_) (fun _ h => h) _
  cases sent with
  | true => exact .pure _ fun _ h => h
  | false =>
    exact .bind (talks_of_moves (send_moves nofun nofun)) fun _ => .pure _ fun _ h => h

theorem subscribeChunks_talks (hC : C.WritesEncoding) (chunks : List (List AutoSubscribe)) :
    Triple (World.Talks C E (.asked (chunks.map AsksFor))) (subscribeChunks C chunks : Io N Unit)
      (fun _ => World.Talks C E (.asked [])) (fun _ w => ∃ stage, w.Talks C E stage) := by
  induction chunks with
  | nil => exact .pure _ fun _ h => h
  | cons chunk chunks ih =>
    have hmute {β : Type} {stage : Etiquette.Stage Packet} {m : Io N β}
        (h : ∀ w, MovesAt (Moves C Act.Mute) m w) :
        Triple (World.Talks C E stage) m (fun _ => World.Talks C E stage)
          (fun _ w => ∃ stage, w.Talks C E stage) :=
      (talks_of_moves h).weaken (fun _ _ h => h) fun _ _ h => ⟨_, h⟩
    refine .bind (hmute (nextPid_moves nofun)) fun pid => .bind (liftExcept_triple
      (Q := fun topics w => topics = chunk.map AutoSubscribe.toTopic ∧
        w.Talks C E (.asked ((chunk :: chunks).map AsksFor)))
      (fun topics w htopics hw => ⟨mapM_subscribeTopic_eq_ok htopics, hw⟩) fun _ _ _ hw => ⟨_, hw⟩)
      fun topics => .and_left fun htopics => ?_
    have hp (l : List Packet) (h : E.Says (.asked ((chunk :: chunks).map AsksFor)) l) :
        E.Says (.asked (chunks.map AsksFor)) (l ++ [.subscribe ⟨pid, topics⟩]) :=
      .answer h ⟨pid, by rw [htopics]; rfl⟩
    refine .bind ((writePacketAsync_talks hC hp).weaken (fun _ _ h => h) fun _ _ h => ⟨_, h⟩)
      fun _ => .bind (hmute (sendAll_moves nofun nofun)) fun _ => ?_
    exact .bind (hmute (readPacket_moves nofun nofun nofun)) fun packet =>
      .bind (hmute (dropPacket_moves nofun)) fun _ => .bind (hmute (liftExcept_moves _)) fun _ => ih

theorem networkFlush_drained : Triple World.Drained (networkFlush : Io N Unit)
    (fun _ => World.Drained) (fun _ _ => True) := by
  intro w hw
  rcases networkFlush_cases w with ⟨ps, -, ⟨h, -⟩ | ⟨kind, h, -⟩⟩ | ⟨k, ps, -, -, h⟩ <;> rw [h]
  · trivial
  · trivial
  · exact hw

/-- A `send_all` that returns leaves nothing pending. -/
theorem sendAll_drains : Triple (fun _ => True) (sendAll : Io N Unit) (fun _ => World.Drained)
    (fun _ _ => True) := by
  have hturn : Triple (fun _ => True) (sendAllTurn : Io N (Option Unit))
      (fun o w => o = some () → w.Drained) (fun _ _ => True) := by
    refine .get_bind fun t => ?_
    split
    · refine .bind (Q := fun _ _ => True) (.of_exits fun _ _ => trivial) fun _ => ?_
      refine .pure _ fun _ _ h => ?_
      cases h
    · rename_i hr
      refine .pure _ fun w hw _ => ?_
      obtain ⟨rfl, -⟩ := hw
      exact StackBuffer.hasRemainingLen_eq_false_iff.mp ((Bool.not_eq_true _).mp hr)
  refine .bind (Q := fun _ _ => True) (.of_exits fun _ _ => trivial) fun _ => .get_bind_of_pre
    fun w _ => .bind (.loop (hturn.weaken (fun o _ h => ?_) fun _ _ h => h) (fun _ _ => trivial) _)
      fun _ => networkFlush_drained
  cases o with
  | none => trivial
  | some _ => exact h rfl

theorem sendAll_talks : Triple (World.Talks C E stage) (sendAll : Io N Unit)
    (fun _ w => w.Talks C E stage ∧ w.Drained) (fun _ => World.Talks C E stage) :=
  (Triple.and (talks_of_moves (sendAll_moves nofun nofun))
    (sendAll_drains.conseq (fun _ _ => trivial) (fun _ _ h => h) fun _ _ h => h)).weaken
      (fun _ _ h => h) fun _ _ h => h.1

/-! ## The functions that `run` calls -/

theorem awaitAnswer_net (net : Net) : Triple (fun w : World N => w.net = net) awaitAnswer
    (fun _ w => w.net = net) (fun _ w => w.net = net) := by
  intro w hw
  rw [awaitAnswer_exec]
  rcases nextAnswer w.script with _ | ⟨answer, ps⟩ <;> exact hw

/-- An establishment that fails has not touched the old connection. -/
theorem establish_net (config : ClientConfig) (incoming : List UInt8) (closed : Bool) (net : Net) :
    Triple (fun w : World N => w.net = net) (ConnectionState.establish config incoming closed)
      (fun _ _ => True) (fun _ w => w.net = net) := by
  have hensure (c : Prop) [Decidable c] : Triple (fun w : World N => w.net = net)
      (Prog.ensure c .panic : Io N Unit) (fun _ w => w.net = net) (fun _ w => w.net = net) :=
    .ensure _ _ (fun _ h _ => h) fun _ h _ => h
  have hborrow : Triple (fun w : World N => w.net = net) borrowRecv (fun _ w => w.net = net)
      (fun _ w => w.net = net) := borrowRecv_triple
  have hresolve : Triple (fun w : World N => w.net = net) (resolve config.host)
      (fun _ w => w.net = net) (fun _ w => w.net = net) := by
    cases config.host with
    | ip addr => exact .pure _ fun _ h => h
    | hostname name =>
      refine .bind (awaitAnswer_net net) fun answer => ?_
      cases answer with
      | ok k => exact .pure _ fun _ h => h
      | error kind => exact .throw _ fun _ h => h
  refine .get_bind_of_pre fun t _ => .bind (hensure _) fun _ => .bind hborrow fun _ =>
    .bind (.modify (Q := fun _ w => w.net = net) _ fun _ hw => hw) fun _ => .bind hresolve fun _ => ?_
  refine .bind (awaitAnswer_net net) fun answer => ?_
  cases answer with
  | ok k => exact .modify _ fun _ _ => trivial
  | error kind => exact .throw _ fun _ h => h

theorem establish_told (config : ClientConfig) (incoming : List UInt8) (closed : Bool) :
    Triple (World.Told C E) (ConnectionState.establish config incoming closed : Io N Unit)
      (fun _ => World.Talks C E .silent) (fun _ => World.Told C E) := by
  intro w hw
  have hnet := establish_net config incoming closed w.net w rfl
  rcases hexec : (ConnectionState.establish config incoming closed).exec w with ⟨x | u, w'⟩
  · rw [hexec] at hnet
    exact hw.of_eq hnet
  · have hfresh := (establish_ok hexec).1
    refine ⟨?_, ?_⟩
    · rw [hfresh.net]
      exact .silent
    · simp only [FramedPipe.Outgoing, World.pipe, hfresh.net, hfresh.sendBuffer]
      rfl

variable (hC : C.WritesEncoding)
include hC

theorem sendConnect_talks : Triple (World.Talks C (etiquette config lastWill) .silent)
    (sendConnect C config lastWill : Io N Unit)
    (fun _ => World.Talks C (etiquette config lastWill) (.asked (config.chunks.map AsksFor)))
    (fun _ w => ∃ stage, w.Talks C (etiquette config lastWill) stage) := by
  have hp (l : List Packet) (h : (etiquette config lastWill).Says .silent l) :
      (etiquette config lastWill).Says (.asked (config.chunks.map AsksFor))
        (l ++ [connectPacket config lastWill]) := by
    cases h
    exact .greet
  refine .bind ((talks_of_writeResult (TcpConnectionState.writeResult hC _) hp).weaken
    (fun _ _ h => h) fun _ _ h => ⟨_, h⟩) fun sent => ?_
  cases sent with
  | false => exact .bind (Q := fun _ _ => False) (.throw _ fun _ h => ⟨_, h⟩) fun _ _ h => h.elim
  | true =>
    refine .bind (.pure _ fun _ h => h) fun _ => .bind ((talks_of_moves
      (send_moves nofun nofun)).weaken (fun _ _ h => h) fun _ _ h => ⟨_, h⟩) fun _ => ?_
    exact (notify_talks _).weaken (fun _ _ h => h) fun _ _ h => ⟨_, h⟩

theorem connectUntilConnack_talks (incoming : List UInt8) (closed : Bool) :
    Triple (World.Told C (etiquette config lastWill))
      (ConnectionState.connectUntilConnack C config lastWill incoming closed : Io N Unit)
      (fun _ => World.Talks C (etiquette config lastWill) (.asked (config.chunks.map AsksFor)))
      (fun _ => World.Told C (etiquette config lastWill)) :=
  .bind (establish_told config incoming closed) fun _ =>
    (sendConnect_talks hC).weaken (fun _ _ h => h) fun _ _ ⟨_, h⟩ => h.told

theorem awaitConnack_talks :
    Triple (World.Talks C E (.asked (config.chunks.map AsksFor))) (awaitConnack C config : Io N Unit)
      (fun _ => World.Talks C E (.asked [])) (fun _ w => ∃ stage, w.Talks C E stage) := by
  have hmute {β : Type} {stage : Etiquette.Stage Packet} {m : Io N β}
      (h : ∀ w, MovesAt (Moves C Act.Mute) m w) :
      Triple (World.Talks C E stage) m (fun _ => World.Talks C E stage)
        (fun _ w => ∃ stage, w.Talks C E stage) :=
    (talks_of_moves h).weaken (fun _ _ h => h) fun _ _ h => ⟨_, h⟩
  have hnotify (value : ConnectionStateValue) {stage : Etiquette.Stage Packet} :
      Triple (World.Talks C E stage) (notify value : Io N Unit) (fun _ => World.Talks C E stage)
        (fun _ w => ∃ stage, w.Talks C E stage) :=
    (notify_talks value).weaken (fun _ _ h => h) fun _ _ h => ⟨_, h⟩
  have hrefused {stage : Etiquette.Stage Packet} (e : MqttError) :
      Triple (World.Talks C E stage) (do notify .error; Prog.fail e : Io N Unit)
        (fun _ => World.Talks C E (.asked [])) (fun _ w => ∃ stage, w.Talks C E stage) :=
    .bind (hnotify .error) fun _ => .throw _ fun _ h => ⟨_, h⟩
  refine .bind (hmute (readPacket_moves nofun nofun nofun)) fun packet =>
    .bind (hmute (dropPacket_moves nofun)) fun _ => .bind (hmute (liftExcept_moves _)) fun connack => ?_
  unfold processConnack
  split
  · exact .bind (subscribeChunks_talks hC config.chunks) fun _ => hnotify .connected
  all_goals exact hrefused _

theorem disconnect_talks : Triple (World.Talks C (etiquette config lastWill) (.asked []))
    (ConnectionState.disconnect C : Io N Unit)
    (fun _ w => w.Talks C (etiquette config lastWill) .closed ∧ w.Drained)
    (fun _ w => w.Talks C (etiquette config lastWill) (.asked []) ∨
      w.Talks C (etiquette config lastWill) .closed) := by
  have hp (l : List Packet) (h : (etiquette config lastWill).Says (.asked []) l) :
      (etiquette config lastWill).Says .closed (l ++ [.disconnect]) := .leave h
  refine .get_bind_of_pre fun t _ => ?_
  refine .bind (Q := fun _ => World.Talks C (etiquette config lastWill) (.asked []))
    (.ensure _ _ (fun _ h _ => h) fun _ h _ => .inl h) fun _ => ?_
  refine .bind ((sendAll_talks (C := C)).weaken (fun _ _ h => h.1) fun _ _ h => .inl h) fun _ => ?_
  refine .bind ((talks_of_writeResult (TcpConnectionState.writeResult hC .disconnect) hp).weaken
    (fun _ _ h => h) fun _ _ h => .inl h) fun sent => ?_
  cases sent with
  | false => exact .bind (Q := fun _ _ => False) (.throw _ fun _ h => .inl h) fun _ _ h => h.elim
  | true =>
    refine .bind (.pure _ fun _ h => h) fun _ =>
      .bind ((sendAll_talks (C := C)).weaken (fun _ _ h => h) fun _ _ h => .inr h) fun _ => ?_
    have hunwrap : Triple
        (fun w : World N => w.Talks C (etiquette config lastWill) .closed ∧ w.Drained) unwrapConnection
        (fun _ w => w.Talks C (etiquette config lastWill) .closed ∧ w.Drained)
        (fun _ w => w.Talks C (etiquette config lastWill) (.asked []) ∨
          w.Talks C (etiquette config lastWill) .closed) :=
      .get_bind_of_pre fun _ _ => .ensure _ _ (fun _ h _ => h) fun _ h _ => .inr h.1
    refine .bind hunwrap fun _ => .bind (Q := fun _ w =>
      w.Talks C (etiquette config lastWill) .closed ∧ w.Drained) ?_ fun _ => ?_
    all_goals exact .modify _ fun _ h => ⟨h.1.of_eq rfl rfl, h.2⟩

end

/-! ## Runs -/

/-- The stages on a connection that `run` takes to be connected. -/
def RunStage.Live : RunStage → Prop
  | .sending | .runIoNonblocking | .select | .processing _ | .disconnecting => True
  | _ => False

/-- CONNECT, a SUBSCRIBE for each chunk of the configured topics, and ordinary packets. -/
def Opening (config : ClientConfig) (lastWill : Option LastWill) (packets : List Packet) : Prop :=
  ∃ subscribes rest, List.Forall₂ AsksFor config.chunks subscribes ∧
    (∀ p ∈ rest, p.isOrdinary = true) ∧
    packets = connectPacket config lastWill :: (subscribes ++ rest)

theorem opening_of_conversation {packets : List Packet}
    (h : (etiquette config lastWill).Says (.asked []) packets) : Opening config lastWill packets := by
  obtain ⟨subscribes, rest, hsubscribes, hrest, rfl⟩ := Etiquette.Says.asked_iff.mp h
  rw [etiquette, List.forall₂_map_left_iff] at hsubscribes
  exact ⟨subscribes, rest, hsubscribes, hrest, rfl⟩

namespace Runner

variable {s s' : Runner N} {l : RunLabel}

/-- `run` is called again only where it may be, and not on a connection on which DISCONNECT has been
accepted. The other components write ordinary packets. -/
def Polite (s : Runner N) : RunLabel → Prop
  | .run => s.Resumable .run ∧
      (s.world.inner = some .connected → .disconnect ∉ s.world.net.accepted)
  | .tryWritePacket packet => packet.isOrdinary = true
  | _ => True

instance : Decidable (s.Polite l) :=
  match l with
  | .run => inferInstanceAs (Decidable (_ ∧ (_ → _)))
  | .tryWritePacket _ => inferInstanceAs (Decidable (_ = _))
  | .connect .. | .awaitConnack _ | .sent _ | .runIoNonblocking _ | .runIo _ | .interruptIo ..
  | .processed _ | .disconnect _ => .isTrue trivial

theorem Polite.resumable (h : s.Polite l) : s.Resumable l := by
  cases l with
  | run => exact h.1
  | _ => exact trivial

/-- What has been said at each stage. -/
def Spoken (C : Codec) (E : Etiquette Packet) (s : Runner N) : Prop :=
  match s.stage with
  | .new | .connecting | .panicked => s.world.Told C E
  | .handshake => s.world.Talks C E (.asked E.demands)
  | .sending | .runIoNonblocking | .select | .processing _ | .disconnecting =>
    s.world.Talks C E (.asked [])
  | .returned => s.world.Talks C E .closed ∧ s.world.Drained
  | .returnedError .. => s.world.Told C E ∧ (s.world.inner = some .connected →
      s.world.Talks C E (.asked []) ∨ s.world.Talks C E .closed)

theorem spoken_new (E : Etiquette Packet) : (new (N := N)).Spoken C E :=
  ⟨⟨_, .silent⟩, List.prefix_rfl⟩

variable {E : Etiquette Packet} {e : MqttError} {handshake : Bool}

theorem spoken_start (h : w.Told C E) (hinner : w.inner = some .connected →
    w.Talks C E (.asked [])) : (start w).Spoken C E := by
  unfold start
  split
  · rename_i hconnected
    exact hinner hconnected
  · exact h

/-- After an error that `run` takes to be recoverable it connects again. -/
theorem spoken_raise (h : w.Told C E) (hinner : w.inner = some .connected →
    w.Talks C E (.asked [])) : (raise handshake e w).Spoken C E := by
  unfold raise
  split
  · exact spoken_start (w := (ConnectionState.setError.exec w).2) (h.of_eq rfl) nofun
  · exact ⟨h, fun hconnected => .inl (hinner hconnected)⟩

theorem spoken_raise_of_talks (h : w.Talks C E (.asked [])) : (raise handshake e w).Spoken C E :=
  spoken_raise h.told fun _ => h

theorem spoken_woken (disconnect : Bool) (h : w.Talks C E (.asked [])) :
    (woken disconnect w).Spoken C E := by
  unfold woken
  split
  · exact h
  · exact spoken_start h.told fun _ => h

/-- How a call into the connection ends. -/
theorem settle_spec {α : Type} {done : α → World N → Runner N}
    {failed : MqttError → World N → Runner N} {m : Io N α} {P : World N → Prop}
    {Q : α → World N → Prop} {X : Stop MqttError → World N → Prop} {J : Runner N → Prop}
    (hs : settle done failed (m.exec w) = some s') (h : Triple P m Q X) (hw : P w)
    (hdone : ∀ a w, Q a w → J (done a w)) (hfailed : ∀ e w, X (.fail e) w → J (failed e w))
    (hpanic : ∀ w, X .panic w → J ⟨w, .panicked⟩) : J s' := by
  have hend := h w hw
  rcases hm : m.exec w with ⟨x | a, w'⟩ <;> rw [hm] at hend hs
  · cases x with
    | fail e =>
      cases hs
      exact hfailed e w' hend
    | panic =>
      cases hs
      exact hpanic w' hend
    | parked => cases hs
  · cases hs
    exact hdone a w' hend

/-- A call on a connection that is taken to be connected, which accepts no packet. -/
theorem settle_spoken {α : Type} {done : α → World N → Runner N} {m : Io N α}
    (hs : settle done (raise handshake) (m.exec w) = some s')
    (h : ∀ w, MovesAt (Moves C Act.Mute) m w) (hw : w.Talks C E (.asked []))
    (hdone : ∀ a w, w.Talks C E (.asked []) → (done a w).Spoken C E) : s'.Spoken C E :=
  settle_spec hs (talks_of_moves h) hw hdone (fun _ _ => spoken_raise_of_talks)
    fun _ hw => hw.told

theorem finishPacket_spoken {packet : Packet} {result : Except MqttError Unit}
    (hw : w.Talks C E (.asked [])) (h : finishPacket packet result w = some s') :
    s'.Spoken C E := by
  cases packet with
  | connack connack => cases h; exact hw.told
  | _ =>
    refine settle_spoken h (dropPacket_moves nofun) hw fun _ w hw => ?_
    cases result with
    | ok => exact spoken_start hw.told fun _ => hw
    | error e => exact spoken_raise_of_talks hw

theorem spoken_step (hC : C.WritesEncoding) (hinv : s.Inv)
    (hs : s.Spoken C (etiquette config lastWill)) (hl : s.Polite l)
    (h : s.next C config lastWill l = some s') : s'.Spoken C (etiquette config lastWill) := by
  obtain ⟨w, stage⟩ := s
  cases l with
  | run =>
    cases stage with
    | new =>
      cases h
      refine spoken_start hs fun hconnected => ?_
      rcases World.Idle.inner hinv with hinner | hinner <;> cases hinner.symm.trans hconnected
    | returned => exact hl.1.elim
    | returnedError e handshake =>
      cases h
      refine spoken_start hs.1 fun hconnected => ?_
      rcases hs.2 hconnected with htalks | htalks
      · exact htalks
      · obtain ⟨said, -, hsaid⟩ := Etiquette.Says.closed_iff.mp htalks.conversation
        refine absurd (hsaid ▸ ?_) (hl.2 hconnected)
        exact List.mem_append_right _ List.mem_cons_self
    | _ => cases h
  | connect incoming closed script =>
    obtain ⟨rfl, h⟩ := Option.ite_none_right_eq_some.mp h
    have hidle : World.Idle (w.withScript script) := ⟨hinv.inner, hinv.mapped⟩
    refine settle_spec h (Triple.both (connectUntilConnack_talks hC incoming closed)
      (connectUntilConnack_opens config lastWill incoming closed)) ⟨?_, hidle⟩
      (fun _ _ hw => hw.1) (fun e w hw => ?_) fun _ hw => hw.1
    · exact World.Told.of_eq (w := w) hs rfl
    · refine spoken_raise hw.1 fun hconnected => ?_
      rcases (hw.2.2 nofun).inner with hinner | hinner <;> cases hinner.symm.trans hconnected
  | awaitConnack script =>
    obtain ⟨rfl, h⟩ := Option.ite_none_right_eq_some.mp h
    refine settle_spec h (Triple.both (awaitConnack_talks (E := etiquette config lastWill) hC)
      (awaitConnack_connects config)) ⟨?_, World.Open.congr hinv rfl rfl rfl⟩
      (fun _ _ hw => hw.1) (fun e w hw => ?_) fun _ ⟨⟨_, hw⟩, _⟩ => hw.told
    · exact World.Talks.of_eq (w := w) hs rfl rfl
    · obtain ⟨⟨_, htalks⟩, hstop⟩ := hw
      refine spoken_raise htalks.told fun hconnected => ?_
      rcases hstop with hbroken | hrefused
      · cases (hbroken.2.2 nofun).inner.symm.trans hconnected
      · cases hrefused.1.inner.symm.trans hconnected
  | tryWritePacket packet =>
    obtain ⟨rfl, h⟩ := Option.ite_none_right_eq_some.mp h
    have hp (l : List Packet) (h : (etiquette config lastWill).Says (.asked []) l) :
        (etiquette config lastWill).Says (.asked []) (l ++ [packet]) := .remark h hl
    refine settle_spec h (talks_of_writeResult (ConnectionState.writeResult hC packet) hp) hs
      (fun sent w hw => ?_) (fun _ _ hw => spoken_raise_of_talks hw) fun _ hw => hw.told
    rw [ite_self] at hw
    exact hw
  | sent result =>
    obtain ⟨rfl, h⟩ := Option.ite_none_right_eq_some.mp h
    rcases result with e | _ | _
    · cases h
      exact spoken_raise_of_talks hs
    all_goals
      cases h
      exact hs
  | runIoNonblocking script =>
    obtain ⟨rfl, h⟩ := Option.ite_none_right_eq_some.mp h
    refine settle_spoken h (ConnectionState.runIoNonblocking_moves nofun nofun nofun nofun)
      (World.Talks.of_eq (w := w) hs rfl rfl) fun packet w hw => ?_
    cases packet with
    | some packet => exact hw
    | none => exact spoken_start hw.told fun _ => hw
  | runIo script =>
    obtain ⟨rfl, h⟩ := Option.ite_none_right_eq_some.mp h
    exact settle_spoken h (ConnectionState.runIo_moves nofun nofun nofun nofun)
      (World.Talks.of_eq (w := w) hs rfl rfl) fun _ _ hw => hw
  | interruptIo disconnect script =>
    cases script with
    | none =>
      obtain ⟨rfl, h⟩ := Option.ite_none_right_eq_some.mp h
      cases h
      exact spoken_woken disconnect hs
    | some script =>
      obtain ⟨rfl, h⟩ := Option.ite_none_right_eq_some.mp h
      have hio := talks_of_moves (ConnectionState.runIo_moves (C := C) (A := Act.Mute) nofun nofun
        nofun nofun) (w.withScript script) (World.Talks.of_eq (w := w) hs rfl rfl)
      dsimp only at h
      split at h
      · rename_i hexec
        rw [hexec] at hio
        cases h
        exact spoken_woken disconnect hio
      · cases h
  | processed result =>
    cases stage with
    | processing packet => exact finishPacket_spoken hs h
    | _ => cases h
  | disconnect script =>
    obtain ⟨rfl, h⟩ := Option.ite_none_right_eq_some.mp h
    refine settle_spec h (disconnect_talks hC) (World.Talks.of_eq (w := w) hs rfl rfl)
      (fun _ _ hw => hw) (fun e w hw => ⟨?_, fun _ => hw⟩) fun _ hw => ?_
    all_goals
      rcases hw with hw | hw <;> exact hw.told

theorem spoken_of_run (hC : C.WritesEncoding) {steps : List RunLabel}
    (h : Run.AllSteps (next C config lastWill) Polite (new (N := N)) steps)
    (hr : Run.run (next C config lastWill) new steps = some s) :
    s.Inv ∧ s.Spoken C (etiquette config lastWill) :=
  h.invariant (I := fun s => s.Inv ∧ s.Spoken C (etiquette config lastWill))
    (fun _ _ _ hs hl hnext => ⟨inv_step hs.1 hl.resumable hnext, spoken_step hC hs.1 hs.2 hl hnext⟩)
    ⟨inv_new, spoken_new _⟩ hr

/-- What has been accepted on the last connection is a conversation, and what the transport has taken
is an initial part of it. -/
theorem Spoken.told (h : s.Spoken C E) : s.world.Told C E := by
  obtain ⟨w, stage⟩ := s
  cases stage with
  | new | connecting | panicked => exact h
  | returnedError e handshake => exact h.1
  | returned => exact h.1.told
  | _ => exact World.Talks.told h

/-- **The client keeps to the order of a session.** On each connection the packets that a broker can
read from what it is sent are a conversation. While `run` takes the connection to be connected, the
handshake has been sent or is on its way; and when `run` has returned, all that was accepted has been
sent, and DISCONNECT is the last of it. -/
theorem conversation_kept (hC : C.WritesEncoding) {steps : List RunLabel}
    (h : Run.AllSteps (next C config lastWill) Polite (new (N := N)) steps)
    (hr : Run.run (next C config lastWill) new steps = some s) :
    (∀ S heard, C.Decodes S → (∀ p ∈ s.world.net.accepted ++ heard, S p) →
      Framing.frames C.encode heard <+: s.world.net.tx →
        ∃ stage, (etiquette config lastWill).Says stage heard) ∧
    (s.stage.Live → Opening config lastWill s.world.net.accepted ∧
      s.world.net.tx ++ s.world.sendBuffer.reaableData =
        Framing.frames C.encode s.world.net.accepted) ∧
    (s.stage = .returned → ∃ packets, Opening config lastWill packets ∧
      s.world.net.tx = Framing.frames C.encode (packets ++ [.disconnect])) := by
  obtain ⟨-, hspoken⟩ := spoken_of_run hC h hr
  refine ⟨fun S heard hdec hS hheard => ?_, fun hlive => ?_, fun hreturned => ?_⟩
  · obtain ⟨⟨stage, hsaid⟩, htx⟩ := hspoken.told
    refine hsaid.exists_of_prefix (hdec.prefix_of_frames (fun p hp => ?_) (fun p hp => ?_)
      (hheard.trans htx))
    · exact hS p (List.mem_append_right _ hp)
    · exact hS p (List.mem_append_left _ hp)
  · have htalks : s.world.Talks C (etiquette config lastWill) (.asked []) := by
      obtain ⟨w, stage⟩ := s
      cases stage <;> first | exact hlive.elim | exact hspoken
    exact ⟨opening_of_conversation htalks.conversation, htalks.outgoing⟩
  · obtain ⟨w, stage⟩ := s
    obtain rfl : stage = .returned := hreturned
    obtain ⟨htalks, hdrained⟩ := hspoken
    obtain ⟨packets, hsaid, haccepted⟩ := Etiquette.Says.closed_iff.mp htalks.conversation
    have houtgoing := htalks.outgoing
    dsimp only [FramedPipe.Outgoing, World.pipe] at houtgoing
    rw [hdrained, List.append_nil, haccepted] at houtgoing
    exact ⟨packets, opening_of_conversation hsaid, houtgoing⟩

/-! ### A broken handshake, a second connection and a disconnect -/

def subackStream : List UInt8 :=
  Framing.frames (wireWith Wire.parseAnswer).encode
    [.connack acceptingConnack, .suback ⟨pid1, [.success .atLeastOnce]⟩]

/-- The first connection breaks when the SUBSCRIBE is sent. -/
def secondConnection : List RunLabel :=
  [.run, .connect subackStream false [.ready 0, .ready 3, .ready 0],
    .awaitConnack [.ready 100, .ready 20, .error ⟨0⟩],
    .connect subackStream false [.ready 0, .ready 3, .ready 0],
    .awaitConnack [.ready 100, .ready 100, .ready 0], .tryWritePacket .pingreq, .sent (.ok .sentAll),
    .interruptIo true none, .disconnect [.ready 100, .ready 0, .ready 100, .ready 0]]

theorem conversation_kept_on_secondConnection :
    Run.AllSteps (next (wireWith Wire.parseAnswer) subscribingConfig none) Polite (new (N := 64))
      secondConnection ∧
    ∃ s, Run.run (next (wireWith Wire.parseAnswer) subscribingConfig none) (new (N := 64))
        secondConnection = some s ∧ ∃ packets, Opening subscribingConfig none packets ∧
      s.world.net.tx = Framing.frames (wireWith Wire.parseAnswer).encode
        (packets ++ [.disconnect]) := by
  have hpolite : Run.AllSteps (next (wireWith Wire.parseAnswer) subscribingConfig none) Polite
      (new (N := 64)) secondConnection := by decide +kernel
  have hreturned : (Run.run (next (wireWith Wire.parseAnswer) subscribingConfig none)
      (new (N := 64)) secondConnection).map stage = some .returned := by decide +kernel
  obtain ⟨s, hs, hstage⟩ := Option.map_eq_some_iff.mp hreturned
  exact ⟨hpolite, s, hs,
    (conversation_kept (Wire.writesEncodingWith _) hpolite hs).2.2 hstage⟩

end Runner

/-! ## The other components -/

section

variable {QUEUE BUFFER TOPIC : Nat}

/-- What has been written is ordinary. -/
def Env.Ordinary (e : Env) : Prop := ∀ w ∈ e.written, w.packet.isOrdinary = true

theorem Env.Ordinary.wrote {e : Env} {w : Written} (h : e.Ordinary)
    (hw : w.packet.isOrdinary = true) : (e.wrote w).Ordinary := by
  intro v hv
  rcases List.mem_append.mp hv with hv | hv
  · exact h v hv
  · exact List.mem_singleton.mp hv ▸ hw

theorem SubRequest.isOrdinary_createPacket {topicPathCapacity : Nat} {request : SubRequest TOPIC}
    {packet : Packet} (h : request.createPacket topicPathCapacity = .ok packet) :
    packet.isOrdinary = true := by
  have hasks := asks_createPacket h
  cases packet with
  | connect | disconnect => cases hasks
  | _ => rfl

theorem PublishesInner.sendPackets_ordinary {c : Ctx (PublishesInner QUEUE BUFFER TOPIC)}
    (h : c.env.Ordinary) : (sendPackets.exec c).2.env.Ordinary := by
  have hstep (c₁ c₂ : Ctx (PublishesInner QUEUE BUFFER TOPIC)) (hmove : Move c₁ c₂)
      (h : c₁.env.Ordinary) : c₂.env.Ordinary := by
    cases hmove with
    | asked | read => exact h
    | _ => exact h.wrote rfl
  exact sendPackets_moves.invariant (I := fun c => c.env.Ordinary) hstep h

theorem SubsInner.send_ordinary (topicPathCapacity : Nat) {c : Ctx (SubsInner TOPIC QUEUE)}
    (h : c.env.Ordinary) : ((send topicPathCapacity).exec c).2.env.Ordinary := by
  have hstep (c₁ c₂ : Ctx (SubsInner TOPIC QUEUE)) (hmove : Move topicPathCapacity c₁ c₂)
      (h : c₁.env.Ordinary) : c₂.env.Ordinary := by
    cases hmove with
    | asked | read => exact h
    | request _ hpacket | resend _ _ hpacket =>
      exact h.wrote (SubRequest.isOrdinary_createPacket hpacket)
  exact send_moves.invariant (I := fun c => c.env.Ordinary) hstep h

theorem Receives.sendPackets_ordinary {c : Ctx (Receives BUFFER TOPIC QUEUE)}
    (h : c.env.Ordinary) : (sendPackets.exec c).2.env.Ordinary := by
  have hstep (c₁ c₂ : Ctx (Receives BUFFER TOPIC QUEUE)) (hmove : Move c₁ c₂)
      (h : c₁.env.Ordinary) : c₂.env.Ordinary := by
    cases hmove with
    | asked => exact h
    | _ => exact h.wrote rfl
  exact sendPackets_moves.invariant (I := fun c => c.env.Ordinary) hstep h

theorem PingStateInner.send_ordinary {c : Ctx PingStateInner} (h : c.env.Ordinary) :
    (send.exec c).2.env.Ordinary := by
  have hstep (c₁ c₂ : Ctx PingStateInner) (hmove : Move c₁ c₂)
      (h : c₁.env.Ordinary) : c₂.env.Ordinary := by
    cases hmove with
    | asked | read => exact h
    | request => exact h.wrote rfl
  exact send_moves.invariant (I := fun c => c.env.Ordinary) hstep h

/-- The components write ordinary packets only, in every run of the client. -/
theorem Client.ordinary_of_run {topicPathCapacity : Nat} {labels : List Label}
    {s : Client QUEUE BUFFER TOPIC}
    (hr : Run.run (fun s : Client QUEUE BUFFER TOPIC => s.next topicPathCapacity) new labels = some s) :
    s.env.Ordinary := by
  refine Run.invariant (I := fun s : Client QUEUE BUFFER TOPIC => s.env.Ordinary)
    (fun s l s' h hnext => ?_) (fun _ hw => by cases hw) hr
  cases hnext
  by_cases hrequest : l.isRequest = true
  · obtain ⟨sendPublish, sendRequest, pool, waiting, autoSubscribe, issued, houtcome⟩ :=
      s.outcome_request topicPathCapacity hrequest
    rw [houtcome]
    exact h
  · cases l with
    | sendPublishes answers ticks =>
      exact PublishesInner.sendPackets_ordinary
        (c := ⟨s.publishes, (s.scripted answers ticks).env⟩) h
    | sendReceives answers =>
      exact Receives.sendPackets_ordinary (c := ⟨s.receives, (s.scripted answers []).env⟩) h
    | sendSubscribes answers ticks =>
      exact SubsInner.send_ordinary topicPathCapacity
        (c := ⟨s.subscribes, (s.scripted answers ticks).env⟩) h
    | sendPing answers ticks =>
      exact PingStateInner.send_ordinary (c := ⟨s.ping, (s.scripted answers ticks).env⟩) h
    | receive packet =>
      unfold Env.Ordinary
      rw [(s.receive_unwritten topicPathCapacity packet).2.1]
      exact h
    | wait d => exact h
    | _ => exact absurd rfl hrequest

/-- A packet that the components write in some run of the client. -/
def Client.CanWrite (QUEUE BUFFER TOPIC topicPathCapacity : Nat) (packet : Packet) : Prop :=
  ∃ (labels : List Label) (s : Client QUEUE BUFFER TOPIC),
    Run.run (fun s : Client QUEUE BUFFER TOPIC => s.next topicPathCapacity) new labels = some s ∧
      ∃ w ∈ s.env.written, w.packet = packet

theorem Client.CanWrite.isOrdinary {topicPathCapacity : Nat} {packet : Packet}
    (h : Client.CanWrite QUEUE BUFFER TOPIC topicPathCapacity packet) : packet.isOrdinary = true := by
  obtain ⟨labels, s, hr, w, hw, rfl⟩ := h
  exact ordinary_of_run hr w hw

/-- `run` is called as in `Polite`, and the packets come from the components: one that is refused is
the one that they write if the answer is another. -/
def Runner.Attended (QUEUE BUFFER TOPIC topicPathCapacity : Nat) (s : Runner N) : RunLabel → Prop
  | .tryWritePacket packet => Client.CanWrite QUEUE BUFFER TOPIC topicPathCapacity packet
  | l => s.Polite l

/-- With the packets of a client a run is one of those that keep to the order of a session. -/
theorem Runner.polite_of_attended {topicPathCapacity : Nat} {steps : List RunLabel}
    (h : Run.AllSteps (next C config lastWill) (Attended QUEUE BUFFER TOPIC topicPathCapacity)
      (new (N := N)) steps) :
    Run.AllSteps (next C config lastWill) Polite (new (N := N)) steps := by
  refine h.mono fun s l hl => ?_
  cases l with
  | tryWritePacket packet => exact Client.CanWrite.isOrdinary hl
  | _ => exact hl

end

end EmbeddedMqttc
