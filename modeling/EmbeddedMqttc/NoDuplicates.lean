import EmbeddedMqttc.Receive
import EmbeddedMqttc.Library.History
import EmbeddedMqttc.Library.Run

/-!
# No message of QoS 2 is delivered twice

From its delivery until its PUBREL has been accepted, the pid of a message of QoS 2 is in
`send_pubrec` or in `await_pubrel`, where the duplicate test sees it. Nothing is assumed about what
arrives, what the connection accepts, or which calls fail.
-/

namespace EmbeddedMqttc

open Prog EmbeddedMqttc.Comp Run History

variable {BUFFER TOPIC_SIZE PARALLEL_RECEIVES : Nat}

/-- What happens in the exchanges of QoS 2: a message is handed to the application, or a PUBREL is
accepted. -/
inductive Occurrence (BUFFER TOPIC_SIZE : Nat) where
  | delivered (message : ReceivedPublish BUFFER TOPIC_SIZE)
  | released (pid : Pid)
  deriving DecidableEq, Repr

namespace Occurrence

/-- A message of QoS 2 with this pid is delivered. -/
def Delivers (pid : Pid) : Occurrence BUFFER TOPIC_SIZE → Prop
  | delivered message => message.qospid = .exactlyOnce pid
  | released _ => False

def Releases (pid : Pid) : Occurrence BUFFER TOPIC_SIZE → Prop
  | delivered _ => False
  | released p => p = pid

end Occurrence

/-- `Receives` with the history of what has happened. -/
structure Inbox (BUFFER TOPIC_SIZE PARALLEL_RECEIVES : Nat) where
  ctx : Ctx (Receives BUFFER TOPIC_SIZE PARALLEL_RECEIVES)
  history : List (Occurrence BUFFER TOPIC_SIZE)

namespace Inbox

inductive Label where
  | publish (message : Publish)
  | pubrel (pid : Pid)
  | send (answers : List (Except MqttError Bool))
  | reconnect

def new : Inbox BUFFER TOPIC_SIZE PARALLEL_RECEIVES where
  ctx := { inner := .new, env := .new }
  history := []

variable (s : Inbox BUFFER TOPIC_SIZE PARALLEL_RECEIVES)

/-- What a call has handed to the application is what it has added to the queue. -/
def deliveries (c' : Ctx (Receives BUFFER TOPIC_SIZE PARALLEL_RECEIVES)) :
    List (Occurrence BUFFER TOPIC_SIZE) :=
  (c'.inner.queue.drop s.ctx.inner.queue.length).map .delivered

def next : Label → Option (Inbox BUFFER TOPIC_SIZE PARALLEL_RECEIVES)
  | .publish message =>
    let (_, ctx) := (Receives.onPublish message).exec s.ctx
    some { ctx, history := s.history ++ s.deliveries ctx }
  | .pubrel pid =>
    let (r, ctx) := (Receives.onPubrel pid).exec s.ctx
    let released := match r with
      | .ok _ => [.released pid]
      | .error _ => []
    some { ctx, history := s.history ++ s.deliveries ctx ++ released }
  | .send answers =>
    let scripted := { s.ctx with env := { s.ctx.env with answers } }
    let (_, ctx) := Receives.sendPackets.exec scripted
    some { ctx, history := s.history ++ s.deliveries ctx }
  | .reconnect =>
    some { s with ctx := { s.ctx with env := { s.ctx.env with outgoing := [] } } }

end Inbox

/-! ## What the calls do -/

namespace Receives

/-- The duplicate test sees the pid, and a PUBREL is due for it. -/
def Tracked (r : Receives BUFFER TOPIC_SIZE PARALLEL_RECEIVES) (pid : Pid) : Prop :=
  pid ∈ r.sendPubrec ∨ pid ∈ r.awaitPubrel

/-- No message of QoS 2 is delivered, and no pid is forgotten. -/
structure Quiet (r r' : Receives BUFFER TOPIC_SIZE PARALLEL_RECEIVES) : Prop where
  queue : ∃ more, (∀ m ∈ more, ∀ pid, m.qospid ≠ .exactlyOnce pid) ∧ r'.queue = r.queue ++ more
  tracked : ∀ pid, r.Tracked pid → r'.Tracked pid

/-- A message of QoS 2 whose pid was not tracked is delivered, and its pid is tracked. -/
structure Delivers (pid : Pid) (m : ReceivedPublish BUFFER TOPIC_SIZE)
    (r r' : Receives BUFFER TOPIC_SIZE PARALLEL_RECEIVES) : Prop where
  qospid : m.qospid = .exactlyOnce pid
  queue : r'.queue = r.queue ++ [m]
  fresh : ¬r.Tracked pid
  tracked : ∀ q, r.Tracked q ∨ q = pid → r'.Tracked q

variable {r r' : Receives BUFFER TOPIC_SIZE PARALLEL_RECEIVES}
  {c c' : Ctx (Receives BUFFER TOPIC_SIZE PARALLEL_RECEIVES)}

theorem Quiet.of_eq (hqueue : r'.queue = r.queue) (htracked : ∀ pid, r.Tracked pid → r'.Tracked pid) :
    Quiet r r' where
  queue := ⟨[], nofun, by rw [hqueue, List.append_nil]⟩
  tracked := htracked

theorem Quiet.refl : Quiet r r := .of_eq rfl fun _ h => h

theorem qospid_of_tryFrom {p : Publish} {m : ReceivedPublish BUFFER TOPIC_SIZE}
    (h : ReceivedPublish.tryFrom p = .ok m) : m.qospid = p.qospid := by
  unfold ReceivedPublish.tryFrom at h
  split at h
  · cases h
  · split at h <;> cases h
    rfl

/-- The delivery of a message of another QoS. -/
theorem deliver_quiet (c : Ctx (Receives BUFFER TOPIC_SIZE PARALLEL_RECEIVES)) {p : Publish}
    (hqos : ∀ pid, p.qospid ≠ .exactlyOnce pid) : Quiet c.inner ((deliver p).exec c).2.inner := by
  rcases deliver_cases c p with ⟨m, hm, h⟩ | ⟨e, -, h⟩
  · rw [h]
    refine ⟨⟨[m], fun m' hm' => ?_, rfl⟩, fun _ h => h⟩
    rw [List.mem_singleton.mp hm', qospid_of_tryFrom hm]
    exact hqos
  · rw [h]
    exact .refl

/-- Whatever a call of `on_publish` returns: it delivers a message of QoS 2 only if its pid is in no
queue, and the pid is queued then. -/
theorem onPublish_quiet_or (c : Ctx (Receives BUFFER TOPIC_SIZE PARALLEL_RECEIVES)) (p : Publish) :
    Quiet c.inner ((onPublish p).exec c).2.inner ∨
      ∃ pid m, Delivers pid m c.inner ((onPublish p).exec c).2.inner := by
  unfold onPublish
  cases hqos : p.qospid with
  | atMostOnce => exact .inl (deliver_quiet c (by simp [hqos]))
  | atLeastOnce pid =>
    dsimp only
    refine .inl ?_
    have hquiet := deliver_quiet c (p := p) (by simp [hqos])
    rcases deliver_cases c p with ⟨m, -, h⟩ | ⟨e, -, h⟩
    · rw [h] at hquiet
      rw [exec_bind_ok h, exec_get_bind]
      split
      · exact hquiet
      · exact ⟨hquiet.queue, hquiet.tracked⟩
    · rw [exec_bind_error h]
      exact .refl
  | exactlyOnce pid =>
    dsimp only
    unfold onQos2Publish
    rw [hqos, QosPid.pid, exec_unwrap_some_bind, exec_get_bind]
    cases hpush : c.inner.sendPubrec.push pid with
    | none => exact .inl .refl
    | some pubrecs =>
      dsimp only
      rw [modifyInner_bind_exec]
      have hpushed (q : Pid) : q ∈ pubrecs ↔ q ∈ c.inner.sendPubrec ∨ q = pid :=
        BoundedVec.mem_iff_of_push hpush
      have htracked (q : Pid) (h : c.inner.Tracked q) : q ∈ pubrecs ∨ q ∈ c.inner.awaitPubrel :=
        h.imp_left fun h => (hpushed q).mpr (.inl h)
      cases hdup : c.inner.isDup pid with
      | true => exact .inl (.of_eq rfl htracked)
      | false =>
        obtain ⟨hawait, hsend, -⟩ := isDup_eq_false_iff.mp hdup
        simp only [Bool.not_false, if_true]
        rcases deliver_cases { c with inner := { c.inner with sendPubrec := pubrecs } } p with
          ⟨m, hm, h⟩ | ⟨e, -, h⟩
        · rw [h]
          refine .inr ⟨pid, m, (qospid_of_tryFrom hm).trans hqos, rfl, ?_, fun q hq => ?_⟩
          · exact fun h => h.elim hsend hawait
          · exact hq.elim (htracked q) fun heq => .inl ((hpushed q).mpr (.inr heq))
        · rw [h]
          exact .inl (.of_eq rfl htracked)

theorem Move.quiet (hmove : Move c c') : Quiet c.inner c'.inner := by
  cases hmove with
  | pubrec hi hpush =>
    refine .of_eq rfl fun q hq => ?_
    rcases hq with hq | hq
    · rcases (BoundedVec.mem_iff_of_removeAt hi).mp hq with rfl | hq
      · exact .inr ((BoundedVec.mem_iff_of_push hpush).mpr (.inr rfl))
      · exact .inl hq
    · exact .inr ((BoundedVec.mem_iff_of_push hpush).mpr (.inl hq))
  | _ => exact .of_eq rfl fun _ h => h

/-- A send pass moves a pid on when its PUBREC has been written. -/
theorem sendPackets_quiet (c : Ctx (Receives BUFFER TOPIC_SIZE PARALLEL_RECEIVES)) :
    (sendPackets.exec c).2.inner.queue = c.inner.queue ∧
      ∀ pid, c.inner.Tracked pid → (sendPackets.exec c).2.inner.Tracked pid := by
  let I (c' : Ctx (Receives BUFFER TOPIC_SIZE PARALLEL_RECEIVES)) : Prop :=
    c'.inner.queue = c.inner.queue ∧ ∀ pid, c.inner.Tracked pid → c'.inner.Tracked pid
  have hstep : ∀ c₁ c₂, Move c₁ c₂ → I c₁ → I c₂ := by
    rintro c₁ c₂ hmove ⟨hqueue, htracked⟩
    refine ⟨?_, fun pid hpid => hmove.quiet.tracked pid (htracked pid hpid)⟩
    cases hmove <;> exact hqueue
  exact sendPackets_moves.invariant (I := I) hstep ⟨rfl, fun _ h => h⟩

/-- A PUBREL that is accepted releases its pid only; one that is not changes nothing. -/
theorem onPubrel_cases (c : Ctx (Receives BUFFER TOPIC_SIZE PARALLEL_RECEIVES)) (pid : Pid) :
    (∃ x, (onPubrel pid).exec c = (.error x, c)) ∨
      ∃ c', (onPubrel pid).exec c = (.ok ⟨⟩, c') ∧ c'.inner.queue = c.inner.queue ∧
        ∀ q, c.inner.Tracked q → q ≠ pid → c'.inner.Tracked q := by
  unfold onPubrel
  rw [exec_get_bind]
  cases hpush : c.inner.sendPubcomp.push pid with
  | none => exact .inl ⟨_, rfl⟩
  | some pubcomps =>
    refine .inr ?_
    dsimp only
    rw [modifyInner_bind_exec]
    cases hpos : c.inner.awaitPubrel.position (· == pid) with
    | none => exact ⟨_, rfl, rfl, fun q hq _ => hq⟩
    | some i =>
      refine ⟨_, rfl, rfl, fun q hq hne => hq.imp_right fun hq => ?_⟩
      obtain ⟨a, hi, ha⟩ := BoundedVec.get?_of_position hpos
      cases beq_iff_eq.mp ha
      exact ((BoundedVec.mem_iff_of_removeAt hi).mp hq).resolve_left hne

end Receives

/-! ## Runs -/

namespace Inbox

/-- A pid whose message has been delivered and whose PUBREL has not been accepted is tracked. -/
structure Sound (s : Inbox BUFFER TOPIC_SIZE PARALLEL_RECEIVES) : Prop where
  alternating : ∀ pid, Alternating (Occurrence.Delivers pid) (Occurrence.Releases pid) s.history
  tracked : ∀ pid, Open (Occurrence.Delivers pid) (Occurrence.Releases pid) s.history →
    s.ctx.inner.Tracked pid

variable {s s' : Inbox BUFFER TOPIC_SIZE PARALLEL_RECEIVES}
  {ctx : Ctx (Receives BUFFER TOPIC_SIZE PARALLEL_RECEIVES)}

theorem deliveries_eq {more : List (ReceivedPublish BUFFER TOPIC_SIZE)}
    (h : ctx.inner.queue = s.ctx.inner.queue ++ more) :
    s.deliveries ctx = more.map .delivered := by
  rw [deliveries, h, List.drop_left]

theorem Sound.quiet (h : s.Sound) (hquiet : Receives.Quiet s.ctx.inner ctx.inner) :
    Sound { ctx, history := s.history ++ s.deliveries ctx } := by
  obtain ⟨⟨more, hmore, hqueue⟩, htracked⟩ := hquiet
  have hnone (pid : Pid) : ∀ b ∈ s.deliveries ctx, ¬Occurrence.Delivers pid b := by
    intro b hb
    rw [deliveries_eq hqueue] at hb
    obtain ⟨m, hm, rfl⟩ := List.mem_map.mp hb
    exact hmore m hm pid
  exact ⟨fun pid => (h.alternating pid).append (hnone pid),
    fun pid hopen => htracked pid (h.tracked pid (open_of_append (hnone pid) hopen))⟩

theorem Sound.delivers {pid : Pid} {m : ReceivedPublish BUFFER TOPIC_SIZE} (h : s.Sound)
    (hdelivers : Receives.Delivers pid m s.ctx.inner ctx.inner) :
    Sound { ctx, history := s.history ++ s.deliveries ctx } := by
  obtain ⟨hqos, hqueue, hfresh, htracked⟩ := hdelivers
  have heq : s.deliveries ctx = [.delivered m] := deliveries_eq hqueue
  have hpid (q : Pid) (hq : Occurrence.Delivers q (.delivered m)) : q = pid := by
    cases hqos.symm.trans hq
    rfl
  refine ⟨fun q => ?_, fun q hopen => ?_⟩
  · rw [heq]
    refine (h.alternating q).concat fun hq hopen => hfresh ?_
    rw [← hpid q hq]
    exact h.tracked q hopen
  · rw [heq] at hopen
    rcases open_of_concat hopen with hq | ⟨hq, -⟩
    · exact htracked q (.inr (hpid q hq))
    · exact htracked q (.inl (h.tracked q hq))

theorem Sound.step {l : Label} (h : s.Sound) (hnext : s.next l = some s') : s'.Sound := by
  cases l with
  | publish message =>
    cases hnext
    rcases Receives.onPublish_quiet_or s.ctx message with hquiet | ⟨pid, m, hdelivers⟩
    · exact h.quiet hquiet
    · exact h.delivers hdelivers
  | pubrel pid =>
    rcases Receives.onPubrel_cases s.ctx pid with ⟨x, hexec⟩ | ⟨ctx, hexec, hqueue, htracked⟩
    · simp only [next, hexec, List.append_nil] at hnext
      cases hnext
      exact h.quiet .refl
    · have hnone : s.deliveries ctx = [].map .delivered :=
        deliveries_eq (by rw [hqueue, List.append_nil])
      rw [List.map_nil] at hnone
      simp only [next, hexec, hnone, List.append_nil] at hnext
      cases hnext
      refine ⟨fun q => (h.alternating q).concat False.elim, fun q hopen => ?_⟩
      rcases open_of_concat hopen with hq | ⟨hq, hne⟩
      · exact hq.elim
      · exact htracked q (h.tracked q hq) fun heq => hne heq.symm
  | send answers =>
    cases hnext
    have hpass := Receives.sendPackets_quiet { s.ctx with env := { s.ctx.env with answers } }
    exact h.quiet (.of_eq hpass.1 hpass.2)
  | reconnect =>
    cases hnext
    exact ⟨h.alternating, h.tracked⟩

/-- Whatever arrives, between two deliveries of a message of QoS 2 with the same pid a PUBREL with
that pid has been accepted. -/
theorem no_duplicate_delivery {t : Inbox BUFFER TOPIC_SIZE PARALLEL_RECEIVES} {ls : List Label}
    (hr : run next new ls = some t) (pid : Pid) :
    Alternating (Occurrence.Delivers pid) (Occurrence.Releases pid) t.history := by
  let I (s : Inbox BUFFER TOPIC_SIZE PARALLEL_RECEIVES) : Prop := s.Sound
  have hnew : I new := ⟨fun _ => alternating_nil, fun _ h => absurd h not_open_nil⟩
  have hstep : ∀ s l s', I s → next s l = some s' → I s' := fun _ _ _ h hnext => Sound.step h hnext
  exact (invariant (I := I) hstep hnew hr).alternating pid

/-- A second copy arrives after the PUBREC was written, a third after the PUBREL. -/
theorem no_duplicate_delivery_on_copies :
    let copy : Label := .publish ⟨false, .exactlyOnce ⟨8, by decide, by decide⟩, false, [116], [1]⟩
    ∃ t : Inbox 8 8 4,
      run next new [copy, .send [.ok true], copy, .reconnect, .pubrel ⟨8, by decide, by decide⟩,
        .send [.ok true, .ok true], .pubrel ⟨8, by decide, by decide⟩, .send [.ok true], copy] =
          some t ∧ t.history.length = 4 ∧
      Alternating (Occurrence.Delivers ⟨8, by decide, by decide⟩)
        (Occurrence.Releases ⟨8, by decide, by decide⟩) t.history := by
  intro copy
  have hrun : (run next (new : Inbox 8 8 4)
      [copy, .send [.ok true], copy, .reconnect, .pubrel ⟨8, by decide, by decide⟩,
        .send [.ok true, .ok true], .pubrel ⟨8, by decide, by decide⟩, .send [.ok true],
        copy]).map (·.history.length) = some 4 := by decide +kernel
  obtain ⟨t, ht, hlength⟩ := Option.map_eq_some_iff.mp hrun
  exact ⟨t, ht, hlength, no_duplicate_delivery ht _⟩

end Inbox

end EmbeddedMqttc
