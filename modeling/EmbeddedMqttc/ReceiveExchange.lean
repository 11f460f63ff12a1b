import EmbeddedMqttc.Receive
import EmbeddedMqttc.Library.Run

/-!
# Incoming QoS 2 exchanges

`Receives` and a sender that follows the QoS 2 protocol, with a reliable and ordered connection in
each direction. For a pid under which the sender has repeated no PUBLISH, the exchange is a token
that goes round through the places of the system up to the first PUBREL, and after that only copies
of the PUBREL and their PUBCOMPs are under way. So a new exchange finds the queues of the client
without that pid, once all PUBCOMPs are written. A repeated PUBLISH leaves a second entry behind:
`on_qos_2_publish` queues a PUBREC for each copy, and `on_pubrel` takes only one entry out of
`await_pubrel`. A repeated PUBREL leaves one behind until its PUBCOMP is written.
-/

namespace EmbeddedMqttc

open Prog EmbeddedMqttc.Comp Run

variable {BUFFER TOPIC_SIZE PARALLEL_RECEIVES : Nat}

/-- Where the sender is in the exchange with a pid: a PUBREC ends the sending of copies of the
PUBLISH and a PUBCOMP that of the PUBREL. -/
inductive Phase where
  | idle
  | published
  | received
  | released
  deriving DecidableEq, Repr

/-- A packet on its way to the client. `first` is history: whether it is the first PUBLISH of an
exchange of QoS 2. -/
structure Delivery where
  packet : Packet
  first : Bool
  deriving DecidableEq, Repr

/-- The client, the sender and the packets between them; those on the way to the sender are
`ctx.env.outgoing`. `repeated` is history: whether the sender has repeated the PUBLISH in one of its
exchanges with a pid. -/
structure Flow (BUFFER TOPIC_SIZE PARALLEL_RECEIVES : Nat) where
  ctx : Ctx (Receives BUFFER TOPIC_SIZE PARALLEL_RECEIVES)
  toClient : List Delivery
  phase : Pid → Phase
  message : Pid → Option Publish
  repeated : Pid → Bool

namespace Flow

def new : Flow BUFFER TOPIC_SIZE PARALLEL_RECEIVES where
  ctx := { inner := .new, env := .new }
  toClient := []
  phase _ := .idle
  message _ := none
  repeated _ := false

inductive Label where
  | start (message : Publish)
  | repeatPublish (pid : Pid)
  | sendPubrel (pid : Pid)
  | other (message : Publish)
  | senderReceive
  | clientReceive
  | clientSend (answers : List (Except MqttError Bool))

variable (s : Flow BUFFER TOPIC_SIZE PARALLEL_RECEIVES)

/-- The sender processes an acknowledgement. -/
def acknowledged : Packet → Flow BUFFER TOPIC_SIZE PARALLEL_RECEIVES
  | .pubrec pid =>
    if s.phase pid = .published then { s with phase := Function.update s.phase pid .received }
    else s
  | .pubcomp pid =>
    if s.phase pid = .released then { s with phase := Function.update s.phase pid .idle } else s
  | _ => s

/-- The call with which the client processes a packet. -/
def process : Packet → ReceivesCall BUFFER TOPIC_SIZE PARALLEL_RECEIVES PUnit
  | .publish publish => Receives.onPublish publish
  | .pubrel pid => Receives.onPubrel pid
  | _ => pure ⟨⟩

/-- A step is not possible where the sender would leave the protocol, and where a call of the client
would return an error for an incoming packet. -/
def next : Label → Option (Flow BUFFER TOPIC_SIZE PARALLEL_RECEIVES)
  | .start message =>
    match message.qospid with
    | .exactlyOnce pid =>
      if s.phase pid = .idle then
        some
          { s with
            phase := Function.update s.phase pid .published
            message := Function.update s.message pid (some message)
            toClient := s.toClient ++ [⟨.publish message, true⟩] }
      else none
    | _ => none
  | .repeatPublish pid =>
    match s.phase pid, s.message pid with
    | .published, some message =>
      some
        { s with
          repeated := Function.update s.repeated pid true
          toClient :=
            s.toClient ++ [⟨.publish { message with dup := true, qospid := .exactlyOnce pid }, false⟩] }
    | _, _ => none
  | .sendPubrel pid =>
    match s.phase pid with
    | .received =>
      some
        { s with
          phase := Function.update s.phase pid .released
          toClient := s.toClient ++ [⟨.pubrel pid, false⟩] }
    | .released => some { s with toClient := s.toClient ++ [⟨.pubrel pid, false⟩] }
    | _ => none
  | .other message =>
    match message.qospid with
    | .exactlyOnce _ => none
    | _ => some { s with toClient := s.toClient ++ [⟨.publish message, false⟩] }
  | .senderReceive =>
    match s.ctx.env.outgoing with
    | [] => none
    | w :: outgoing =>
      some ({ s with ctx := { s.ctx with env := { s.ctx.env with outgoing } } }.acknowledged w.packet)
  | .clientReceive =>
    match s.toClient with
    | [] => none
    | d :: toClient =>
      match (process d.packet).exec s.ctx with
      | (.ok _, ctx) => some { s with ctx, toClient }
      | _ => none
  | .clientSend answers =>
    some
      { s with
        ctx := (Receives.sendPackets.exec
          { s.ctx with env := { s.ctx.env with answers } }).2 }

/-- The first PUBLISH of an exchange that arrives is in none of the queues, and a call that
processes it without an error delivers it. -/
def Delivers : Prop :=
  ∀ message pid toClient, s.toClient = ⟨.publish message, true⟩ :: toClient →
    message.qospid = .exactlyOnce pid →
    (pid ∉ s.ctx.inner.sendPubrec ∧ pid ∉ s.ctx.inner.awaitPubrel ∧
      pid ∉ s.ctx.inner.sendPubcomp) ∧
    ∀ s', s.next .clientReceive = some s' → ∃ m, ReceivedPublish.tryFrom message = .ok m ∧
      s'.ctx.inner.queue = s.ctx.inner.queue ++ [m]

/-- No PUBREL with the pid is on its way to the client, and no PUBCOMP is still to be written. -/
def PubcompsWritten (pid : Pid) : Prop :=
  (∀ d ∈ s.toClient, d.packet ≠ .pubrel pid) ∧ pid ∉ s.ctx.inner.sendPubcomp

instance (pid : Pid) : Decidable (s.PubcompsWritten pid) := inferInstanceAs (Decidable (_ ∧ _))

/-- A pid is taken for a new exchange only if no PUBLISH was repeated in the earlier ones with it, and
the PUBCOMPs for all their PUBRELs are written. -/
def FreshPid : Label → Prop
  | .start message => ∀ pid ∈ message.qospid.pid, s.repeated pid = false ∧ s.PubcompsWritten pid
  | _ => True

instance : (l : Label) → Decidable (s.FreshPid l)
  | .start message =>
    inferInstanceAs
      (Decidable (∀ pid ∈ message.qospid.pid, s.repeated pid = false ∧ s.PubcompsWritten pid))
  | .repeatPublish _ | .sendPubrel _ | .other _ => isTrue trivial
  | .senderReceive | .clientReceive | .clientSend _ => isTrue trivial

/-! ## The token of an exchange -/

inductive Kind where
  | publish
  | pubrel
  deriving DecidableEq, Repr

/-- The exchange of QoS 2 that a packet for the client belongs to. -/
def about : Packet → Option (Pid × Kind)
  | .publish message =>
    match message.qospid with
    | .exactlyOnce pid => some (pid, .publish)
    | _ => none
  | .pubrel pid => some (pid, .pubrel)
  | _ => none

def mark (pid : Pid) (d : Delivery) : Option (Kind × Bool) :=
  match about d.packet with
  | some (q, kind) => if q = pid then some (kind, d.first) else none
  | none => none

/-- What an acknowledgement on its way to the sender answers. -/
def reply (pid : Pid) : Packet → Option Kind
  | .pubrec q => if q = pid then some .publish else none
  | .pubcomp q => if q = pid then some .pubrel else none
  | _ => none

/-- What the system holds about a pid. -/
@[ext] structure View where
  phase : Phase
  traffic : List (Kind × Bool)
  sendPubrec : Nat
  awaitPubrel : Nat
  sendPubcomp : Nat
  replies : List Kind

def traffic (pid : Pid) : List (Kind × Bool) := s.toClient.filterMap (mark pid)

def view (pid : Pid) : View where
  phase := s.phase pid
  traffic := s.traffic pid
  sendPubrec := s.ctx.inner.sendPubrec.countKey id pid
  awaitPubrel := s.ctx.inner.awaitPubrel.countKey id pid
  sendPubcomp := s.ctx.inner.sendPubcomp.countKey id pid
  replies := s.ctx.env.outgoing.filterMap (reply pid ·.packet)

/-- The places of an exchange whose PUBLISH is not repeated. Several PUBRELs may be on their way, and
several PUBCOMPs due or on their way; those of an earlier exchange come before the PUBREC. -/
inductive Stage where
  | idle (pubrels due pubcomps : Nat)
  | publishSent (pubcomps : Nat)
  | pubrecDue (pubcomps : Nat)
  | pubrecSent (pubcomps : Nat)
  | pubrecReceived
  | pubrelSent (again : Nat)
  | pubcompDue (pubrels due pubcomps : Nat)

def Stage.view : Stage → View
  | idle r d c => ⟨.idle, .replicate r (.pubrel, false), 0, 0, d, .replicate c .pubrel⟩
  | publishSent c => ⟨.published, [(.publish, true)], 0, 0, 0, .replicate c .pubrel⟩
  | pubrecDue c => ⟨.published, [], 1, 0, 0, .replicate c .pubrel⟩
  | pubrecSent c => ⟨.published, [], 0, 1, 0, .replicate c .pubrel ++ [.publish]⟩
  | pubrecReceived => ⟨.received, [], 0, 1, 0, []⟩
  | pubrelSent r => ⟨.released, .replicate (r + 1) (.pubrel, false), 0, 1, 0, []⟩
  | pubcompDue r d c => ⟨.released, .replicate r (.pubrel, false), 0, 0, d, .replicate c .pubrel⟩

/-- The phase of the sender after an acknowledgement. -/
def answered : Phase → Option Kind → Phase
  | .published, some .publish => .received
  | .released, some .pubrel => .idle
  | phase, _ => phase

namespace Stage

variable {stage : Stage} {kind : Kind} {first : Bool} {rest : List (Kind × Bool)} {n : Nat}

/-- An acknowledgement arrives. -/
theorem exists_acknowledged {replies : List Kind} (h : stage.view.replies = kind :: replies) :
    ∃ stage' : Stage, stage'.view =
      { stage.view with phase := answered stage.view.phase kind, replies } := by
  cases stage with
  | idle r d c => cases c <;> cases h; exact ⟨.idle r d _, rfl⟩
  | publishSent c => cases c <;> cases h; exact ⟨.publishSent _, rfl⟩
  | pubrecDue c => cases c <;> cases h; exact ⟨.pubrecDue _, rfl⟩
  | pubrecSent c =>
    cases c with
    | zero => cases h; exact ⟨.pubrecReceived, rfl⟩
    | succ c => cases h; exact ⟨.pubrecSent c, rfl⟩
  | pubrecReceived | pubrelSent r => cases h
  | pubcompDue r d c => cases c <;> cases h; exact ⟨.idle r d _, rfl⟩

/-- A PUBREC is written. -/
theorem exists_pubrec (h : stage.view.sendPubrec = n + 1) :
    ∃ stage' : Stage, stage'.view =
      { stage.view with
        sendPubrec := n
        awaitPubrel := stage.view.awaitPubrel + 1
        replies := stage.view.replies ++ [.publish] } := by
  cases stage <;> cases h
  exact ⟨.pubrecSent _, rfl⟩

/-- A PUBCOMP is written. -/
theorem exists_pubcomp (h : stage.view.sendPubcomp = n + 1) :
    ∃ stage' : Stage, stage'.view =
      { stage.view with sendPubcomp := n, replies := stage.view.replies ++ [.pubrel] } := by
  have hreplicate (c : Nat) : .replicate (c + 1) Kind.pubrel = .replicate c .pubrel ++ [.pubrel] :=
    List.replicate_succ'
  cases stage with
  | idle r d c => cases h; exact ⟨.idle r n (c + 1), by simp only [view, hreplicate]⟩
  | pubcompDue r d c => cases h; exact ⟨.pubcompDue r n (c + 1), by simp only [view, hreplicate]⟩
  | _ => cases h

/-- The PUBLISH is processed. -/
theorem exists_publish (h : stage.view.traffic = (.publish, first) :: rest) :
    ∃ stage' : Stage, stage'.view =
      { stage.view with traffic := rest, sendPubrec := stage.view.sendPubrec + 1 } := by
  cases stage with
  | publishSent c => cases h; exact ⟨.pubrecDue c, rfl⟩
  | idle r | pubcompDue r => cases r <;> cases h
  | pubrecDue | pubrecSent | pubrecReceived | pubrelSent => cases h

/-- A PUBREL is processed, with what `await_pubrel` holds. -/
theorem exists_pubrel (h : stage.view.traffic = (.pubrel, first) :: rest) :
    ∃ stage' : Stage, stage'.view =
      { stage.view with
        traffic := rest
        awaitPubrel := stage.view.awaitPubrel - 1
        sendPubcomp := stage.view.sendPubcomp + 1 } := by
  cases stage with
  | idle r d c => cases r <;> cases h; exact ⟨.idle _ (d + 1) c, rfl⟩
  | pubrelSent r => cases h; exact ⟨.pubcompDue r 1 0, rfl⟩
  | pubcompDue r d c => cases r <;> cases h; exact ⟨.pubcompDue _ (d + 1) c, rfl⟩
  | publishSent | pubrecDue | pubrecSent | pubrecReceived => cases h

end Stage

/-- What holds of the exchanges with a pid. Without a repeated PUBLISH the view is that of a place.
After one, the first PUBLISH of the present exchange is either still on its way, before its copies and
with nothing else in the queues, or it has arrived, and then nothing more is known. -/
inductive Tracked (s : Flow BUFFER TOPIC_SIZE PARALLEL_RECEIVES) (pid : Pid) : Prop
  | clean (stage : Stage) (hview : s.view pid = stage.view) (hrep : s.repeated pid = false)
  | copied (copies : List (Kind × Bool)) (hcopies : ∀ k ∈ copies, k.2 = false)
      (htraffic : s.traffic pid = (.publish, true) :: copies)
      (hempty : s.ctx.inner.sendPubrec.countKey id pid = 0 ∧
        s.ctx.inner.awaitPubrel.countKey id pid = 0 ∧ s.ctx.inner.sendPubcomp.countKey id pid = 0)
      (hrep : s.repeated pid = true)
  | stale (hstale : ∀ k ∈ s.traffic pid, k.2 = false) (hrep : s.repeated pid = true)

variable {s} {s' : Flow BUFFER TOPIC_SIZE PARALLEL_RECEIVES} {pid : Pid}

theorem Tracked.congr (h : s.Tracked pid) (hview : s'.view pid = s.view pid)
    (hrep : s'.repeated pid = s.repeated pid) : s'.Tracked pid := by
  cases h with
  | clean stage hv hr => exact .clean stage (hview.trans hv) (hrep.trans hr)
  | copied copies hc ht he hr =>
    have hrec : s'.ctx.inner.sendPubrec.countKey id pid = _ := congrArg View.sendPubrec hview
    have hrel : s'.ctx.inner.awaitPubrel.countKey id pid = _ := congrArg View.awaitPubrel hview
    have hcomp : s'.ctx.inner.sendPubcomp.countKey id pid = _ := congrArg View.sendPubcomp hview
    exact .copied copies hc ((congrArg View.traffic hview).trans ht)
      ⟨hrec.trans he.1, hrel.trans he.2.1, hcomp.trans he.2.2⟩ (hrep.trans hr)
  | stale hs hr =>
    have htraffic : s'.traffic pid = s.traffic pid := congrArg View.traffic hview
    exact .stale (htraffic ▸ hs) (hrep.trans hr)

theorem new_tracked (pid : Pid) :
    (new : Flow BUFFER TOPIC_SIZE PARALLEL_RECEIVES).Tracked pid := .clean (.idle 0 0 0) rfl rfl

/-! ### The sender -/

theorem mark_publish {message : Publish} (h : message.qospid = .exactlyOnce pid) (first : Bool) (q : Pid) :
    mark q ⟨.publish message, first⟩ = if pid = q then some (.publish, first) else none := by
  simp [mark, about, h]

theorem mark_pubrel (pid : Pid) (first : Bool) (q : Pid) :
    mark q ⟨.pubrel pid, first⟩ = if pid = q then some (.pubrel, first) else none := rfl

theorem mark_other {message : Publish} (h : ∀ pid, message.qospid ≠ .exactlyOnce pid) (first : Bool)
    (q : Pid) :
    mark q ⟨.publish message, first⟩ = none := by
  unfold mark about
  cases hq : message.qospid with
  | exactlyOnce pid => exact absurd hq (h pid)
  | _ => simp [hq]

/-- The PUBREL with the pid that a place has under way is on its way to the client. -/
theorem mem_toClient_of_traffic {first : Bool} (h : (.pubrel, first) ∈ s.traffic pid) :
    ∃ d ∈ s.toClient, d.packet = .pubrel pid := by
  obtain ⟨⟨packet, first⟩, hd, hmark⟩ := List.mem_filterMap.mp h
  refine ⟨_, hd, ?_⟩
  unfold mark about at hmark
  cases packet with
  | publish message => cases hq : message.qospid <;> simp [hq] at hmark
  | pubrel q => simpa using And.left (by simpa using hmark)
  | _ => cases hmark

/-- With the token at the sender, a new exchange puts it on the way to the client. -/
theorem Tracked.start {message : Publish} (hq : message.qospid = .exactlyOnce pid)
    (hphase : s.phase pid = .idle) (hfresh : s.repeated pid = false) (hwritten : s.PubcompsWritten pid)
    (h : ∀ q, s.Tracked q) (q : Pid) :
    Tracked
      { s with
        phase := Function.update s.phase pid .published
        message := Function.update s.message pid (some message)
        toClient := s.toClient ++ [⟨.publish message, true⟩] } q := by
  by_cases hpq : pid = q
  · subst hpq
    have hdue : s.ctx.inner.sendPubcomp.countKey id pid = 0 :=
      BoundedVec.countKey_eq_zero_iff.mpr fun p hp hpid => hwritten.2 (hpid ▸ hp)
    have hrel : ∀ first, (.pubrel, first) ∉ s.traffic pid := fun first hmem =>
      have ⟨d, hd, hpacket⟩ := mem_toClient_of_traffic hmem
      hwritten.1 d hd hpacket
    cases h pid with
    | clean stage hv hr =>
      have hp : stage.view.phase = .idle := (congrArg View.phase hv).symm.trans hphase
      cases stage with
      | idle r d c =>
        simp only [view, View.ext_iff, Stage.view] at hv
        obtain ⟨-, htraffic, hrec, hawait, -, hreplies⟩ := hv
        obtain rfl : r = 0 := by
          cases r with
          | zero => rfl
          | succ r => exact absurd (htraffic ▸ List.mem_cons_self) (hrel false)
        refine .clean (.publishSent c) ?_ hr
        simp only [traffic, List.replicate_zero] at htraffic
        simp [view, traffic, Stage.view, mark_publish hq, htraffic, hrec, hawait, hdue, hreplies,
          -List.filterMap_eq_nil_iff]
      | _ => cases hp
    | copied copies _ _ _ hr => rw [hr] at hfresh; cases hfresh
    | stale _ hr => rw [hr] at hfresh; cases hfresh
  · refine (h q).congr ?_ rfl
    simp [view, traffic, mark_publish hq, hpq, Function.update_of_ne (Ne.symm hpq)]

theorem no_first_filterMap (pid : Pid) {ds : List Delivery} (hds : ∀ d ∈ ds, d.first = false) :
    ∀ k ∈ ds.filterMap (mark pid), k.2 = false := by
  intro k hk
  obtain ⟨d, hd, hk⟩ := List.mem_filterMap.mp hk
  unfold mark at hk
  split at hk
  · split at hk <;> cases hk
    exact hds d hd
  · cases hk

/-- After a repetition, more packets that are not a first PUBLISH change nothing. -/
theorem Tracked.append (h : s.Tracked pid) (hrep : s.repeated pid = true) {ds : List Delivery}
    (hds : ∀ d ∈ ds, d.first = false) (hinner : s'.ctx.inner = s.ctx.inner)
    (hto : s'.toClient = s.toClient ++ ds) (hrep' : s'.repeated pid = true) : s'.Tracked pid := by
  have hmarks := no_first_filterMap pid hds
  have htraffic' : s'.traffic pid = s.traffic pid ++ ds.filterMap (mark pid) := by
    rw [traffic, hto, List.filterMap_append, traffic]
  cases h with
  | clean _ _ hr => cases hrep.symm.trans hr
  | copied copies hcopies htraffic hempty _ =>
    refine .copied (copies ++ ds.filterMap (mark pid)) ?_ ?_ (hinner ▸ hempty) hrep'
    · intro k hk
      exact (List.mem_append.mp hk).elim (hcopies k) (hmarks k)
    · rw [htraffic', htraffic, List.cons_append]
  | stale hstale _ =>
    refine .stale (fun k hk => ?_) hrep'
    rw [htraffic'] at hk
    exact (List.mem_append.mp hk).elim (hstale k) (hmarks k)

theorem Tracked.repeatPublish {message : Publish} (hq : message.qospid = .exactlyOnce pid)
    (hphase : s.phase pid = .published) (h : ∀ q, s.Tracked q) (q : Pid) :
    Tracked
      { s with
        repeated := Function.update s.repeated pid true
        toClient := s.toClient ++ [⟨.publish message, false⟩] } q := by
  by_cases hpq : pid = q
  · subst hpq
    cases h pid with
    | clean stage hv hr =>
      obtain ⟨hp, htraffic, hrec, hrel, hcomp, -⟩ := View.ext_iff.mp hv
      simp only [view, traffic] at hp htraffic hrec hrel hcomp
      cases stage with
      | publishSent c =>
        refine .copied [(.publish, false)] (by simp) ?_ ⟨hrec, hrel, hcomp⟩ (by simp)
        simp [traffic, mark_publish hq, htraffic, Stage.view]
      | pubrecDue c | pubrecSent c =>
        refine .stale ?_ (by simp)
        simp [traffic, mark_publish hq, htraffic, Stage.view]
      | _ => cases hphase.symm.trans hp
    | copied _ _ _ _ hr => exact (h pid).append hr (by simp) rfl rfl (Function.update_self ..)
    | stale _ hr => exact (h pid).append hr (by simp) rfl rfl (Function.update_self ..)
  · refine (h q).congr ?_ (Function.update_of_ne (Ne.symm hpq) ..)
    simp [view, traffic, mark_publish hq, hpq]

theorem Tracked.sendPubrel_received (hphase : s.phase pid = .received) (h : ∀ q, s.Tracked q)
    (q : Pid) :
    Tracked
      { s with
        phase := Function.update s.phase pid .released
        toClient := s.toClient ++ [⟨.pubrel pid, false⟩] } q := by
  by_cases hpq : pid = q
  · subst hpq
    cases h pid with
    | clean stage hv hr =>
      refine .clean (.pubrelSent 0) ?_ hr
      have hp : stage.view.phase = .received := (congrArg View.phase hv).symm.trans hphase
      cases stage <;> cases hp
      simp only [view, traffic, Stage.view, View.mk.injEq] at hv ⊢
      simp [mark_pubrel, hv]
    | copied _ _ _ _ hr => exact (h pid).append hr (by simp) rfl rfl hr
    | stale _ hr => exact (h pid).append hr (by simp) rfl rfl hr
  · refine (h q).congr ?_ rfl
    simp [view, traffic, mark_pubrel, hpq, Function.update_of_ne (Ne.symm hpq)]

theorem Tracked.sendPubrel_released (hphase : s.phase pid = .released) (h : ∀ q, s.Tracked q)
    (q : Pid) : Tracked { s with toClient := s.toClient ++ [⟨.pubrel pid, false⟩] } q := by
  by_cases hpq : pid = q
  · subst hpq
    cases h pid with
    | clean stage hv hr =>
      have hp : stage.view.phase = .released := (congrArg View.phase hv).symm.trans hphase
      simp only [view, traffic, View.ext_iff] at hv
      cases stage with
      | pubrelSent r =>
        refine .clean (.pubrelSent (r + 1)) ?_ hr
        simp [view, traffic, mark_pubrel, Stage.view, hv, List.replicate_succ' (n := r + 1)]
      | pubcompDue r d c =>
        refine .clean (.pubcompDue (r + 1) d c) ?_ hr
        simp [view, traffic, mark_pubrel, Stage.view, hv, List.replicate_succ' (n := r)]
      | _ => cases hp
    | copied _ _ _ _ hr => exact (h pid).append hr (by simp) rfl rfl hr
    | stale _ hr => exact (h pid).append hr (by simp) rfl rfl hr
  · refine (h q).congr ?_ rfl
    simp [view, traffic, mark_pubrel, hpq]

/-! ### The acknowledgements -/

theorem acknowledged_eq (packet : Packet) : ∃ phase, s.acknowledged packet = { s with phase } := by
  unfold acknowledged
  split
  · split <;> exact ⟨_, rfl⟩
  · split <;> exact ⟨_, rfl⟩
  · exact ⟨_, rfl⟩

theorem answered_none (phase : Phase) : answered phase none = phase := by
  cases phase <;> rfl

theorem acknowledged_phase (packet : Packet) (pid : Pid) :
    (s.acknowledged packet).phase pid = answered (s.phase pid) (reply pid packet) := by
  have hother {q : Pid} (hq : q ≠ pid) (phase : Phase) :
      Function.update s.phase q phase pid = s.phase pid := Function.update_of_ne (Ne.symm hq) ..
  cases packet with
  | pubrec q =>
    by_cases hq : q = pid
    · subst hq
      cases hp : s.phase q <;> simp [acknowledged, reply, answered, hp]
    · rw [reply, if_neg hq, answered_none, acknowledged]
      split
      · exact hother hq .received
      · rfl
  | pubcomp q =>
    by_cases hq : q = pid
    · subst hq
      cases hp : s.phase q <;> simp [acknowledged, reply, answered, hp]
    · rw [reply, if_neg hq, answered_none, acknowledged]
      split
      · exact hother hq .idle
      · rfl
  | _ => exact (answered_none _).symm

/-- A PUBREC or PUBCOMP that arrives moves the exchange on at the sender. -/
theorem Tracked.acknowledged {w : Written} (h : s.Tracked pid) (hinner : s'.ctx.inner = s.ctx.inner)
    (hto : s'.toClient = s.toClient) (hphase : s'.phase = s.phase) (hrep : s'.repeated = s.repeated)
    (hout : s.ctx.env.outgoing = w :: s'.ctx.env.outgoing) :
    (s'.acknowledged w.packet).Tracked pid := by
  obtain ⟨phase, heq⟩ := s'.acknowledged_eq w.packet
  have hrep' : (s'.acknowledged w.packet).repeated pid = s.repeated pid := by
    rw [heq, ← hrep]
  have hrepeated (hr : s.repeated pid = true) : (s'.acknowledged w.packet).Tracked pid := by
    refine h.append hr (List.forall_mem_nil _) ?_ ?_ (hrep'.trans hr)
    · rw [heq, ← hinner]
    · rw [heq, List.append_nil, ← hto]
  cases h with
  | clean stage hv hr =>
    have hview : (s'.acknowledged w.packet).view pid =
        { s.view pid with
          phase := answered (s.phase pid) (reply pid w.packet)
          replies := s'.ctx.env.outgoing.filterMap (reply pid ·.packet) } := by
      rw [view, acknowledged_phase, heq, hphase]
      simp only [view, traffic, hto, hinner]
    have hreplies : (s.view pid).replies =
        (reply pid w.packet).toList ++ s'.ctx.env.outgoing.filterMap (reply pid ·.packet) := by
      rw [view, hout, List.filterMap_cons]
      cases reply pid w.packet <;> rfl
    cases hk : reply pid w.packet with
    | none =>
      rw [hk, Option.toList_none, List.nil_append] at hreplies
      rw [hk, answered_none, ← hreplies] at hview
      exact .clean stage (hview.trans hv) (hrep'.trans hr)
    | some kind =>
      rw [hk, hv] at hreplies
      obtain ⟨stage', hstage'⟩ := stage.exists_acknowledged hreplies
      refine .clean stage' ?_ (hrep'.trans hr)
      have hp : s.phase pid = stage.view.phase := congrArg View.phase hv
      rw [hview, hstage', hk, hv, hp]
      rfl
  | copied _ _ _ _ hr => exact hrepeated hr
  | stale _ hr => exact hrepeated hr

/-! ### The client -/

/-- What the client writes moves the exchange on. -/
theorem Tracked.move {c : Ctx (Receives BUFFER TOPIC_SIZE PARALLEL_RECEIVES)}
    (hmove : Receives.Move s.ctx c) (h : s.Tracked pid) : Tracked { s with ctx := c } pid := by
  cases hmove with
  | asked => exact h.congr rfl rfl
  | puback hi => exact h.congr (by simp [view, traffic, reply]) rfl
  | pubrec hi hpush =>
    rename_i p pubrels i
    have hpop := BoundedVec.countKey_removeAt hi (g := id) (k := pid)
    have hadd := BoundedVec.countKey_push hpush (g := id) (k := pid)
    by_cases hp : p = pid
    · subst hp
      simp only [id_eq, if_true] at hpop hadd
      cases h with
      | clean stage hv hr =>
        obtain ⟨stage', hstage'⟩ :=
          stage.exists_pubrec ((congrArg View.sendPubrec hv).symm.trans hpop)
        refine .clean stage' ?_ hr
        rw [hstage', ← hv]
        simp [view, traffic, hadd, reply]
      | copied copies hc ht he hr => cases he.1.symm.trans hpop
      | stale hs hr => exact .stale hs hr
    · simp only [id_eq, hp, if_false, Nat.add_zero] at hpop hadd
      refine h.congr ?_ rfl
      simp [view, traffic, hadd, hpop, reply, hp]
  | pubcomp hi =>
    rename_i p i
    have hpop := BoundedVec.countKey_removeAt hi (g := id) (k := pid)
    by_cases hp : p = pid
    · subst hp
      simp only [id_eq, if_true] at hpop
      cases h with
      | clean stage hv hr =>
        obtain ⟨stage', hstage'⟩ :=
          stage.exists_pubcomp ((congrArg View.sendPubcomp hv).symm.trans hpop)
        refine .clean stage' ?_ hr
        rw [hstage', ← hv]
        simp [view, traffic, reply]
      | copied copies hc ht he hr => cases he.2.2.symm.trans hpop
      | stale hs hr => exact .stale hs hr
    · simp only [id_eq, hp, if_false, Nat.add_zero] at hpop
      refine h.congr ?_ rfl
      simp [view, traffic, hpop, reply, hp]

theorem traffic_cons {d : Delivery} {toClient : List Delivery} (hto : s.toClient = d :: toClient)
    (pid : Pid) : s.traffic pid = (mark pid d).toList ++ toClient.filterMap (mark pid) := by
  rw [traffic, hto]
  cases h : mark pid d <;> simp [h]

/-- A packet for the client that is not about a pid leaves what is known of that pid. -/
theorem Tracked.pass {d : Delivery} {toClient : List Delivery}
    {c : Ctx (Receives BUFFER TOPIC_SIZE PARALLEL_RECEIVES)} (hto : s.toClient = d :: toClient)
    (hd : mark pid d = none) (henv : c.env = s.ctx.env)
    (hrec : c.inner.sendPubrec.countKey id pid = s.ctx.inner.sendPubrec.countKey id pid)
    (hrel : c.inner.awaitPubrel.countKey id pid = s.ctx.inner.awaitPubrel.countKey id pid)
    (hcomp : c.inner.sendPubcomp.countKey id pid = s.ctx.inner.sendPubcomp.countKey id pid)
    (h : s.Tracked pid) : Tracked { s with ctx := c, toClient } pid := by
  have htraffic := traffic_cons hto pid
  rw [hd, Option.toList_none, List.nil_append] at htraffic
  refine h.congr ?_ rfl
  rw [view, view, htraffic, henv, hrec, hrel, hcomp, traffic]

/-- A PUBLISH of QoS 2 that was processed moves the exchange to the client. -/
theorem Tracked.publish {message : Publish} {first : Bool} {toClient : List Delivery}
    {c : Ctx (Receives BUFFER TOPIC_SIZE PARALLEL_RECEIVES)}
    (hto : s.toClient = ⟨.publish message, first⟩ :: toClient)
    (hq : message.qospid = .exactlyOnce q)
    (hc : (Receives.onPublish message).exec s.ctx = (.ok ⟨⟩, c)) (h : s.Tracked pid) :
    Tracked { s with ctx := c, toClient } pid := by
  obtain ⟨pubrecs, hpush, hcases⟩ := Receives.onPublish_exactlyOnce_ok hq hc
  have henv : c.env = s.ctx.env ∧ c.inner.sendPubrec = pubrecs ∧
      c.inner.awaitPubrel = s.ctx.inner.awaitPubrel ∧
      c.inner.sendPubcomp = s.ctx.inner.sendPubcomp := by
    rcases hcases with ⟨-, rfl⟩ | ⟨-, m, -, rfl⟩ <;> exact ⟨rfl, rfl, rfl, rfl⟩
  have hadd := BoundedVec.countKey_push hpush (g := id) (k := pid)
  by_cases hp : q = pid
  · subst hp
    have htraffic := traffic_cons hto q
    rw [mark_publish hq, if_pos rfl, Option.toList_some, List.singleton_append] at htraffic
    rw [id_eq, if_pos rfl] at hadd
    cases h with
    | clean stage hv hr =>
      obtain ⟨stage', hstage'⟩ :=
        stage.exists_publish ((congrArg View.traffic hv).symm.trans htraffic)
      refine .clean stage' ?_ hr
      rw [hstage', ← hv]
      simp [view, traffic, henv, hadd]
    | copied copies hcopies ht he hr =>
      refine .stale ?_ hr
      rw [traffic, (List.cons.inj (htraffic.symm.trans ht)).2]
      exact hcopies
    | stale hs hr =>
      rw [htraffic] at hs
      exact .stale (fun k hk => hs k (List.mem_cons_of_mem _ hk)) hr
  · rw [id_eq, if_neg hp, Nat.add_zero] at hadd
    apply h.pass hto (by rw [mark_publish hq, if_neg hp]) henv.1
    · rw [henv.2.1, hadd]
    · rw [henv.2.2.1]
    · rw [henv.2.2.2]

/-- A PUBREL that was processed moves the exchange on to `send_pubcomp`. -/
theorem Tracked.pubrel {q : Pid} {first : Bool} {toClient : List Delivery}
    {c : Ctx (Receives BUFFER TOPIC_SIZE PARALLEL_RECEIVES)}
    (hto : s.toClient = ⟨.pubrel q, first⟩ :: toClient)
    (hc : (Receives.onPubrel q).exec s.ctx = (.ok ⟨⟩, c)) (h : s.Tracked pid) :
    Tracked { s with ctx := c, toClient } pid := by
  obtain ⟨pubcomps, hpush, hcases⟩ := Receives.onPubrel_ok hc
  have hadd := BoundedVec.countKey_push hpush (g := id) (k := pid)
  have henv : c.env = s.ctx.env ∧ c.inner.sendPubrec = s.ctx.inner.sendPubrec ∧
      c.inner.sendPubcomp = pubcomps := by
    rcases hcases with ⟨-, rfl⟩ | ⟨i, -, rfl⟩ <;> exact ⟨rfl, rfl, rfl⟩
  by_cases hp : q = pid
  · subst hp
    have htraffic := traffic_cons hto q
    rw [mark_pubrel, if_pos rfl, Option.toList_some, List.singleton_append] at htraffic
    rw [id_eq, if_pos rfl] at hadd
    have hrel : c.inner.awaitPubrel.countKey id q = s.ctx.inner.awaitPubrel.countKey id q - 1 := by
      rcases hcases with ⟨hnot, rfl⟩ | ⟨i, hi, rfl⟩
      · have hzero : s.ctx.inner.awaitPubrel.countKey id q = 0 :=
          BoundedVec.countKey_eq_zero_iff.mpr fun p hp hpq => hnot (hpq ▸ hp)
        dsimp only
        omega
      · have hpop := BoundedVec.countKey_removeAt hi (g := id) (k := q)
        rw [id_eq, if_pos rfl] at hpop
        dsimp only
        omega
    cases h with
    | clean stage hv hr =>
      obtain ⟨stage', hstage'⟩ :=
        stage.exists_pubrel ((congrArg View.traffic hv).symm.trans htraffic)
      refine .clean stage' ?_ hr
      rw [hstage', ← hv]
      simp [view, traffic, henv, hadd, hrel]
    | copied copies hcopies ht he hr => cases htraffic.symm.trans ht
    | stale hs hr =>
      rw [htraffic] at hs
      exact .stale (fun k hk => hs k (List.mem_cons_of_mem _ hk)) hr
  · rw [id_eq, if_neg hp, Nat.add_zero] at hadd
    apply h.pass hto (by rw [mark_pubrel, if_neg hp]) henv.1
    · rw [henv.2.1]
    · rcases hcases with ⟨-, rfl⟩ | ⟨i, hi, rfl⟩
      · rfl
      · have hpop := BoundedVec.countKey_removeAt hi (g := id) (k := pid)
        rw [id_eq, if_neg hp, Nat.add_zero] at hpop
        exact hpop.symm
    · rw [henv.2.2, hadd]

/-- The client processes the packet that is next to arrive. -/
theorem Tracked.clientReceive {d : Delivery} {toClient : List Delivery}
    {c : Ctx (Receives BUFFER TOPIC_SIZE PARALLEL_RECEIVES)} (hto : s.toClient = d :: toClient)
    (hc : (process d.packet).exec s.ctx = (.ok ⟨⟩, c)) (h : s.Tracked pid) :
    Tracked { s with ctx := c, toClient } pid := by
  obtain ⟨packet, first⟩ := d
  cases packet with
  | publish message =>
    by_cases hq : ∃ q, message.qospid = .exactlyOnce q
    · obtain ⟨q, hq⟩ := hq
      exact h.publish hto hq hc
    · have hq : ∀ q, message.qospid ≠ .exactlyOnce q := not_exists.mp hq
      obtain ⟨henv, hrec, hrel, hcomp⟩ := Receives.onPublish_other_ok hq hc
      exact h.pass hto (mark_other hq ..) henv (by rw [hrec]) (by rw [hrel]) (by rw [hcomp])
  | pubrel q => exact h.pubrel hto hc
  | _ =>
    cases hc
    exact h.pass hto rfl rfl rfl rfl rfl

/-! ## Runs -/

theorem Tracked.next {l : Label} (hG : s.FreshPid l) (hs : s.next l = some s')
    (h : ∀ q, s.Tracked q) : s'.Tracked pid := by
  cases l with
  | start message =>
    simp only [Flow.next] at hs
    split at hs
    · rename_i q hq
      split at hs <;> cases hs
      rename_i hphase
      have hfresh := hG q (by rw [hq]; rfl)
      exact .start hq hphase hfresh.1 hfresh.2 h pid
    · cases hs
  | repeatPublish q =>
    simp only [Flow.next] at hs
    split at hs <;> cases hs
    rename_i message hphase _
    exact .repeatPublish rfl hphase h pid
  | sendPubrel q =>
    simp only [Flow.next] at hs
    split at hs <;> cases hs
    · rename_i hphase
      exact .sendPubrel_received hphase h pid
    · rename_i hphase
      exact .sendPubrel_released hphase h pid
  | other message =>
    simp only [Flow.next] at hs
    split at hs <;> cases hs
    rename_i hq
    refine (h pid).congr ?_ rfl
    simp [view, traffic, mark_other hq]
  | senderReceive =>
    simp only [Flow.next] at hs
    split at hs <;> cases hs
    rename_i hout
    exact (h pid).acknowledged rfl rfl rfl rfl hout
  | clientReceive =>
    simp only [Flow.next] at hs
    split at hs
    · cases hs
    · rename_i d toClient hto
      split at hs <;> cases hs
      rename_i u c hc
      exact (h pid).clientReceive hto hc
  | clientSend answers =>
    cases hs
    let I (c : Ctx (Receives BUFFER TOPIC_SIZE PARALLEL_RECEIVES)) : Prop :=
      Tracked { s with ctx := c } pid
    have hmove : ∀ c c', Receives.Move c c' → I c → I c' := by
      intro c c' hmove hc
      exact Tracked.move (s := { s with ctx := c }) hmove hc
    exact Receives.sendPackets_moves.invariant (I := I) hmove ((h pid).congr rfl rfl)

/-- What is known of a pid whose first PUBLISH is at the front of the connection. -/
theorem Tracked.delivers (h : ∀ q, s.Tracked q) : s.Delivers := by
  intro message pid toClient hto hq
  have htraffic := traffic_cons hto pid
  rw [mark_publish hq, if_pos rfl, Option.toList_some, List.singleton_append] at htraffic
  have hzero : s.ctx.inner.sendPubrec.countKey id pid = 0 ∧
      s.ctx.inner.awaitPubrel.countKey id pid = 0 ∧
      s.ctx.inner.sendPubcomp.countKey id pid = 0 := by
    cases h pid with
    | clean stage hv _ =>
      have hto := (congrArg View.traffic hv).symm.trans htraffic
      simp only [view, View.ext_iff] at hv
      obtain ⟨-, -, hrec, hrel, hcomp, -⟩ := hv
      rw [hrec, hrel, hcomp]
      cases stage with
      | publishSent => exact ⟨rfl, rfl, rfl⟩
      | idle r | pubcompDue r => cases r <;> cases hto
      | _ => cases hto
    | copied _ _ _ he _ => exact he
    | stale hs _ => cases hs (.publish, true) (htraffic ▸ List.mem_cons_self)
  simp only [BoundedVec.countKey_eq_zero_iff, id_eq] at hzero
  have hnot : pid ∉ s.ctx.inner.sendPubrec ∧ pid ∉ s.ctx.inner.awaitPubrel ∧
      pid ∉ s.ctx.inner.sendPubcomp :=
    ⟨fun hm => hzero.1 pid hm rfl, fun hm => hzero.2.1 pid hm rfl, fun hm => hzero.2.2 pid hm rfl⟩
  refine ⟨hnot, fun s' hs' => ?_⟩
  simp only [Flow.next, hto] at hs'
  split at hs' <;> cases hs'
  rename_i u c hc
  obtain ⟨pubrecs, -, ⟨hdup, -⟩ | ⟨-, m, hm, rfl⟩⟩ := Receives.onPublish_exactlyOnce_ok hq hc
  · rw [Receives.isDup_eq_false_iff.mpr ⟨hnot.2.1, hnot.1, hnot.2.2⟩] at hdup
    cases hdup
  · exact ⟨m, hm, rfl⟩

/-- In every run in which a pid is taken for a new exchange only after exchanges whose PUBLISH was not
repeated, and after the PUBCOMPs for all their PUBRELs, the first PUBLISH of each exchange is
delivered. -/
theorem first_publish_delivered {ls : List Label} {s : Flow BUFFER TOPIC_SIZE PARALLEL_RECEIVES}
    (hr : run Flow.next new ls = some s)
    (hG : AllSteps Flow.next FreshPid (new : Flow BUFFER TOPIC_SIZE PARALLEL_RECEIVES) ls) :
    s.Delivers := by
  apply Tracked.delivers
  exact hG.invariant (I := fun s => ∀ q, s.Tracked q)
    (fun s l s' hs hG h _ => Tracked.next hG h hs) new_tracked hr

/-! ### A message that is lost -/

def pid8 : Pid := ⟨8, by decide, by decide⟩

def message8 (payload : UInt8) : Publish where
  dup := false
  qospid := .exactlyOnce pid8
  retain := false
  topicName := [116]
  payload := [payload]

/-- The PUBLISH with pid 8 is repeated before its PUBREC arrives, the exchange ends, and the PUBLISH
of a second exchange with this pid is on its way. -/
def repeatedRun : List Label :=
  [ .start (message8 1), .clientReceive, .clientSend [.ok true],
    .repeatPublish pid8, .clientReceive, .clientSend [.ok true],
    .senderReceive, .senderReceive, .sendPubrel pid8, .clientReceive, .clientSend [.ok true],
    .senderReceive, .start (message8 2) ]

theorem repeatedRun_loses_message :
    (run Flow.next (new : Flow 8 8 4) repeatedRun).map
        (fun s => (s.toClient, s.ctx.inner.awaitPubrel.toList)) =
      some ([⟨.publish (message8 2), true⟩], [pid8]) ∧
    (run Flow.next (new : Flow 8 8 4) (repeatedRun ++ [.clientReceive])).map
        (fun s => (s.toClient, s.ctx.inner.queue.map (·.payload.toList))) = some ([], [[1]]) ∧
    ¬∀ ls (s : Flow 8 8 4), run Flow.next new ls = some s → s.Delivers := by
  have hrun : (run Flow.next (new : Flow 8 8 4) repeatedRun).map
      (fun s => (s.toClient, s.ctx.inner.awaitPubrel.toList)) =
      some ([⟨.publish (message8 2), true⟩], [pid8]) := by decide +kernel
  refine ⟨hrun, by decide +kernel, fun hall => ?_⟩
  obtain ⟨s, hs, heq⟩ := Option.map_eq_some_iff.mp hrun
  simp only [Prod.mk.injEq] at heq
  have hmem : pid8 ∈ s.ctx.inner.awaitPubrel := by
    rw [← BoundedVec.mem_toList, heq.2]
    exact List.mem_singleton_self _
  exact (hall _ s hs _ pid8 [] heq.1 rfl).1.2.1 hmem

/-- The same two exchanges with a repeated PUBREL in the place of the repeated PUBLISH. Both PUBCOMPs
are written, and one of them is still on its way. -/
def repeatedPubrelRun : List Label :=
  [ .start (message8 1), .clientReceive, .clientSend [.ok true], .senderReceive,
    .sendPubrel pid8, .sendPubrel pid8, .clientReceive, .clientReceive,
    .clientSend [.ok true], .clientSend [.ok true], .senderReceive, .start (message8 2) ]

theorem first_publish_delivered_on_repeatedPubrelRun :
    ∃ s, run Flow.next (new : Flow 8 8 4) repeatedPubrelRun = some s ∧
      s.toClient = [⟨.publish (message8 2), true⟩] ∧
      s.ctx.env.outgoing.map Written.packet = [.pubcomp pid8] ∧ s.Delivers := by
  have hrun : (run Flow.next (new : Flow 8 8 4) repeatedPubrelRun).map
      (fun s => (s.toClient, s.ctx.env.outgoing.map Written.packet)) =
      some ([⟨.publish (message8 2), true⟩], [.pubcomp pid8]) := by decide +kernel
  obtain ⟨s, hs, heq⟩ := Option.map_eq_some_iff.mp hrun
  obtain ⟨hto, hout⟩ := Prod.mk.inj heq
  exact ⟨s, hs, hto, hout, first_publish_delivered hs (by decide +kernel)⟩

end Flow

end EmbeddedMqttc
