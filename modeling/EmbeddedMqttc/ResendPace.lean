import EmbeddedMqttc.AckProgress
import EmbeddedMqttc.Library.Pacing
import EmbeddedMqttc.SubResults
import EmbeddedMqttc.TakenOver

/-!
# Retransmissions are paced

A client writes for a request its PUBLISH, SUBSCRIBE or UNSUBSCRIBE, and for a publish of QoS 2 also a
PUBREL. However often the send passes are called and whatever the broker sends, none of these is
written twice within `RESEND_DURATION`. The queues are those of a `Pacing.Sender`, whose keys tell the
PUBREL of a request from its other packet.
-/

namespace EmbeddedMqttc

open Prog EmbeddedMqttc.Comp Run Pacing

variable {QUEUE BUFFER TOPIC : Nat}

/-! ## The packets of a request -/

def Packet.isPubrel : Packet → Bool
  | .pubrel _ => true
  | _ => false

/-- What a packet is written for. -/
def Written.errand (w : Written) : Option (Bool × UniqueID) :=
  w.request.map (w.packet.isPubrel, ·)

/-- What is still to be written for publishes that have not been written, and for those whose PUBREL
has not. -/
def errands (unsent owed : Multiset UniqueID) : Multiset (Bool × UniqueID) :=
  unsent.map (Prod.mk false) + (unsent + owed).map (Prod.mk true)

section

variable {unsent unsent' owed owed' : Multiset UniqueID} {u : UniqueID}

theorem errands_cons : errands (u ::ₘ unsent) owed =
    (false, u) ::ₘ (true, u) ::ₘ errands unsent owed := by
  simp only [errands, Multiset.map_cons, Multiset.cons_add, Multiset.add_cons]
  exact Multiset.cons_swap _ _ _

theorem errands_owed : errands unsent (u ::ₘ owed) = (true, u) ::ₘ errands unsent owed := by
  simp [errands, Multiset.add_cons]

theorem errands_le (hunsent : unsent' ≤ unsent) (howed : owed' ≤ owed) :
    errands unsent' owed' ≤ errands unsent owed :=
  add_le_add (Multiset.map_le_map hunsent) (Multiset.map_le_map (add_le_add hunsent howed))

end

theorem SubRequest.isPubrel_createPacket {topicPathCapacity : Nat} {r : SubRequest TOPIC}
    {packet : Packet} (h : r.createPacket topicPathCapacity = .ok packet) :
    packet.isPubrel = false := by
  have hasks := asks_createPacket h
  have hkind := r.ofPublish_awaited
  cases packet with
  | pubrel pid =>
    rw [← Option.some.inj hasks] at hkind
    cases hkind
  | _ => rfl

/-- Nothing has been written for a request. -/
def Env.NoErrand (e e' : Env) : Prop :=
  e'.written.filterMap Written.errand = e.written.filterMap Written.errand ∧ e.now ≤ e'.now

theorem Env.NoErrand.wrote (e : Env) (packet : Packet) : e.NoErrand (e.wrote ⟨packet, none⟩) :=
  ⟨by simp [Written.errand], Nat.le_refl _⟩

theorem Env.NoErrand.trans {e e' e'' : Env} (h : e.NoErrand e') (h' : e'.NoErrand e'') :
    e.NoErrand e'' := ⟨h'.1.trans h.1, h.2.trans h'.2⟩

theorem Receives.sendPackets_noErrand (c : Ctx (Receives BUFFER TOPIC QUEUE)) :
    c.env.NoErrand (sendPackets.exec c).2.env := by
  let I (c' : Ctx (Receives BUFFER TOPIC QUEUE)) : Prop := c.env.NoErrand c'.env
  have hstep : ∀ c₁ c₂, Move c₁ c₂ → I c₁ → I c₂ := by
    intro c₁ c₂ hmove h
    cases hmove with
    | asked => exact h
    | puback | pubrec | pubcomp => exact h.trans (.wrote ..)
  exact sendPackets_moves.invariant (I := I) hstep ⟨rfl, Nat.le_refl _⟩

theorem PingStateInner.send_noErrand (c : Ctx PingStateInner) :
    c.env.NoErrand (send.exec c).2.env := by
  let I (c' : Ctx PingStateInner) : Prop := c.env.NoErrand c'.env
  have hstep : ∀ c₁ c₂, Move c₁ c₂ → I c₁ → I c₂ := by
    intro c₁ c₂ hmove h
    cases hmove with
    | asked => exact h
    | read => exact ⟨h.1, h.2.trans (Env.now_le_read _)⟩
    | request => exact h.trans (.wrote ..)
  exact send_moves.invariant (I := I) hstep ⟨rfl, Nat.le_refl _⟩

/-! ## The publishes -/

namespace PublishesInner

/-- The publishes that have not been written. -/
def unwritten (q : PublishesInner QUEUE BUFFER TOPIC) : Multiset UniqueID :=
  q.sendPublish.bag (·.uniqueId)

/-- The publishes whose PUBREL may still be written for the first time. -/
def owed (q : PublishesInner QUEUE BUFFER TOPIC) : Multiset UniqueID :=
  q.awaitPubrec.bag (·.publish.uniqueId) +
    Multiset.ofList (q.sendPubrel.toList.filterMap (·.uniqueId))

/-- What has been written and waits, with the time it was written at. -/
def sent (q : PublishesInner QUEUE BUFFER TOPIC) : Multiset ((Bool × UniqueID) × Instant) :=
  q.awaitPuback.bag (fun e => ((false, e.publish.uniqueId), e.publishSent)) +
    q.awaitPubrec.bag (fun e => ((false, e.publish.uniqueId), e.publishSent)) +
    q.awaitPubcomp.bag (fun e => ((true, e.uniqueId), e.pubrelSent))

/-- The queues and the calls of `publish` that wait for room, as a sender. -/
def paced (calls : Multiset UniqueID) (known : Set (Bool × UniqueID))
    (c : Ctx (PublishesInner QUEUE BUFFER TOPIC)) : Sender (Bool × UniqueID) where
  now := c.env.now
  pending := errands (calls + c.inner.unwritten) c.inner.owed
  waiting := c.inner.sent
  known := known
  written := c.env.written.filterMap Written.errand

variable {c c' : Ctx (PublishesInner QUEUE BUFFER TOPIC)} {calls : Multiset UniqueID}
  {known : Set (Bool × UniqueID)}

theorem onward_paced (hnow : c.env.now ≤ c'.env.now) :
    Onward (paced calls known c) (paced calls known c') := ⟨hnow, le_rfl⟩

/-- A publish is written for the first time. -/
theorem paced_first {current : OwnedPublish BUFFER TOPIC} {i : Nat}
    (hi : c.inner.sendPublish.get? i = some current)
    (hsend : c'.inner.sendPublish = c.inner.sendPublish.removeAt i)
    (howed : c'.inner.owed ≤ current.uniqueId ::ₘ c.inner.owed)
    (hsent : c'.inner.sent ≤ ((false, current.uniqueId), c'.env.now) ::ₘ c.inner.sent)
    (hnow : c.env.now ≤ c'.env.now)
    (hwritten : c'.env.written = c.env.written ++ [⟨current.borrow, some current.uniqueId⟩]) :
    Pacing.Step RESEND_DURATION (paced calls known c) (paced calls known c') := by
  refine .first (false, current.uniqueId) c'.env.now (onward_paced hnow) hnow ?_ hsent ?_
  · have hunsent : c.inner.unwritten = current.uniqueId ::ₘ c'.inner.unwritten := by
      rw [unwritten, unwritten, hsend]
      exact BoundedVec.bag_removeAt hi
    dsimp only [paced]
    rw [hunsent, Multiset.add_cons, errands_cons, ← errands_owed]
    exact Multiset.cons_le_cons _ (errands_le le_rfl howed)
  · simp [paced, hwritten, Written.errand, OwnedPublish.borrow, Packet.isPubrel]

/-- What waits is written again. -/
theorem paced_again (key : Bool × UniqueID) (rest : PublishesInner QUEUE BUFFER TOPIC)
    {time : Instant} {w : Written} (hsent : c.inner.sent = (key, time) ::ₘ rest.sent)
    (hdue : c.env.now - time > RESEND_DURATION) (hunsent : c'.inner.unwritten = c.inner.unwritten)
    (howed : c'.inner.owed = c.inner.owed)
    (hsent' : c'.inner.sent = (key, c.env.now) ::ₘ rest.sent)
    (hkey : w.errand = some key) (henv : c'.env = c.env.wrote w) :
    Pacing.Step RESEND_DURATION (paced calls known c) (paced calls known c') := by
  have hnow : c'.env.now = c.env.now := by rw [henv]; rfl
  refine .again key time c.env.now rest.sent (onward_paced (Nat.le_of_eq hnow.symm)) hsent
    (Nat.add_lt_of_lt_sub' hdue) (Nat.le_refl _) ?_ (le_of_eq hsent') ?_
  · dsimp only [paced]
    rw [hunsent, howed]
  · simp [paced, henv, hkey]

theorem paced_move (hmove : Move c c') :
    Pacing.Step RESEND_DURATION (paced calls known c) (paced calls known c') := by
  cases hmove with
  | asked => exact .settle (onward_paced (Nat.le_refl _)) le_rfl le_rfl rfl
  | read => exact .settle (onward_paced (Env.now_le_read _)) le_rfl le_rfl rfl
  | atMostOnce hi hq =>
    exact paced_first hi rfl (Multiset.le_cons_self _ _) (Multiset.le_cons_self _ _)
      (Nat.le_refl _) rfl
  | atLeastOnce hi hq hpush =>
    refine paced_first hi rfl (Multiset.le_cons_self _ _) (le_of_eq ?_) (Env.now_le_read _) rfl
    simp only [sent, BoundedVec.bag_push hpush, Multiset.cons_add]
  | exactlyOnce hi hq hpush =>
    refine paced_first hi rfl (le_of_eq ?_) (le_of_eq ?_) (Env.now_le_read _) rfl
    · simp only [owed, BoundedVec.bag_push hpush, Multiset.cons_add]
    · simp only [sent, BoundedVec.bag_push hpush, Multiset.cons_add, Multiset.add_cons]
  | pubrel hi hu hpush =>
    rename_i current uid queue i
    refine .first (true, uid) (c.env.wrote ⟨.pubrel current.pid, some uid⟩).read.now
      (onward_paced (Env.now_le_read _)) (Env.now_le_read _) ?_ (le_of_eq ?_) ?_
    · have hqueue := Multiset.coe_eq_coe.mpr (BoundedVec.perm_filterMap_removeAt hi (·.uniqueId))
      rw [hu] at hqueue
      dsimp only [paced]
      rw [owed, owed, hqueue, ← errands_owed]
      refine errands_le le_rfl (le_of_eq ?_)
      exact (Multiset.add_cons ..).symm
    · simp only [paced, sent, BoundedVec.bag_push hpush, Multiset.add_cons]
    · simp [paced, Written.errand, Packet.isPubrel]
  | anonymous _ hi hu =>
    refine .settle (onward_paced (Env.now_le_read _)) (errands_le le_rfl ?_) le_rfl ?_
    · have hqueue := Multiset.coe_eq_coe.mpr (BoundedVec.perm_filterMap_removeAt hi (·.uniqueId))
      rw [hu] at hqueue
      rw [owed, owed, hqueue]
      exact le_rfl
    · simp [paced, Written.errand]
  | pubackResend hi hdue =>
    rename_i pending i
    refine paced_again (false, pending.publish.uniqueId)
      { c.inner with awaitPuback := c.inner.awaitPuback.removeAt i } ?_ hdue rfl rfl ?_ rfl rfl
    · simp only [sent, BoundedVec.bag_removeAt hi, Multiset.cons_add]
    · simp only [sent, BoundedVec.bag_modifyAt hi, Multiset.cons_add]
  | pubrecResend hi hdue =>
    rename_i pending i
    refine paced_again (false, pending.publish.uniqueId)
      { c.inner with awaitPubrec := c.inner.awaitPubrec.removeAt i } ?_ hdue rfl ?_ ?_ rfl rfl
    · simp only [sent, BoundedVec.bag_removeAt hi, Multiset.add_cons, Multiset.cons_add]
    · exact congrArg (· + _) (BoundedVec.bag_modifyAt_of_eq fun _ => rfl)
    · simp only [sent, BoundedVec.bag_modifyAt hi, Multiset.add_cons, Multiset.cons_add]
  | pubcompResend hi hdue =>
    rename_i pending i
    refine paced_again (true, pending.uniqueId)
      { c.inner with awaitPubcomp := c.inner.awaitPubcomp.removeAt i } ?_ hdue rfl rfl ?_ rfl rfl
    · simp only [sent, BoundedVec.bag_removeAt hi, Multiset.add_cons]
    · simp only [sent, BoundedVec.bag_modifyAt hi, Multiset.add_cons]

theorem paced_sendPackets (calls : Multiset UniqueID) (known : Set (Bool × UniqueID))
    (c : Ctx (PublishesInner QUEUE BUFFER TOPIC)) :
    Relation.ReflTransGen (Pacing.Step RESEND_DURATION) (paced calls known c)
      (paced calls known (sendPackets.exec c).2) := by
  let I (c' : Ctx (PublishesInner QUEUE BUFFER TOPIC)) : Prop :=
    Relation.ReflTransGen (Pacing.Step RESEND_DURATION) (paced calls known c) (paced calls known c')
  exact sendPackets_moves.invariant (I := I) (fun _ _ hmove h => h.tail (paced_move hmove)) .refl

/-- Entries have been taken out or have gone on to `send_pubrel`. -/
theorem paced_settle (henv : c'.env.written = c.env.written) (hnow : c'.env.now = c.env.now)
    (hunsent : c'.inner.unwritten = c.inner.unwritten) (howed : c'.inner.owed ≤ c.inner.owed)
    (hsent : c'.inner.sent ≤ c.inner.sent) :
    Pacing.Step RESEND_DURATION (paced calls known c) (paced calls known c') := by
  refine .settle (onward_paced (Nat.le_of_eq hnow.symm)) ?_ hsent ?_
  · exact errands_le (le_of_eq (by rw [hunsent])) howed
  · simp only [paced, henv]

theorem owed_of_pubrecResult {q q' : PublishesInner QUEUE BUFFER TOPIC} {entry : SendPubrel}
    {r : Except (Stop MqttError) Unit} (h : pubrecResult q entry = (r, q')) :
    q'.owed ≤ Multiset.ofList entry.uniqueId.toList + q.owed := by
  unfold pubrecResult at h
  split at h
  · rename_i queue hpush
    cases h
    have hqueue := Multiset.coe_eq_coe.mpr (BoundedVec.perm_filterMap_push hpush (·.uniqueId))
    rw [owed, owed, hqueue, ← Multiset.coe_add, add_left_comm]
  · cases h
    exact Multiset.le_add_left _ _

theorem paced_processIncomingPacket (packet : Packet)
    (c : Ctx (PublishesInner QUEUE BUFFER TOPIC)) :
    Pacing.Step RESEND_DURATION (paced calls known c)
      (paced calls known ((Publishes.processIncomingPacket packet).exec c).2) := by
  have hsame : Pacing.Step RESEND_DURATION (paced calls known c) (paced calls known c) :=
    .settle ⟨Nat.le_refl _, le_rfl⟩ le_rfl le_rfl rfl
  cases packet with
  | puback pid =>
    simp only [Publishes.processIncomingPacket]
    rcases processPuback_cases c pid with ⟨i, p, -, -, h⟩ | ⟨-, h⟩ <;> rw [h]
    · exact paced_settle rfl rfl rfl le_rfl
        (add_le_add_left (add_le_add_left (BoundedVec.bag_removeAt_le _ _ _) _) _)
    · exact hsame
  | pubrec pid =>
    simp only [Publishes.processIncomingPacket]
    rcases processPubrec_cases c pid with ⟨i, p, r, inner, hi, -, hres, h⟩ | ⟨-, r, inner, hres, h⟩ <;>
      rw [h]
    · have howed := owed_of_pubrecResult hres
      obtain ⟨sendPubrel, rfl⟩ := pubrecResult_rest hres
      refine paced_settle rfl rfl rfl (howed.trans (le_of_eq ?_))
        (add_le_add_left (add_le_add_right (BoundedVec.bag_removeAt_le _ _ _) _) _)
      dsimp only [owed]
      rw [BoundedVec.bag_removeAt hi, Multiset.cons_add, ← Multiset.singleton_add]
      rfl
    · have howed := owed_of_pubrecResult hres
      obtain ⟨sendPubrel, rfl⟩ := pubrecResult_rest hres
      exact paced_settle rfl rfl rfl (howed.trans (le_of_eq (zero_add _))) le_rfl
  | pubcomp pid =>
    simp only [Publishes.processIncomingPacket]
    rcases processPubcomp_cases c pid with ⟨i, p, -, -, h⟩ | ⟨-, h⟩ <;> rw [h]
    · exact paced_settle rfl rfl rfl le_rfl (add_le_add_right (BoundedVec.bag_removeAt_le _ _ _) _)
    · exact hsame
  | _ => exact hsame

end PublishesInner

/-! ## The subscribe and unsubscribe requests -/

namespace SubsInner

/-- The queues as a sender. -/
def paced (known : Set (Bool × UniqueID)) (c : Ctx (SubsInner TOPIC QUEUE)) :
    Sender (Bool × UniqueID) where
  now := c.env.now
  pending := c.inner.sendRequest.bag fun r => (false, r.uniqueId)
  waiting := c.inner.awaitAck.bag fun e => ((false, e.request.uniqueId), e.requestSent)
  known := known
  written := c.env.written.filterMap Written.errand

variable {topicPathCapacity : Nat} {c c' : Ctx (SubsInner TOPIC QUEUE)}
  {known : Set (Bool × UniqueID)}

theorem paced_move (hmove : Move topicPathCapacity c c') :
    Pacing.Step RESEND_DURATION (paced known c) (paced known c') := by
  have honward : Onward (paced known c) (paced known c') := ⟨now_le_move hmove, le_rfl⟩
  cases hmove with
  | asked | read => exact .settle honward le_rfl le_rfl rfl
  | request hpop hpacket hpush =>
    rename_i request rest acks packet
    refine .first (false, request.uniqueId)
      (c.env.wrote ⟨packet, some request.uniqueId⟩).read.now honward (Env.now_le_read _)
      (le_of_eq ?_) (le_of_eq ?_) ?_
    · exact (BoundedVec.bag_popFront hpop).symm
    · exact BoundedVec.bag_push hpush
    · simp [paced, Written.errand, SubRequest.isPubrel_createPacket hpacket]
  | resend hi hdue hpacket =>
    rename_i entry i packet
    refine .again (false, entry.request.uniqueId) entry.requestSent
      (c.env.wrote ⟨packet, some entry.request.uniqueId⟩).read.now
      ((c.inner.awaitAck.removeAt i).bag fun e => ((false, e.request.uniqueId), e.requestSent))
      honward (BoundedVec.bag_removeAt hi) (Nat.add_lt_of_lt_sub' hdue) (Env.now_le_read _) le_rfl
      (le_of_eq (BoundedVec.bag_modifyAt hi)) ?_
    simp [paced, Written.errand, SubRequest.isPubrel_createPacket hpacket]

theorem paced_send (topicPathCapacity : Nat) (known : Set (Bool × UniqueID))
    (c : Ctx (SubsInner TOPIC QUEUE)) :
    Relation.ReflTransGen (Pacing.Step RESEND_DURATION) (paced known c)
      (paced known ((send topicPathCapacity).exec c).2) := by
  let I (c' : Ctx (SubsInner TOPIC QUEUE)) : Prop :=
    Relation.ReflTransGen (Pacing.Step RESEND_DURATION) (paced known c) (paced known c')
  exact send_moves.invariant (I := I) (fun _ _ hmove h => h.tail (paced_move hmove)) .refl

theorem paced_onSuback (suback : Suback) (c : Ctx (SubsInner TOPIC QUEUE)) :
    Pacing.Step RESEND_DURATION (paced known c) (paced known ((onSuback suback).exec c).2) := by
  rcases onSuback_cases suback c with h | ⟨i, entry, qos, result, -, -, -, h⟩ <;> rw [h]
  · exact .settle ⟨Nat.le_refl _, le_rfl⟩ le_rfl le_rfl rfl
  · exact .settle ⟨Nat.le_refl _, le_rfl⟩ le_rfl (BoundedVec.bag_removeAt_le _ _ _) rfl

theorem paced_onUnsuback (pid : Pid) (c : Ctx (SubsInner TOPIC QUEUE)) :
    Pacing.Step RESEND_DURATION (paced known c) (paced known ((onUnsuback pid).exec c).2) := by
  rcases onUnsuback_cases pid c with h | ⟨i, entry, -, -, -, h⟩ <;> rw [h]
  · exact .settle ⟨Nat.le_refl _, le_rfl⟩ le_rfl le_rfl rfl
  · exact .settle ⟨Nat.le_refl _, le_rfl⟩ le_rfl (BoundedVec.bag_removeAt_le _ _ _) rfl

end SubsInner

/-! ## The client -/

namespace Client

/-- The calls of `publish` that wait for room. -/
def calls (s : Client QUEUE BUFFER TOPIC) : Multiset UniqueID := Multiset.ofList (s.waiting.map (·.2))

/-- What the requests so far are written for. -/
def errandsKnown (s : Client QUEUE BUFFER TOPIC) : Set (Bool × UniqueID) :=
  {k | k.2.request < s.issued.length}

def publishesPaced (s : Client QUEUE BUFFER TOPIC) : Sender (Bool × UniqueID) :=
  PublishesInner.paced s.calls s.errandsKnown ⟨s.publishes, s.env⟩

def subscribesPaced (s : Client QUEUE BUFFER TOPIC) : Sender (Bool × UniqueID) :=
  SubsInner.paced s.errandsKnown ⟨s.subscribes, s.env⟩

/-- Both components write under keys of their own. -/
def paced (s : Client QUEUE BUFFER TOPIC) : Sender (Bool × UniqueID) :=
  s.publishesPaced.beside s.subscribesPaced.pending s.subscribesPaced.waiting

variable {s s' : Client QUEUE BUFFER TOPIC} {topicPathCapacity : Nat} {l : Label}

theorem paced_eq (s : Client QUEUE BUFFER TOPIC) :
    s.paced = s.subscribesPaced.beside s.publishesPaced.pending s.publishesPaced.waiting := by
  simp only [paced, Sender.beside, add_comm]
  rfl

theorem paced_settle (hissued : s.issued.length ≤ s'.issued.length)
    (henv : s.env.NoErrand s'.env) (hpending : s'.paced.pending ≤ s.paced.pending)
    (hwaiting : s'.paced.waiting ≤ s.paced.waiting) :
    Pacing.Step RESEND_DURATION s.paced s'.paced :=
  .settle ⟨henv.2, fun _ hk => Nat.lt_of_lt_of_le hk hissued⟩ hpending hwaiting henv.1

/-- A request gets the next number. -/
theorem paced_accept (id : Nat) (kinds : Multiset Bool) (hkinds : kinds.Nodup)
    (hissued : s'.issued.length = s.issued.length + 1) (henv : s.env.NoErrand s'.env)
    (hpending : s'.paced.pending ≤
      kinds.map (fun kind => (kind, (⟨id, s.issued.length⟩ : UniqueID))) + s.paced.pending)
    (hwaiting : s'.paced.waiting ≤ s.paced.waiting) :
    Pacing.Step RESEND_DURATION s.paced s'.paced := by
  have hnumber (k : Bool × UniqueID)
      (hk : k ∈ kinds.map fun kind => (kind, (⟨id, s.issued.length⟩ : UniqueID))) :
      k.2.request = s.issued.length := by
    obtain ⟨kind, -, rfl⟩ := Multiset.mem_map.mp hk
    rfl
  have hlt : s.issued.length < s'.issued.length := by omega
  refine .accept _ ⟨henv.2, fun _ hk => Nat.lt_trans hk hlt⟩
    (hkinds.map fun _ _ h => congrArg Prod.fst h) (fun k hk hold => ?_) (fun k hk => ?_) hpending
    hwaiting henv.1
  · exact absurd hold (Nat.not_lt_of_le (Nat.le_of_eq (hnumber k hk).symm))
  · exact (hnumber k hk).trans_lt hlt

theorem publish_paced (topic payload : List UInt8) (qos : QoS) (retain : Bool) (id : Nat) :
    Pacing.Step RESEND_DURATION s.paced (s.publish topic payload qos retain id).2.paced := by
  have haccept (message : Publish) (pool : PidPool PID_POOL_SIZE) :
      Pacing.Step RESEND_DURATION s.paced
        { s with
          env := { s.env with pool }
          waiting := s.waiting ++ [(message, ⟨id, s.issued.length⟩)]
          issued := s.issued ++ [some message.qospid] : Client QUEUE BUFFER TOPIC }.paced := by
    have hcalls : Multiset.ofList
        ((s.waiting ++ [(message, (⟨id, s.issued.length⟩ : UniqueID))]).map (·.2)) =
          ⟨id, s.issued.length⟩ ::ₘ s.calls :=
      Multiset.coe_eq_coe.mpr ((List.perm_append_singleton ..).map _)
    refine paced_accept id {false, true} (by decide) (by simp) ⟨rfl, Nat.le_refl _⟩ ?_ le_rfl
    dsimp only [paced, Sender.beside, publishesPaced, subscribesPaced, PublishesInner.paced,
      SubsInner.paced, calls]
    rw [hcalls, Multiset.cons_add, errands_cons]
    exact le_of_eq (by simp [calls, Multiset.cons_add])
  unfold publish callPublishes
  rcases State.newPublish_cases ⟨s.publishes, s.env⟩ topic payload qos retain with
    h | ⟨message, -, -, -, ⟨-, h⟩ | ⟨pid, pool, -, -, h⟩⟩ <;> rw [h]
  · exact paced_settle (Nat.le_refl _) ⟨rfl, Nat.le_refl _⟩ le_rfl le_rfl
  · exact haccept message s.env.pool
  · exact haccept message pool

theorem calls_eraseIdx {i : Nat} {v : Publish × UniqueID} (hi : s.waiting[i]? = some v) :
    s.calls = v.2 ::ₘ Multiset.ofList ((s.waiting.eraseIdx i).map (·.2)) := by
  obtain ⟨hlt, rfl⟩ := List.getElem?_eq_some_iff.mp hi
  exact Multiset.coe_eq_coe.mpr ((List.getElem_cons_eraseIdx_perm hlt).symm.map (·.2))

/-- A call that waits is dropped, or panics. -/
theorem erase_paced (i : Nat) : Pacing.Step RESEND_DURATION s.paced
    { s with waiting := s.waiting.eraseIdx i : Client QUEUE BUFFER TOPIC }.paced := by
  refine paced_settle (Nat.le_refl _) ⟨rfl, Nat.le_refl _⟩ (add_le_add_left ?_ _) le_rfl
  have hcalls : Multiset.ofList ((s.waiting.eraseIdx i).map (·.2)) ≤ s.calls :=
    Multiset.coe_le.mpr ((List.eraseIdx_sublist s.waiting i).map _).subperm
  exact errands_le (add_le_add_left hcalls _) le_rfl

theorem poll_paced (i : Nat) : Pacing.Step RESEND_DURATION s.paced (s.poll i).2.paced := by
  have hsame : Pacing.Step RESEND_DURATION s.paced s.paced :=
    paced_settle (Nat.le_refl _) ⟨rfl, Nat.le_refl _⟩ le_rfl le_rfl
  unfold poll callPublishes
  cases hi : s.waiting[i]? with
  | none => exact hsame
  | some v =>
    obtain ⟨message, u⟩ := v
    dsimp only
    rcases Publishes.publish_cases ⟨s.publishes, s.env⟩ message u with
      h | ⟨e, -, h⟩ | ⟨entry, queue, hentry, hpush, h⟩ <;> rw [h]
    · exact hsame
    · exact erase_paced i
    · refine paced_settle (Nat.le_refl _) ⟨rfl, Nat.le_refl _⟩
        (add_le_add_left (le_of_eq ?_) _) le_rfl
      obtain ⟨rfl, -, -⟩ := OwnedPublish.newFromPublish_ok hentry
      dsimp only [publishesPaced, PublishesInner.paced, calls, PublishesInner.unwritten]
      rw [← calls, calls_eraseIdx hi, BoundedVec.bag_push hpush, Multiset.add_cons,
        Multiset.cons_add]
      rfl

theorem addRequest_paced (requestType : RequestType) (topics : List (List UInt8)) (id : Nat) :
    Pacing.Step RESEND_DURATION s.paced
      (s.addRequest (SubsInner.addRequest requestType topics) id).2.paced := by
  unfold addRequest callSubscribes
  rcases SubsInner.addRequest_cases ⟨s.subscribes, s.env⟩ requestType topics
    ⟨id, s.issued.length⟩ with ⟨x, h⟩ | ⟨request, rest, pool, -, hid, -, hpush, h⟩ <;> rw [h]
  · exact paced_settle (by simp) ⟨rfl, Nat.le_refl _⟩ le_rfl le_rfl
  · refine paced_accept id {false} (Multiset.nodup_singleton _) (by simp) ⟨rfl, Nat.le_refl _⟩ ?_
      le_rfl
    dsimp only [paced, Sender.beside, publishesPaced, subscribesPaced, PublishesInner.paced,
      SubsInner.paced, calls]
    rw [BoundedVec.bag_push hpush, hid, Multiset.add_cons]
    exact le_of_eq (by simp)

/-- A step that touches no queue of requests and writes for none. -/
theorem rest_paced (hpublishes : s'.publishes = s.publishes)
    (hsubscribes : s'.subscribes = s.subscribes) (hwaiting : s'.waiting = s.waiting)
    (hissued : s'.issued = s.issued) (henv : s.env.NoErrand s'.env) :
    Pacing.Step RESEND_DURATION s.paced s'.paced := by
  refine paced_settle (Nat.le_of_eq (by rw [hissued])) henv (le_of_eq ?_) (le_of_eq ?_)
  all_goals
    simp only [paced, Sender.beside, publishesPaced, subscribesPaced, PublishesInner.paced,
      SubsInner.paced, calls, hpublishes, hsubscribes, hwaiting]

theorem receive_paced (packet : Packet) :
    Pacing.Step RESEND_DURATION s.paced (s.processPacket packet).2.paced := by
  have hpublishes (packet : Packet) : Pacing.Step RESEND_DURATION s.paced
      (s.callPublishes (Publishes.processIncomingPacket packet)).2.paced :=
    (PublishesInner.paced_processIncomingPacket packet ⟨s.publishes, s.env⟩).beside _ _
  cases packet with
  | puback pid | pubrec pid | pubcomp pid => exact hpublishes _
  | suback response =>
    rw [paced_eq, paced_eq]
    exact (SubsInner.paced_onSuback response ⟨s.subscribes, s.env⟩).beside _ _
  | unsuback pid =>
    rw [paced_eq, paced_eq]
    exact (SubsInner.paced_onUnsuback pid ⟨s.subscribes, s.env⟩).beside _ _
  | publish message =>
    have henv := Receives.onPublish_env ⟨s.receives, s.env⟩ message
    exact rest_paced rfl rfl rfl rfl ⟨congrArg (·.written.filterMap Written.errand) henv,
      Nat.le_of_eq (congrArg Env.now henv).symm⟩
  | pubrel pid =>
    have henv := Receives.onPubrel_env ⟨s.receives, s.env⟩ pid
    exact rest_paced rfl rfl rfl rfl ⟨congrArg (·.written.filterMap Written.errand) henv,
      Nat.le_of_eq (congrArg Env.now henv).symm⟩
  | pingresp => exact rest_paced rfl rfl rfl rfl ⟨rfl, Env.now_le_read _⟩
  | _ => exact rest_paced rfl rfl rfl rfl ⟨rfl, Nat.le_refl _⟩

/-- Every step is a number of steps of the sender. -/
theorem outcome_paced (s : Client QUEUE BUFFER TOPIC) (topicPathCapacity : Nat) (l : Label) :
    Relation.ReflTransGen (Pacing.Step RESEND_DURATION) s.paced
      (s.outcome topicPathCapacity l).2.paced := by
  cases l with
  | publish topic payload qos retain id => exact .single (publish_paced topic payload qos retain id)
  | poll i => exact .single (poll_paced i)
  | drop i => exact .single (erase_paced i)
  | subscribe topics qos id => exact .single (addRequest_paced (.subscribe qos) topics id)
  | unsubscribe topics id => exact .single (addRequest_paced .unsubscribe topics id)
  | autoSubscribe =>
    refine .single ?_
    simp only [outcome, autoSubscribeChunk, callPublishes]
    split
    · exact rest_paced rfl rfl rfl rfl ⟨rfl, Nat.le_refl _⟩
    · rcases nextPid_cases ⟨s.publishes, s.env⟩ with h | ⟨pid, pool, -, h⟩ <;> rw [h] <;>
        exact rest_paced rfl rfl rfl rfl ⟨rfl, Nat.le_refl _⟩
  | autoSubscribed => exact .single (rest_paced rfl rfl rfl rfl ⟨rfl, Nat.le_refl _⟩)
  | sendPublishes answers ticks =>
    have hsteps := PublishesInner.paced_sendPackets s.calls s.errandsKnown
      ⟨s.publishes, (s.scripted answers ticks).env⟩
    exact hsteps.lift (·.beside s.subscribesPaced.pending s.subscribesPaced.waiting)
      fun _ _ hstep => hstep.beside _ _
  | sendReceives answers =>
    exact .single (rest_paced rfl rfl rfl rfl
      (Receives.sendPackets_noErrand ⟨s.receives, (s.scripted answers []).env⟩))
  | sendSubscribes answers ticks =>
    rw [paced_eq, paced_eq]
    have hsteps := SubsInner.paced_send topicPathCapacity s.errandsKnown
      ⟨s.subscribes, (s.scripted answers ticks).env⟩
    exact hsteps.lift (·.beside s.publishesPaced.pending s.publishesPaced.waiting)
      fun _ _ hstep => hstep.beside _ _
  | sendPing answers ticks =>
    exact .single (rest_paced rfl rfl rfl rfl
      (PingStateInner.send_noErrand ⟨s.ping, (s.scripted answers ticks).env⟩))
  | receive packet => exact .single (receive_paced packet)
  | wait d => exact .single (rest_paced rfl rfl rfl rfl ⟨rfl, Nat.le_add_right ..⟩)

theorem run_paced {ls : List Label} (hr : run (fun s l => s.next topicPathCapacity l) s ls = some s') :
    Relation.ReflTransGen (Pacing.Step RESEND_DURATION) s.paced s'.paced := by
  induction ls generalizing s with
  | nil =>
    obtain rfl := Option.some.inj hr
    exact .refl
  | cons l ls ih =>
    obtain ⟨s₁, hstep, hr⟩ := run_cons_iff.mp hr
    obtain rfl := Option.some.inj hstep
    exact (s.outcome_paced topicPathCapacity l).trans (ih hr)

/-- **Retransmissions are paced.** In no part of a run in which no more than `RESEND_DURATION` goes by
does the client write a PUBLISH, PUBREL, SUBSCRIBE or UNSUBSCRIBE twice for the same request. -/
theorem retransmissions_paced {before ls : List Label}
    (hs : run (fun s l => s.next topicPathCapacity l) (new : Client QUEUE BUFFER TOPIC) before =
      some s)
    (hr : run (fun s l => s.next topicPathCapacity l) s ls = some s')
    (hnow : s'.env.now ≤ s.env.now + RESEND_DURATION) :
    ∃ ws, s'.env.written = s.env.written ++ ws ∧ (ws.filterMap Written.errand).Nodup := by
  have hvalid : s.paced.Valid := valid_of_steps (run_paced hs) (.of_empty rfl rfl)
  obtain ⟨keys, hkeys, hnodup⟩ := nodup_of_steps (run_paced hr) hvalid hnow
  obtain ⟨ws, hwritten⟩ := written_of_run hr
  refine ⟨ws, hwritten, ?_⟩
  have hsame : s'.env.written.filterMap Written.errand =
      s.env.written.filterMap Written.errand ++ keys := hkeys
  rw [hwritten, List.filterMap_append] at hsame
  exact List.append_cancel_left hsame ▸ hnodup

/-- The PUBLISH and the PUBREL of a request are written within `RESEND_DURATION`, and the pass at its
end writes neither again. -/
theorem retransmissions_paced_on_exchange :
    let before : List Label :=
      [.publish [116] [7] .exactlyOnce false 45, .poll 0, .wait (.fromSecs 9)]
    let exchange : List Label :=
      [.sendPublishes [.ok true] [], .receive (.pubrec ⟨1, Nat.one_pos, Pid.one_lt⟩),
        .sendPublishes [.ok true] [], .wait (.fromSecs 5), .sendPublishes [.ok true] []]
    ∃ s s' : Client 4 8 8, run (fun s l => s.next 16 l) new before = some s ∧
      run (fun s l => s.next 16 l) s exchange = some s' ∧
      ∃ ws, s'.env.written = s.env.written ++ ws ∧ (ws.filterMap Written.errand).Nodup ∧
        ws.filterMap Written.errand = [(false, ⟨45, 0⟩), (true, ⟨45, 0⟩)] := by
  intro before exchange
  obtain ⟨s, s', hs, hr, hnothing, herrands, hnow⟩ : ∃ s s' : Client 4 8 8,
      run (fun s l => s.next 16 l) new before = some s ∧
        run (fun s l => s.next 16 l) s exchange = some s' ∧ s.env.written = [] ∧
        s'.env.written.filterMap Written.errand = [(false, ⟨45, 0⟩), (true, ⟨45, 0⟩)] ∧
        s'.env.now ≤ s.env.now + RESEND_DURATION := ⟨_, _, rfl, rfl, by decide +kernel⟩
  obtain ⟨ws, hwritten, hnodup⟩ := retransmissions_paced hs hr hnow
  refine ⟨s, s', hs, hr, ws, hwritten, hnodup, ?_⟩
  rw [hwritten, hnothing, List.nil_append] at herrands
  exact herrands

end Client

end EmbeddedMqttc
