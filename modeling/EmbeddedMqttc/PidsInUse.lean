import EmbeddedMqttc.Client
import EmbeddedMqttc.PublishSpec

/-!
# Who uses a pid

Every step of a client does at most one thing to the pids: it takes one from the pool for a request,
frees that of an exchange, or forgets one. From this follows that no pid has two users, whatever
packets arrive, and which steps lose pids.
-/

namespace EmbeddedMqttc

open Prog EmbeddedMqttc.Comp Run

variable {QUEUE BUFFER TOPIC : Nat}

namespace Env

/-- What a step does to the pids in use: `lossy` is what it takes for it to forget one. -/
inductive PidTurn (lossy : Prop) (e : Env) (used : Pid → Nat) (e' : Env) (used' : Pid → Nat) : Prop
  | keep (hpool : e'.pool = e.pool) (hlost : e'.lost = e.lost) (hused : ∀ p, used' p = used p)
  | take (pid : Pid) (hnext : e.pool.nextPid = some (pid, e'.pool)) (hlost : e'.lost = e.lost)
      (hused : ∀ p, used' p = used p + if pid = p then 1 else 0)
  | free (pid : Pid) (hpool : e'.pool = (e.freed pid).pool) (hlost : e'.lost = (e.freed pid).lost)
      (hused : ∀ p, used p = used' p + if pid = p then 1 else 0)
  | lose (hlossy : lossy) (pid : Pid) (hpool : e'.pool = e.pool) (hlost : e'.lost = e.lost)
      (hused : ∀ p, used p = used' p + if pid = p then 1 else 0)

/-- Each pid that was ever handed out is in use, in the pool or lost, and it is so once. -/
def PidsConserved (e : Env) (used : Pid → Nat) : Prop :=
  ∀ p, used p + e.pool.free p + e.lost.count p = if p.val < e.pool.nextNewPid then 1 else 0

namespace PidTurn

variable {lossy : Prop} {e e' : Env} {used used' : Pid → Nat}

theorem sound (h : PidTurn lossy e used e' used') (hs : e.pool.Sound used) :
    e'.pool.Sound used' := by
  cases h with
  | keep hpool hlost hused =>
    rw [hpool]
    exact hs.mono fun p => Nat.le_of_eq (hused p)
  | take pid hnext hlost hused => exact (hs.nextPid hnext).mono fun p => Nat.le_of_eq (hused p)
  | free pid hpool hlost hused =>
    rw [hpool]
    exact hs.freePid hused
  | lose hlossy pid hpool hlost hused =>
    rw [hpool]
    exact hs.mono fun p => hused p ▸ Nat.le_add_right ..

/-- A step that does not forget a pid conserves them. -/
theorem conserved (h : PidTurn False e used e' used') (hc : e.PidsConserved used) :
    e'.PidsConserved used' := by
  intro p
  have hp := hc p
  cases h with
  | keep hpool hlost hused => rw [hpool, hlost, hused p, hp]
  | take pid hnext hlost hused =>
    rw [hlost, hused p]
    rcases PidPool.nextPid_cases hnext with ⟨hnew, hcons⟩ | ⟨hval, -, hnew, hpool⟩
    · have := PidPool.free_of_cons hcons p
      rw [hnew]
      omega
    · rw [hnew, PidPool.free, hpool, ← PidPool.free]
      by_cases heq : pid = p
      · subst heq
        rw [hval, if_neg (Nat.lt_irrefl _)] at hp
        rw [if_pos rfl, if_pos (Nat.lt_succ_self _)]
        omega
      · have hne : p.val ≠ pid.val := fun h => heq (Pid.val_inj.mp h).symm
        rw [if_neg heq]
        split <;> split at hp <;> omega
  | free pid hpool hlost hused =>
    have hnew : e'.pool.nextNewPid = e.pool.nextNewPid := by
      rw [hpool]
      exact PidPool.nextNewPid_freePid
    have hfree : e'.pool.free p = e.pool.free p +
        if pid = p ∧ e.pool.pool.isFull = false then 1 else 0 := by
      rw [hpool]
      exact PidPool.free_freePid p
    have hcount : e'.lost.count p = e.lost.count p +
        if pid = p ∧ e.pool.pool.isFull = true then 1 else 0 := by
      rw [hlost, freed]
      cases e.pool.pool.isFull <;> simp [List.count_append, List.count_singleton]
    rw [hnew, ← hp, hfree, hcount, hused p]
    cases e.pool.pool.isFull <;> simp <;> omega
  | lose hlossy => exact hlossy.elim

/-- The users that a step does not touch. -/
theorem add (h : PidTurn lossy e used e' used') (more : Pid → Nat) :
    PidTurn lossy e (fun p => used p + more p) e' fun p => used' p + more p := by
  cases h with
  | keep hpool hlost hused => exact .keep hpool hlost fun p => by rw [hused p]
  | take pid hnext hlost hused => exact .take pid hnext hlost fun p => by rw [hused p]; omega
  | free pid hpool hlost hused => exact .free pid hpool hlost fun p => by rw [hused p]; omega
  | lose hlossy pid hpool hlost hused =>
    exact .lose hlossy pid hpool hlost fun p => by rw [hused p]; omega

theorem congr {used₁ used₁' : Pid → Nat} (h : PidTurn lossy e used e' used')
    (hu : ∀ p, used p = used₁ p) (hu' : ∀ p, used' p = used₁' p) :
    PidTurn lossy e used₁ e' used₁' := by
  have h₁ : used = used₁ := funext hu
  have h₂ : used' = used₁' := funext hu'
  exact h₁ ▸ h₂ ▸ h

theorem mono {lossy' : Prop} (h : PidTurn lossy e used e' used') (hl : lossy → lossy') :
    PidTurn lossy' e used e' used' := by
  cases h with
  | keep hpool hlost hused => exact .keep hpool hlost hused
  | take pid hnext hlost hused => exact .take pid hnext hlost hused
  | free pid hpool hlost hused => exact .free pid hpool hlost hused
  | lose hlossy pid hpool hlost hused => exact .lose (hl hlossy) pid hpool hlost hused

end PidTurn

end Env

section

variable {α : Type} (f : α → Option Pid) (l : List α) (a : α) (p : Pid)

theorem count_filterMap_cons :
    ((a :: l).filterMap f).count p = (l.filterMap f).count p + if f a = some p then 1 else 0 := by
  cases h : f a <;> simp [h, List.count_cons]

theorem count_filterMap_concat :
    ((l ++ [a]).filterMap f).count p = (l.filterMap f).count p + if f a = some p then 1 else 0 := by
  rw [← count_filterMap_cons]
  exact ((List.perm_append_singleton a l).filterMap f).count_eq p

variable {l a} in
theorem count_filterMap_eraseIdx {i : Nat} (hi : l[i]? = some a) :
    (l.filterMap f).count p =
      ((l.eraseIdx i).filterMap f).count p + if f a = some p then 1 else 0 := by
  obtain ⟨hlt, rfl⟩ := List.getElem?_eq_some_iff.mp hi
  rw [← count_filterMap_cons]
  exact ((List.getElem_cons_eraseIdx_perm hlt).symm.filterMap f).count_eq p

end

/-! ## The publishes -/

/-- The pid of an entry that owns a request. -/
def SendPubrel.ownPid (e : SendPubrel) : Option Pid := e.uniqueId.map fun _ => e.pid

namespace PublishesInner

/-- How many requests use a pid. -/
def uses (q : PublishesInner QUEUE BUFFER TOPIC) (p : Pid) : Nat :=
  q.sendPublish.countKey (·.qospid.pid) (some p) + q.awaitPuback.countKey (·.pid) p +
    q.awaitPubrec.countKey (·.pid) p + q.sendPubrel.countKey (·.ownPid) (some p) +
    q.awaitPubcomp.countKey (·.pid) p

/-- The pids that requests use. -/
def pids (q : PublishesInner QUEUE BUFFER TOPIC) : List Pid :=
  q.sendPublish.toList.filterMap (·.qospid.pid) ++ q.awaitPuback.toList.map (·.pid) ++
    q.awaitPubrec.toList.map (·.pid) ++ q.sendPubrel.toList.filterMap (·.ownPid) ++
    q.awaitPubcomp.toList.map (·.pid)

theorem count_pids (q : PublishesInner QUEUE BUFFER TOPIC) (p : Pid) :
    q.pids.count p = q.uses p := by
  simp only [pids, List.count_append, BoundedVec.count_filterMap]
  rfl

variable {c c' : Ctx (PublishesInner QUEUE BUFFER TOPIC)}

theorem Move.uses (h : Move c c') (p : Pid) : c'.inner.uses p = c.inner.uses p := by
  cases h with
  | asked | read => rfl
  | atMostOnce hi hq =>
    have := BoundedVec.countKey_removeAt hi (g := (·.qospid.pid)) (k := some p)
    simp only [PublishesInner.uses, hq, QosPid.pid, reduceCtorEq, if_false] at this ⊢
    omega
  | atLeastOnce hi hq hpush =>
    have := BoundedVec.countKey_removeAt hi (g := (·.qospid.pid)) (k := some p)
    have := BoundedVec.countKey_push hpush (g := (·.pid)) (k := p)
    simp only [PublishesInner.uses, hq, QosPid.pid, Option.some.injEq] at *
    omega
  | exactlyOnce hi hq hpush =>
    have := BoundedVec.countKey_removeAt hi (g := (·.qospid.pid)) (k := some p)
    have := BoundedVec.countKey_push hpush (g := (·.pid)) (k := p)
    simp only [PublishesInner.uses, hq, QosPid.pid, Option.some.injEq] at *
    omega
  | pubrel hi hu hpush =>
    have := BoundedVec.countKey_removeAt hi (g := (·.ownPid)) (k := some p)
    have := BoundedVec.countKey_push hpush (g := (·.pid)) (k := p)
    simp only [PublishesInner.uses, SendPubrel.ownPid, hu, Option.map_some, Option.some.injEq] at *
    omega
  | anonymous _ hi hu =>
    have := BoundedVec.countKey_removeAt hi (g := (·.ownPid)) (k := some p)
    simp only [PublishesInner.uses, SendPubrel.ownPid, hu, Option.map_none, reduceCtorEq,
      if_false] at *
    omega
  | pubackResend | pubrecResend | pubcompResend =>
    simp [PublishesInner.uses, BoundedVec.countKey_modifyAt]

/-- A send pass changes nothing about the pids. -/
theorem sendPackets_pids (c : Ctx (PublishesInner QUEUE BUFFER TOPIC)) :
    (sendPackets.exec c).2.env.pool = c.env.pool ∧ (sendPackets.exec c).2.env.lost = c.env.lost ∧
      ∀ p, (sendPackets.exec c).2.inner.uses p = c.inner.uses p := by
  let I (c' : Ctx (PublishesInner QUEUE BUFFER TOPIC)) : Prop :=
    c'.env.pool = c.env.pool ∧ c'.env.lost = c.env.lost ∧ ∀ p, c'.inner.uses p = c.inner.uses p
  have hstep : ∀ c₁ c₂, Move c₁ c₂ → I c₁ → I c₂ := by
    rintro c₁ c₂ hmove ⟨hpool, hlost, huses⟩
    refine ⟨?_, ?_, fun p => (hmove.uses p).trans (huses p)⟩
    · cases hmove <;> exact hpool
    · cases hmove <;> exact hlost
  exact sendPackets_moves.invariant (I := I) hstep ⟨rfl, rfl, fun _ => rfl⟩

theorem processPuback_turn (c : Ctx (PublishesInner QUEUE BUFFER TOPIC)) (pid : Pid) :
    c.env.PidTurn False c.inner.uses ((processPuback pid).exec c).2.env
      ((processPuback pid).exec c).2.inner.uses := by
  rcases processPuback_cases c pid with ⟨i, e, hi, -, h⟩ | ⟨-, h⟩
  · rw [h]
    refine .free e.pid rfl rfl fun p => ?_
    have := BoundedVec.countKey_removeAt hi (g := (·.pid)) (k := p)
    simp only [uses] at *
    omega
  · rw [h]
    exact .keep rfl rfl fun _ => rfl

theorem processPubcomp_turn (c : Ctx (PublishesInner QUEUE BUFFER TOPIC)) (pid : Pid) :
    c.env.PidTurn False c.inner.uses ((processPubcomp pid).exec c).2.env
      ((processPubcomp pid).exec c).2.inner.uses := by
  rcases processPubcomp_cases c pid with ⟨i, e, hi, -, h⟩ | ⟨-, h⟩
  · rw [h]
    refine .free e.pid rfl rfl fun p => ?_
    have := BoundedVec.countKey_removeAt hi (g := (·.pid)) (k := p)
    simp only [uses] at *
    omega
  · rw [h]
    exact .keep rfl rfl fun _ => rfl

/-- A PUBREC moves its pid to the next queue, and forgets it when that is full. -/
theorem processPubrec_turn (c : Ctx (PublishesInner QUEUE BUFFER TOPIC)) (pid : Pid) :
    c.env.PidTurn ((∃ e ∈ c.inner.awaitPubrec, e.pid = pid) ∧ c.inner.sendPubrel.isFull = true)
      c.inner.uses ((processPubrec pid).exec c).2.env ((processPubrec pid).exec c).2.inner.uses := by
  rcases processPubrec_cases c pid with ⟨i, e, r, inner, hi, hpid, hres, h⟩ |
    ⟨-, r, inner, hres, h⟩
  · rw [h]
    have hremove (p : Pid) := BoundedVec.countKey_removeAt hi (g := (·.pid)) (k := p)
    unfold pubrecResult at hres
    cases hpush : c.inner.sendPubrel.push ⟨pid, some e.publish.uniqueId⟩ with
    | none =>
      rw [hpush] at hres
      cases hres
      refine .lose ⟨⟨e, BoundedVec.mem_of_get? hi, hpid⟩, ?_⟩ pid rfl rfl fun p => ?_
      · exact BoundedVec.push_eq_none_iff.mp hpush
      · have := hremove p
        simp only [uses, hpid] at *
        omega
    | some queue =>
      rw [hpush] at hres
      cases hres
      refine .keep rfl rfl fun p => ?_
      have := hremove p
      have := BoundedVec.countKey_push hpush (g := (·.ownPid)) (k := some p)
      simp only [uses, hpid, SendPubrel.ownPid, Option.map_some, Option.some.injEq] at *
      omega
  · rw [h]
    refine .keep rfl rfl fun p => ?_
    unfold pubrecResult at hres
    cases hpush : c.inner.sendPubrel.push ⟨pid, none⟩ with
    | none =>
      rw [hpush] at hres
      cases hres
      rfl
    | some queue =>
      rw [hpush] at hres
      cases hres
      have := BoundedVec.countKey_push hpush (g := (·.ownPid)) (k := some p)
      simp only [uses, SendPubrel.ownPid, Option.map_none, reduceCtorEq, if_false] at *
      omega

end PublishesInner

/-! ## The subscriptions -/

namespace SubsInner

/-- How many requests use a pid. -/
def uses (q : SubsInner TOPIC QUEUE) (p : Pid) : Nat :=
  q.sendRequest.countKey (·.pid) p + q.awaitAck.countKey (·.request.pid) p

/-- The pids that requests use. -/
def pids (q : SubsInner TOPIC QUEUE) : List Pid :=
  q.sendRequest.toList.map (·.pid) ++ q.awaitAck.toList.map (·.request.pid)

theorem count_pids (q : SubsInner TOPIC QUEUE) (p : Pid) : q.pids.count p = q.uses p := by
  simp only [pids, List.count_append]
  rfl

variable {topicPathCapacity : Nat} {c c' : Ctx (SubsInner TOPIC QUEUE)}

theorem Move.uses (h : Move topicPathCapacity c c') (p : Pid) :
    c'.inner.uses p = c.inner.uses p := by
  cases h with
  | asked | read => rfl
  | request hpop hpacket hpush =>
    have := BoundedVec.countKey_popFront hpop (g := (·.pid)) (k := p)
    have := BoundedVec.countKey_push hpush (g := (·.request.pid)) (k := p)
    simp only [SubsInner.uses] at *
    omega
  | resend => simp [SubsInner.uses, BoundedVec.countKey_modifyAt]

/-- A send pass changes nothing about the pids. -/
theorem send_pids (topicPathCapacity : Nat) (c : Ctx (SubsInner TOPIC QUEUE)) :
    ((send topicPathCapacity).exec c).2.env.pool = c.env.pool ∧
      ((send topicPathCapacity).exec c).2.env.lost = c.env.lost ∧
      ∀ p, ((send topicPathCapacity).exec c).2.inner.uses p = c.inner.uses p := by
  let I (c' : Ctx (SubsInner TOPIC QUEUE)) : Prop :=
    c'.env.pool = c.env.pool ∧ c'.env.lost = c.env.lost ∧ ∀ p, c'.inner.uses p = c.inner.uses p
  have hstep : ∀ c₁ c₂, Move topicPathCapacity c₁ c₂ → I c₁ → I c₂ := by
    rintro c₁ c₂ hmove ⟨hpool, hlost, huses⟩
    refine ⟨?_, ?_, fun p => (hmove.uses p).trans (huses p)⟩
    · cases hmove <;> exact hpool
    · cases hmove <;> exact hlost
  exact send_moves.invariant (I := I) hstep ⟨rfl, rfl, fun _ => rfl⟩

theorem onSuback_turn (c : Ctx (SubsInner TOPIC QUEUE)) (suback : Suback) :
    c.env.PidTurn False c.inner.uses ((onSuback suback).exec c).2.env
      ((onSuback suback).exec c).2.inner.uses := by
  rcases onSuback_cases suback c with h | ⟨i, e, qos, result, hi, -, -, h⟩
  · rw [h]
    exact .keep rfl rfl fun _ => rfl
  · rw [h]
    refine .free e.request.pid rfl rfl fun p => ?_
    have := BoundedVec.countKey_removeAt hi (g := (·.request.pid)) (k := p)
    simp only [uses] at *
    omega

theorem onUnsuback_turn (c : Ctx (SubsInner TOPIC QUEUE)) (pid : Pid) :
    c.env.PidTurn False c.inner.uses ((onUnsuback pid).exec c).2.env
      ((onUnsuback pid).exec c).2.inner.uses := by
  rcases onUnsuback_cases pid c with h | ⟨i, e, hi, -, -, h⟩
  · rw [h]
    exact .keep rfl rfl fun _ => rfl
  · rw [h]
    refine .free e.request.pid rfl rfl fun p => ?_
    have := BoundedVec.countKey_removeAt hi (g := (·.request.pid)) (k := p)
    simp only [uses] at *
    omega

theorem addRequest_turn (c : Ctx (SubsInner TOPIC QUEUE)) (requestType : RequestType)
    (topics : List (List UInt8)) (uniqueId : UniqueID) :
    c.env.PidTurn False c.inner.uses ((addRequest requestType topics uniqueId).exec c).2.env
      ((addRequest requestType topics uniqueId).exec c).2.inner.uses := by
  rcases addRequest_cases c requestType topics uniqueId with ⟨x, h⟩ |
    ⟨request, rest, pool, -, -, hnext, hpush, h⟩
  · rw [h]
    exact .keep rfl rfl fun _ => rfl
  · rw [h]
    refine .take request.pid hnext rfl fun p => ?_
    have := BoundedVec.countKey_push hpush (g := (·.pid)) (k := p)
    simp only [uses] at *
    omega

end SubsInner

/-! ## The client -/

namespace Client

variable (s : Client QUEUE BUFFER TOPIC)

/-- How many requests use a pid: also those that wait for room, and the one that the connection
makes. -/
def uses (p : Pid) : Nat :=
  s.publishes.uses p + s.subscribes.uses p + (s.waiting.filterMap (·.1.qospid.pid)).count p +
    s.autoSubscribe.toList.count p

/-- Whether a step forgets a pid: a call of `publish` is dropped while it waits or fails when there is
room, a chunk of the connection's own subscriptions is done, or a PUBREC finds `send_pubrel` full. -/
def Forgets : Label → Prop
  | .drop i => ∃ w ∈ s.waiting[i]?, w.1.qospid.pid ≠ none
  | .poll i => s.publishes.sendPublish.isFull = false ∧
      ∃ w ∈ s.waiting[i]?, w.1.qospid.pid ≠ none ∧
        (OwnedPublish.newFromPublish w.1 w.2 :
          Except MqttError (OwnedPublish BUFFER TOPIC)).toOption.isNone
  | .autoSubscribed => s.autoSubscribe ≠ none
  | .receive (.pubrec pid) =>
    (∃ e ∈ s.publishes.awaitPubrec, e.pid = pid) ∧ s.publishes.sendPubrel.isFull = true
  | _ => False

instance (l : Label) : Decidable (s.Forgets l) :=
  match l with
  | .drop _ => inferInstanceAs (Decidable (∃ w ∈ _, _))
  | .poll _ => inferInstanceAs (Decidable (_ ∧ ∃ w ∈ _, _))
  | .autoSubscribed => inferInstanceAs (Decidable (_ ≠ _))
  | .receive (.pubrec _) =>
    inferInstanceAs (Decidable ((∃ e ∈ s.publishes.awaitPubrec.toList, _) ∧ _))
  | .receive (.connect _) | .receive (.connack _) | .receive (.publish _) | .receive (.puback _)
  | .receive (.pubrel _) | .receive (.pubcomp _) | .receive (.subscribe _) | .receive (.suback _)
  | .receive (.unsubscribe _) | .receive (.unsuback _) | .receive .pingreq | .receive .pingresp
  | .receive .disconnect | .publish .. | .subscribe .. | .unsubscribe .. | .autoSubscribe
  | .sendPublishes .. | .sendReceives .. | .sendSubscribes .. | .sendPing .. | .wait _ =>
    inferInstanceAs (Decidable False)

variable {s} {lossy : Prop} {α : Type} {topicPathCapacity : Nat}

theorem callPublishes_turn {m : PublishesCall QUEUE BUFFER TOPIC α}
    (h : s.env.PidTurn lossy s.publishes.uses (m.exec ⟨s.publishes, s.env⟩).2.env
      (m.exec ⟨s.publishes, s.env⟩).2.inner.uses) :
    s.env.PidTurn lossy s.uses (s.callPublishes m).2.env (s.callPublishes m).2.uses := by
  let more (p : Pid) : Nat := s.subscribes.uses p +
    (s.waiting.filterMap (·.1.qospid.pid)).count p + s.autoSubscribe.toList.count p
  refine (h.add more).congr (fun p => ?_) fun p => ?_
  · simp only [uses, more]
    omega
  · simp only [uses, callPublishes, more]
    omega

theorem callSubscribes_turn {m : SubsCall TOPIC QUEUE α}
    (h : s.env.PidTurn lossy s.subscribes.uses (m.exec ⟨s.subscribes, s.env⟩).2.env
      (m.exec ⟨s.subscribes, s.env⟩).2.inner.uses) :
    s.env.PidTurn lossy s.uses (s.callSubscribes m).2.env (s.callSubscribes m).2.uses := by
  let more (p : Pid) : Nat := s.publishes.uses p +
    (s.waiting.filterMap (·.1.qospid.pid)).count p + s.autoSubscribe.toList.count p
  refine (h.add more).congr (fun p => ?_) fun p => ?_
  · simp only [uses, more]
    omega
  · simp only [uses, callSubscribes, more]
    omega

theorem processPacket_turn (packet : Packet) :
    s.env.PidTurn (s.Forgets (.receive packet)) s.uses (s.processPacket packet).2.env
      (s.processPacket packet).2.uses := by
  cases packet with
  | publish message =>
    have henv := Receives.onPublish_env ⟨s.receives, s.env⟩ message
    exact .keep (congrArg (·.pool) henv) (congrArg (·.lost) henv) fun _ => rfl
  | pubrel pid =>
    have henv := Receives.onPubrel_env ⟨s.receives, s.env⟩ pid
    exact .keep (congrArg (·.pool) henv) (congrArg (·.lost) henv) fun _ => rfl
  | puback pid =>
    have h := PublishesInner.processPuback_turn ⟨s.publishes, s.env⟩ pid
    exact callPublishes_turn (m := PublishesInner.processPuback pid) (h.mono False.elim)
  | pubrec pid =>
    have h := PublishesInner.processPubrec_turn ⟨s.publishes, s.env⟩ pid
    exact callPublishes_turn (m := PublishesInner.processPubrec pid) h
  | pubcomp pid =>
    have h := PublishesInner.processPubcomp_turn ⟨s.publishes, s.env⟩ pid
    exact callPublishes_turn (m := PublishesInner.processPubcomp pid) (h.mono False.elim)
  | suback response =>
    have h := SubsInner.onSuback_turn ⟨s.subscribes, s.env⟩ response
    exact callSubscribes_turn (h.mono False.elim)
  | unsuback pid =>
    have h := SubsInner.onUnsuback_turn ⟨s.subscribes, s.env⟩ pid
    exact callSubscribes_turn (h.mono False.elim)
  | pingresp => exact .keep rfl rfl fun _ => rfl
  | _ => exact .keep rfl rfl fun _ => rfl

theorem publish_turn (topic payload : List UInt8) (qos : QoS) (retain : Bool) (id : Nat) :
    s.env.PidTurn lossy s.uses (s.publish topic payload qos retain id).2.env
      (s.publish topic payload qos retain id).2.uses := by
  unfold publish callPublishes
  rcases State.newPublish_cases ⟨s.publishes, s.env⟩ topic payload qos retain with
    h | ⟨message, -, -, -, ⟨hpid, h⟩ | ⟨pid, pool, hnext, hpid, h⟩⟩
  · rw [h]
    exact .keep rfl rfl fun _ => rfl
  · rw [h]
    refine .keep rfl rfl fun p => ?_
    simp [uses, hpid]
  · rw [h]
    refine .take pid hnext rfl fun p => ?_
    simp only [uses, count_filterMap_concat, hpid, Option.some.injEq]
    omega

/-- A call that ends without having been accepted. -/
theorem erase_turn {i : Nat} {w : Publish × UniqueID} (hi : s.waiting[i]? = some w)
    (hlossy : w.1.qospid.pid ≠ none → lossy) :
    s.env.PidTurn lossy s.uses s.env ({ s with waiting := s.waiting.eraseIdx i } : Client ..).uses := by
  have hcount (p : Pid) := count_filterMap_eraseIdx (·.1.qospid.pid) p hi
  cases hpid : w.1.qospid.pid with
  | none =>
    refine .keep rfl rfl fun p => ?_
    have := hcount p
    simp only [hpid, reduceCtorEq, if_false] at this
    simp only [uses, this]
    omega
  | some pid =>
    refine .lose (hlossy (by simp [hpid])) pid rfl rfl fun p => ?_
    have := hcount p
    simp only [hpid, Option.some.injEq] at this
    simp only [uses, this]
    omega

theorem poll_turn (i : Nat) :
    s.env.PidTurn (s.Forgets (.poll i)) s.uses (s.poll i).2.env (s.poll i).2.uses := by
  unfold poll callPublishes
  cases hi : s.waiting[i]? with
  | none => exact .keep rfl rfl fun _ => rfl
  | some w =>
    obtain ⟨message, uniqueId⟩ := w
    dsimp only
    rcases Publishes.publish_cases ⟨s.publishes, s.env⟩ message uniqueId with
      h | ⟨e, he, h⟩ | ⟨entry, queue, hentry, hpush, h⟩
    · rw [h]
      exact .keep rfl rfl fun _ => rfl
    · have hroom : s.publishes.sendPublish.isFull = false := by
        refine Bool.eq_false_iff.mpr fun hfull => ?_
        have hparked := Publishes.publish_of_full (c := ⟨s.publishes, s.env⟩) hfull message uniqueId
        cases h.symm.trans hparked
      rw [h]
      exact erase_turn hi fun hpid => ⟨hroom, _, hi, hpid, by rw [he]; rfl⟩
    · rw [h]
      refine .keep rfl rfl fun p => ?_
      have := count_filterMap_eraseIdx (·.1.qospid.pid) p hi
      have := BoundedVec.countKey_push hpush (g := (·.qospid.pid)) (k := some p)
      have hqos := (OwnedPublish.newFromPublish_ok hentry).2.2
      simp only [uses, PublishesInner.uses, hqos] at *
      omega

/-- A step does one thing to the pids, and it forgets one only if `Forgets` says so. -/
theorem outcome_turn (l : Label) :
    s.env.PidTurn (s.Forgets l) s.uses (s.outcome topicPathCapacity l).2.env
      (s.outcome topicPathCapacity l).2.uses := by
  cases l with
  | publish topic payload qos retain id => exact publish_turn topic payload qos retain id
  | poll i => exact poll_turn i
  | drop i =>
    cases hi : s.waiting[i]? with
    | none =>
      refine .keep rfl rfl fun p => ?_
      simp only [outcome, uses, List.eraseIdx_of_length_le (List.getElem?_eq_none_iff.mp hi)]
    | some w => exact erase_turn hi fun hpid => ⟨w, hi, hpid⟩
  | subscribe topics qos id =>
    have h := SubsInner.addRequest_turn ⟨s.subscribes, s.env⟩ (.subscribe qos) topics
      ⟨id, s.issued.length⟩
    exact (callSubscribes_turn h).mono False.elim
  | unsubscribe topics id =>
    have h := SubsInner.addRequest_turn ⟨s.subscribes, s.env⟩ .unsubscribe topics
      ⟨id, s.issued.length⟩
    exact (callSubscribes_turn h).mono False.elim
  | autoSubscribe =>
    unfold outcome autoSubscribeChunk callPublishes
    cases hauto : s.autoSubscribe with
    | some pid => exact .keep rfl rfl fun _ => rfl
    | none =>
      dsimp only
      rcases nextPid_cases ⟨s.publishes, s.env⟩ with h | ⟨pid, pool, hnext, h⟩
      · rw [h]
        exact .keep rfl rfl fun p => by simp [uses, hauto]
      · rw [h]
        refine .take pid hnext rfl fun p => ?_
        simp [uses, hauto, List.count_singleton]
  | autoSubscribed =>
    cases hauto : s.autoSubscribe with
    | none => exact .keep rfl rfl fun p => by simp [outcome, uses, hauto]
    | some pid =>
      refine .lose (by simp [Forgets, hauto]) pid rfl rfl fun p => ?_
      simp [outcome, uses, hauto, List.count_singleton]
  | sendPublishes answers ticks =>
    obtain ⟨hpool, hlost, huses⟩ :=
      PublishesInner.sendPackets_pids ⟨s.publishes, { s.env with answers, ticks }⟩
    refine .keep hpool hlost fun p => ?_
    exact congrArg (· + s.subscribes.uses p + _ + _) (huses p)
  | sendReceives answers =>
    let I (c' : Ctx (Receives BUFFER TOPIC QUEUE)) : Prop :=
      c'.env.pool = s.env.pool ∧ c'.env.lost = s.env.lost
    have hstep : ∀ c₁ c₂, Receives.Move c₁ c₂ → I c₁ → I c₂ := by
      intro c₁ c₂ hmove hc
      cases hmove <;> exact hc
    have hI := Receives.sendPackets_moves.invariant (I := I) hstep
      (s := ⟨s.receives, { s.env with answers, ticks := [] }⟩) ⟨rfl, rfl⟩
    exact .keep hI.1 hI.2 fun _ => rfl
  | sendSubscribes answers ticks =>
    obtain ⟨hpool, hlost, huses⟩ :=
      SubsInner.send_pids topicPathCapacity ⟨s.subscribes, { s.env with answers, ticks }⟩
    refine .keep hpool hlost fun p => ?_
    exact congrArg (s.publishes.uses p + · + _ + _) (huses p)
  | sendPing answers ticks =>
    let I (c' : Ctx PingStateInner) : Prop :=
      c'.env.pool = s.env.pool ∧ c'.env.lost = s.env.lost
    have hstep : ∀ c₁ c₂, PingStateInner.Move c₁ c₂ → I c₁ → I c₂ := by
      intro c₁ c₂ hmove hc
      cases hmove <;> exact hc
    have hI := PingStateInner.send_moves.invariant (I := I) hstep
      (s := ⟨s.ping, { s.env with answers, ticks }⟩) ⟨rfl, rfl⟩
    exact .keep hI.1 hI.2 fun _ => rfl
  | receive packet => exact processPacket_turn packet
  | wait d => exact .keep rfl rfl fun _ => rfl

theorem sound_step (l : Label) (hs : s.env.pool.Sound s.uses) :
    (s.outcome topicPathCapacity l).2.env.pool.Sound (s.outcome topicPathCapacity l).2.uses :=
  (outcome_turn l).sound hs

/-- Whatever the users call and whatever packets arrive, no pid has two users. -/
theorem sound_run {t : Client QUEUE BUFFER TOPIC} {ls : List Label}
    (hr : run (next · topicPathCapacity) new ls = some t) : t.env.pool.Sound t.uses := by
  let I (s : Client QUEUE BUFFER TOPIC) : Prop := s.env.pool.Sound s.uses
  have hstep : ∀ s l s', I s → next s topicPathCapacity l = some s' → I s' := by
    intro s l s' hs h
    cases h
    exact sound_step l hs
  exact invariant (I := I) hstep PidPool.new_sound hr

/-! ### The pids of all exchanges -/

variable (s) in
/-- The pids of the exchanges, and those of the publishes that wait for room and of the connection's
own subscription. -/
def pids : List Pid :=
  s.publishes.pids ++ s.subscribes.pids ++ s.waiting.filterMap (·.1.qospid.pid) ++
    s.autoSubscribe.toList

theorem count_pids (p : Pid) : s.pids.count p = s.uses p := by
  simp only [pids, List.count_append, PublishesInner.count_pids, SubsInner.count_pids, uses]

/-- The pids in use are non-zero and distinct and not in the pool, and the pool holds no pid
twice. -/
theorem pids_in_use {t : Client QUEUE BUFFER TOPIC} {ls : List Label}
    (hr : run (next · topicPathCapacity) new ls = some t) :
    (∀ p ∈ t.pids, p.val ≠ 0 ∧ p.val ∉ t.env.pool.pool.toList) ∧ t.pids.Nodup ∧
      t.env.pool.pool.toList.Nodup := by
  have hsound := sound_run hr
  refine ⟨fun p hp => ⟨Nat.ne_of_gt p.pos, ?_⟩, ?_, hsound.pool_nodup⟩
  · rw [← List.count_pos_iff, count_pids] at hp
    have hone : _ + t.env.pool.pool.toList.count p.val ≤ 1 := hsound.once p
    rw [← List.count_eq_zero]
    omega
  · rw [List.nodup_iff_count_le_one]
    intro p
    rw [count_pids]
    exact hsound.used_le_one p

theorem pids_in_use_on_two_requests : ∃ t : Client 4 8 8,
    run (next · 16) new
        [.publish [116] [7] .atLeastOnce false 0, .poll 0, .subscribe [[116]] .atMostOnce 1] =
      some t ∧ t.pids.map Pid.val = [1, 2] ∧
    (∀ p ∈ t.pids, p.val ≠ 0 ∧ p.val ∉ t.env.pool.pool.toList) ∧ t.pids.Nodup ∧
      t.env.pool.pool.toList.Nodup := by
  have hrun : ((run (next · 16) (new : Client 4 8 8)
      [.publish [116] [7] .atLeastOnce false 0, .poll 0, .subscribe [[116]] .atMostOnce 1]).map
        fun t => t.pids.map Pid.val) = some [1, 2] := by decide +kernel
  obtain ⟨t, ht, hpids⟩ := Option.map_eq_some_iff.mp hrun
  exact ⟨t, ht, hpids, pids_in_use ht⟩

/-! ### Which steps lose pids -/

/-- In a run that forgets no pid each pid that was ever handed out is in use or in the pool, unless it
was freed while the pool was full, and it is so once. So `next_pid` panics only when all pids are in
use or were lost in this way. -/
theorem pids_conserved {t : Client QUEUE BUFFER TOPIC} {ls : List Label}
    (hG : AllSteps (next · topicPathCapacity) (fun s l => ¬s.Forgets l)
      (new : Client QUEUE BUFFER TOPIC) ls)
    (hr : run (next · topicPathCapacity) new ls = some t) :
    t.env.PidsConserved t.uses ∧
      (t.env.pool.nextPid = none → ∀ p, p.val < 65535 → t.uses p + t.env.lost.count p = 1) := by
  let I (s : Client QUEUE BUFFER TOPIC) : Prop := s.env.PidsConserved s.uses
  have hstep : ∀ s l s', I s → ¬s.Forgets l → next s topicPathCapacity l = some s' → I s' := by
    intro s l s' hs hl h
    cases h
    exact ((outcome_turn l).mono hl).conserved hs
  have hnew : I (new : Client QUEUE BUFFER TOPIC) := by
    intro p
    change 0 = if p.val < 1 then 1 else 0
    rw [if_neg (Nat.not_lt.mpr p.pos)]
  have hI := hG.invariant (I := I) hstep hnew hr
  refine ⟨hI, fun hnone p hp => ?_⟩
  obtain ⟨hfree, hcounted⟩ := (sound_run hr).nextPid_eq_none hnone
  have := hI p
  rw [hfree p, hcounted, if_pos hp] at this
  omega

/-- A chunk of the connection's own subscriptions. -/
def autoSubscribeRun : List Label := [.autoSubscribe, .autoSubscribed]

/-- A call of `publish` that is dropped while it waits. -/
def droppedRun : List Label := [.publish [116] [7] .atLeastOnce false 0, .drop 0]

/-- A PUBREC for a pending publish that finds `send_pubrel` full. -/
def rejectedPubrecRun : List Label :=
  let pubrec (pid : Pid) : Label := .receive (.pubrec pid)
  let other (i : Fin 4) : Pid := ⟨i.val + 11, Nat.succ_pos _, by omega⟩
  [.publish [116] [7] .exactlyOnce false 0, .poll 0, .sendPublishes [.ok true] []] ++
    (List.finRange 4).map (fun i => pubrec (other i)) ++ [pubrec ⟨1, Nat.one_pos, Pid.one_lt⟩]

/-- Seventeen publishes that wait at once are acknowledged one after the other. -/
def crowdedRun : List Label :=
  List.replicate 17 (.publish [116] [7] .atLeastOnce false 0) ++
    (List.finRange 17).flatMap fun i =>
      [ .poll 0, .sendPublishes [.ok true] [],
        .receive (.puback ⟨i.val + 1, Nat.succ_pos _, by omega⟩) ]

/-- The pids that were handed out and are neither in use nor in the pool after a run. -/
def missing (ls : List Label) : Option (List Nat) :=
  (run (next · 16) (new : Client 4 8 8) ls).map fun t =>
    (List.range t.env.pool.nextNewPid).filter fun n =>
      0 < n && !(t.pids.map Pid.val).contains n && !t.env.pool.pool.toList.contains n

theorem crowdedRun_misses_pid :
    missing autoSubscribeRun = some [1] ∧ missing droppedRun = some [1] ∧
      missing rejectedPubrecRun = some [1] ∧ missing crowdedRun = some [17] ∧
      ¬∀ ls t, run (next · 16) (new : Client 4 8 8) ls = some t →
        ∀ p, p.val < t.env.pool.nextNewPid → t.uses p + t.env.pool.free p = 1 := by
  refine ⟨by decide +kernel, by decide +kernel, by decide +kernel, by decide +kernel, fun hall => ?_⟩
  let p : Pid := ⟨17, by decide, by decide⟩
  have hrun : (run (next · 16) (new : Client 4 8 8) crowdedRun).map
      (fun t => (t.env.pool.nextNewPid, t.uses p + t.env.pool.free p)) = some (18, 0) := by
    decide +kernel
  obtain ⟨t, ht, heq⟩ := Option.map_eq_some_iff.mp hrun
  obtain ⟨hnew, huses⟩ := Prod.mk.inj heq
  have := hall _ t ht p (by rw [hnew]; decide)
  omega

theorem pids_conserved_on_crowdedRun : ∃ t : Client 4 8 8,
    run (next · 16) new crowdedRun = some t ∧ t.env.PidsConserved t.uses ∧
      (t.env.pool.nextPid = none → ∀ p, p.val < 65535 → t.uses p + t.env.lost.count p = 1) := by
  have hrun : (run (next · 16) (new : Client 4 8 8) crowdedRun).isSome = true := by decide +kernel
  obtain ⟨t, ht⟩ := Option.isSome_iff_exists.mp hrun
  exact ⟨t, ht, pids_conserved (by decide +kernel) ht⟩

end Client

end EmbeddedMqttc
