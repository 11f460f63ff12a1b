import EmbeddedMqttc.PublishSpec
import EmbeddedMqttc.Sub

/-!
# What `SentAll` means

A send pass of `Publishes` that returns `SentAll` leaves a publish in `send_publish` only when the
queue that it would go to is full, and one of `Subs` leaves no request in `send_request`.
-/

namespace EmbeddedMqttc

open Prog EmbeddedMqttc.Comp

/-- A chain of send phases has sent all when each of them has. -/
theorem SendResult.next_eq_sentAll {σ : Type} {r : SendResult} {f : Comp σ SendResult} {c c' : Ctx σ}
    (h : (r.next f).exec c = (.ok .sentAll, c')) :
    r = .sentAll ∧ f.exec c = (.ok .sentAll, c') := by
  cases r with
  | partiallySent => cases h
  | sentAll =>
    obtain ⟨r, c₁, hf, h⟩ := exec_bind_eq_ok h
    cases r with
    | partiallySent => cases h
    | sentAll =>
      cases h
      exact ⟨rfl, hf⟩

namespace PublishesInner

variable {PARALLEL_PUBLISHES BUFFER TOPIC_SIZE : Nat}

/-- No publish that waits could be sent: the queue for it is full. -/
def TargetsFull (q : PublishesInner PARALLEL_PUBLISHES BUFFER TOPIC_SIZE) : Prop :=
  ∀ entry ∈ q.sendPublish, q.hasSpace entry.qospid.qos = false

variable {c c' : Ctx (PublishesInner PARALLEL_PUBLISHES BUFFER TOPIC_SIZE)}

theorem TargetsFull.congr {q q' : PublishesInner PARALLEL_PUBLISHES BUFFER TOPIC_SIZE}
    (hfull : q.TargetsFull) (hsend : q'.sendPublish = q.sendPublish)
    (hpuback : q'.awaitPuback.isFull = q.awaitPuback.isFull)
    (hpubrec : q'.awaitPubrec.isFull = q.awaitPubrec.isFull) : q'.TargetsFull := by
  intro entry hentry
  have hspace := hfull entry (hsend ▸ hentry)
  cases hqos : entry.qospid.qos with
  | atMostOnce =>
    rw [hqos] at hspace
    cases hspace
  | atLeastOnce =>
    rw [hqos] at hspace
    rwa [hasSpace, hpuback]
  | exactlyOnce =>
    rw [hqos] at hspace
    rwa [hasSpace, hpubrec]

/-- The entries that the loop over `send_publish` has passed could not be sent. -/
def PassedFull (i : Nat) (c : Ctx (PublishesInner PARALLEL_PUBLISHES BUFFER TOPIC_SIZE)) : Prop :=
  ∀ k < i, ∀ entry, c.inner.sendPublish.get? k = some entry →
    c.inner.hasSpace entry.qospid.qos = false

theorem sendPendingPublishes_sentAll
    (h : sendPendingPublishes.exec c = (.ok .sentAll, c')) : c'.inner.TargetsFull := by
  have hturns : LoopTurns
      (fun c : Ctx (PublishesInner PARALLEL_PUBLISHES BUFFER TOPIC_SIZE) => c.inner.sendPublish.len)
      sendPendingPublishesTurn PassedFull (fun r c => r = .ok .sentAll → c.inner.TargetsFull) := by
    intro i c hpassed hi
    dsimp only at hi ⊢
    have hget : c.inner.sendPublish.get? i = some c.inner.sendPublish.toList[i] :=
      List.getElem?_eq_getElem hi
    rcases sendPendingPublishesTurn_cases hget with
      ⟨hspace, h⟩ | h | ⟨e, h⟩ | ⟨s, -, hstored, h⟩ <;> rw [h]
    · refine ⟨fun k hk entry hentry => ?_, by omega⟩
      rcases Nat.lt_succ_iff_lt_or_eq.mp hk with hk | rfl
      · exact hpassed k hk entry hentry
      · cases hget.symm.trans hentry
        exact hspace
    · exact nofun
    · exact nofun
    · refine ⟨fun k hk entry hentry => hstored.full _ (hpassed k hk entry ?_), ?_⟩
      · rw [hstored.sendPublish] at hentry
        rwa [BoundedVec.get?, BoundedVec.toList_removeAt, List.getElem?_eraseIdx_of_lt hk] at hentry
      · have hlen := BoundedVec.removeAt_length hget
        rw [hstored.sendPublish]
        omega
  have hlast (i : Nat) (c : Ctx (PublishesInner PARALLEL_PUBLISHES BUFFER TOPIC_SIZE))
      (hpassed : PassedFull i c) (hlen : c.inner.sendPublish.len ≤ i) :
      (.ok .sentAll : Except (Stop MqttError) SendResult) = .ok .sentAll →
        c.inner.TargetsFull := by
    intro _ entry hentry
    obtain ⟨k, hk, hget⟩ := List.getElem_of_mem hentry
    exact hpassed k (Nat.lt_of_lt_of_le hk hlen) entry
      ((List.getElem?_eq_getElem hk).trans (congrArg some hget))
  rw [sendPendingPublishes, exec_get_bind] at h
  obtain ⟨r, c₁, hexec, hend⟩ :=
    hturns.exec hlast (s := c) fun k hk => absurd hk (Nat.not_lt_zero k)
  cases h.symm.trans hexec
  exact hend rfl

/-- What comes after in a send pass leaves it so. -/
theorem TargetsFull.move (hfull : c.inner.TargetsFull) (hmove : MoveOr False c c') :
    c'.inner.TargetsFull := by
  cases hmove with
  | asked => exact hfull
  | read => exact hfull
  | atMostOnce hi hq =>
    have hspace := hfull _ (BoundedVec.mem_of_get? hi)
    rw [hq] at hspace
    cases hspace
  | atLeastOnce hi hq hpush =>
    have hspace := hfull _ (BoundedVec.mem_of_get? hi)
    have hroom := (BoundedVec.push_eq_some_iff.mp hpush).1
    simp only [hq, QosPid.qos, hasSpace, Bool.not_eq_false', BoundedVec.isFull_iff] at hspace
    omega
  | exactlyOnce hi hq hpush =>
    have hspace := hfull _ (BoundedVec.mem_of_get? hi)
    have hroom := (BoundedVec.push_eq_some_iff.mp hpush).1
    simp only [hq, QosPid.qos, hasSpace, Bool.not_eq_false', BoundedVec.isFull_iff] at hspace
    omega
  | pubrel hi hu hpush => exact hfull
  | anonymous hpanics hi hu => exact hpanics.elim
  | pubackResend hi hdue => exact hfull.congr rfl BoundedVec.isFull_modifyAt rfl
  | pubrecResend hi hdue => exact hfull.congr rfl rfl BoundedVec.isFull_modifyAt
  | pubcompResend hi hdue => exact hfull

/-- A send pass returns `SentAll` only when no publish that waits could be sent. -/
theorem sendPackets_sentAll (h : sendPackets.exec c = (.ok .sentAll, c')) :
    c'.inner.TargetsFull := by
  obtain ⟨r₁, c₁, h₁, h⟩ := exec_bind_eq_ok h
  obtain ⟨r₂, c₂, h₂, h⟩ := exec_bind_eq_ok h
  obtain ⟨r₃, c₃, h₃, h⟩ := exec_bind_eq_ok h
  obtain ⟨rfl, hpubrel⟩ := SendResult.next_eq_sentAll h
  obtain ⟨rfl, hresend⟩ := SendResult.next_eq_sentAll h₃
  obtain ⟨rfl, hsend⟩ := SendResult.next_eq_sentAll h₂
  have hkeeps {m : PublishesCall PARALLEL_PUBLISHES BUFFER TOPIC_SIZE SendResult}
      {c c' : Ctx (PublishesInner PARALLEL_PUBLISHES BUFFER TOPIC_SIZE)}
      (hexits : ExitsAt (MoveOr False) Stops m c) (hm : m.exec c = (.ok .sentAll, c'))
      (hfull : c.inner.TargetsFull) : c'.inner.TargetsFull := by
    have hok := (hexits.invariant (fun _ _ hmove hc => TargetsFull.move hc hmove) hfull).1 _
      (congrArg Prod.fst hm)
    rwa [hm] at hok
  exact hkeeps resendPubrel_exits hpubrel
    (hkeeps resendPublishes_exits hresend (sendPendingPublishes_sentAll hsend))

end PublishesInner

namespace SubsInner

variable {TOPIC PARALLEL_REQUESTS topicPathCapacity : Nat}
  {c c' : Ctx (SubsInner TOPIC PARALLEL_REQUESTS)}

/-- A turn of the loop over `send_request` takes the first request, or the loop ends with
`PartiallySent`. -/
theorem sendRequestsTurn_cases {request : SubRequest TOPIC}
    {rest : BoundedVec (SubRequest TOPIC) PARALLEL_REQUESTS}
    (hpop : c.inner.sendRequest.popFront = some (request, rest)) :
    (∃ c', c'.inner.sendRequest = rest ∧
      (sendRequestsTurn topicPathCapacity).exec c = (.ok (.inr 0), c')) ∨
      (∃ c', (sendRequestsTurn topicPathCapacity).exec c = (.ok (.inl .partiallySent), c')) ∨
      ∃ x c', (sendRequestsTurn topicPathCapacity).exec c = (.error x, c') := by
  unfold sendRequestsTurn
  rw [exec_get_bind, hpop, exec_unwrap_some_bind]
  dsimp only
  split
  · exact .inr (.inl ⟨c, rfl⟩)
  · cases hpacket : request.createPacket topicPathCapacity with
    | error e => exact .inr (.inr ⟨.fail e, c, rfl⟩)
    | ok packet =>
      rcases tryWritePacket_cases c ⟨packet, some request.uniqueId⟩ with h | h | ⟨e, h⟩
      · refine .inl ⟨_, ?_, exec_bind_ok h⟩
        rfl
      · exact .inr (.inl ⟨_, exec_bind_ok h⟩)
      · exact .inr (.inr ⟨_, _, exec_bind_error h⟩)

theorem sendRequests_sentAll
    (h : (sendRequests topicPathCapacity).exec c = (.ok .sentAll, c')) :
    c'.inner.sendRequest.toList = [] := by
  have hturns : LoopTurns
      (fun c : Ctx (SubsInner TOPIC PARALLEL_REQUESTS) => c.inner.sendRequest.len)
      (fun _ => sendRequestsTurn topicPathCapacity) (fun i _ => i = 0)
      (fun r c => r = .ok .sentAll → c.inner.sendRequest.toList = []) := by
    rintro _ c rfl hi
    dsimp only at hi ⊢
    cases hpop : c.inner.sendRequest.popFront with
    | none =>
      rw [BoundedVec.len, BoundedVec.popFront_eq_none_iff.mp hpop] at hi
      cases hi
    | some r =>
      obtain ⟨request, rest⟩ := r
      rcases sendRequestsTurn_cases hpop with ⟨c', hrest, h⟩ | ⟨c', h⟩ | ⟨x, c', h⟩ <;> rw [h]
      · refine ⟨rfl, ?_⟩
        simp [hrest, BoundedVec.len, BoundedVec.popFront_eq_some_iff.mp hpop]
      · intro hall
        cases hall
      · intro hall
        cases hall
  have hlast (i : Nat) (c : Ctx (SubsInner TOPIC PARALLEL_REQUESTS)) (hi : i = 0)
      (hlen : c.inner.sendRequest.len ≤ i) :
      (.ok .sentAll : Except (Stop MqttError) SendResult) = .ok .sentAll →
        c.inner.sendRequest.toList = [] := by
    subst hi
    exact fun _ => List.eq_nil_of_length_eq_zero (Nat.le_zero.mp hlen)
  rw [sendRequests, exec_get_bind] at h
  obtain ⟨r, c₁, hexec, hend⟩ := hturns.exec hlast (s := c) rfl
  cases h.symm.trans hexec
  exact hend rfl

/-- A send pass returns `SentAll` only when no request is left to be sent. -/
theorem send_sentAll (h : (send topicPathCapacity).exec c = (.ok .sentAll, c')) :
    c'.inner.sendRequest.toList = [] := by
  obtain ⟨r, c₁, h₁, h⟩ := exec_bind_eq_ok h
  obtain ⟨rfl, hresend⟩ := SendResult.next_eq_sentAll h
  have hmoves : MovesAt (Move topicPathCapacity)
      (resendRequests topicPathCapacity : SubsCall TOPIC PARALLEL_REQUESTS SendResult) c₁ := by
    refine Fails.movesAt (.bind (.of_ok (timeNow_exec c₁) (.single .read)) fun now c₂ h => ?_)
    cases h
    exact requestResend_exits (Nat.le_refl _)
  let I : Ctx (SubsInner TOPIC PARALLEL_REQUESTS) → Prop := fun c => c.inner.sendRequest.toList = []
  have hstep (c c' : Ctx (SubsInner TOPIC PARALLEL_REQUESTS)) (hmove : Move topicPathCapacity c c')
      (hc : I c) : I c' := by
    cases hmove with
    | asked => exact hc
    | read => exact hc
    | request hpop hpacket hpush =>
      have hnone := BoundedVec.popFront_eq_none_iff.mpr hc
      cases hpop.symm.trans hnone
    | resend hi hdue hpacket => exact hc
  have hend := hmoves.invariant hstep (sendRequests_sentAll h₁)
  rwa [hresend] at hend

end SubsInner

end EmbeddedMqttc
