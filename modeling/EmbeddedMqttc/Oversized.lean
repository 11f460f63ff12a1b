import EmbeddedMqttc.OutgoingStream
import EmbeddedMqttc.PublishSpec
import EmbeddedMqttc.Sub
import EmbeddedMqttc.WireFormat

/-!
# Packets that do not fit in the send buffer

A publish is accepted with a payload of up to `BUFFER` bytes, and a request with topics of any
length up to `TOPIC`, whatever the length of the whole packet. The trait's `try_write_packet` answers
`Ok(false)` for a packet that is longer than the send buffer, where the inherent one fails with
`BufferTooSmall`. Such a packet at the head of its queue keeps it blocked: every send pass stops at
it and leaves everything as it was.
-/

namespace EmbeddedMqttc

open Prog EmbeddedMqttc.Comp

variable {C : Codec} {N : Nat} {σ : Type} {w : World N} {p : Packet}

/-! ## The connection -/

/-- Nothing is left to send. -/
def Idle (w : World N) : Prop := w.sendBuffer.hasRemainingLen = false

/-- The trait's `try_write_packet` answers `a` for the packet. -/
def Replies (C : Codec) (p : Packet) (w : World N) (a : Except MqttError Bool) : Prop :=
  ((ConnectionState.tryWritePacket C p).exec w).1 = a.mapError Stop.fail

theorem new_idle (script : List Poll) : Idle (World.new script : World N) := by
  simp [Idle, World.new, TcpConnectionState.new, StackBuffer.new, StackBuffer.hasRemainingLen]

/-- A new connection takes every packet that fits in the send buffer. -/
theorem replies_new (hC : C.WritesEncoding) (hfits : C.EncodesIfFits)
    (hle : (C.encode p).length ≤ N) : Replies C p (World.new [] : World N) (.ok true) := by
  refine (tryWritePacket_ok_iff hC hfits p _).mpr ?_
  rw [length_freeData_of_drained (new_idle [])]
  split
  · exact hle
  · exact hle

/-- A packet that is longer than the send buffer is not an error for the trait method. -/
theorem replies_of_oversized (hC : C.WritesEncoding) (hfits : C.EncodesIfFits)
    (hlt : N < (C.encode p).length) (w : World N) : Replies C p w (.ok false) := by
  have hshort := hfits.short p w.sendBuffer.writeableData.freeData <| by
    rw [StackBuffer.length_freeData]
    omega
  rcases ConnectionState.tryWritePacket_cases hC p w with
    ⟨n, b, hn, -⟩ | ⟨err, b, r, herr, -, -, -, hr, h⟩
  · rw [hshort] at hn
    cases hn
  · rw [hshort] at herr
    cases herr
    obtain ⟨-, rfl⟩ | ⟨hne, -⟩ := hr
    · exact congrArg Prod.fst h
    · exact absurd rfl hne

/-! ## The send passes -/

/-- A call in which the connection first answers `a`. -/
def Ctx.answering (c : Ctx σ) (a : Except MqttError Bool) : Ctx σ :=
  { c with env := { c.env with answers := a :: c.env.answers } }

theorem tryWritePacket_answering (c : Ctx σ) (written : Written) :
    (tryWritePacket written).exec (c.answering (.ok false)) = (.ok false, c) := rfl

/-- The send pass `send` comes first to an accepted request, and the queue for what is written has
room for it. `packet` is the packet of the request, or the error of its construction. -/
inductive Offers (C : Codec) (BUFFER : Nat) :
    {σ : Type} → Except MqttError Packet → Comp σ SendResult → Ctx σ → Prop
  | publish {TOPIC QUEUE : Nat} {c₀ c₁ c : Ctx (PublishesInner QUEUE BUFFER TOPIC)}
      {publish : Publish} {uniqueId : UniqueID} {entry : OwnedPublish BUFFER TOPIC}
      (haccepted : (Publishes.publish publish uniqueId).exec c₀ = (.ok (), c₁))
      (hentry : c₁.inner.sendPublish.toList.getLast? = some entry)
      (hfirst : c.inner.sendPublish.toList.head? = some entry)
      (hpubrel : c.inner.sendPubrel.toList = [])
      (hspace : c.inner.hasSpace publish.qospid.qos = true) :
      Offers C BUFFER (.ok (.publish publish)) Publishes.sendPackets c
  | request {TOPIC QUEUE : Nat} {c₀ c₁ c : Ctx (SubsInner TOPIC QUEUE)}
      {requestType : RequestType} {topics : List (List UInt8)} {uniqueId : UniqueID}
      {request : SubRequest TOPIC}
      (haccepted : (SubsInner.addRequest requestType topics uniqueId).exec c₀ = (.ok ⟨⟩, c₁))
      (hrequest : c₁.inner.sendRequest.toList.getLast? = some request)
      (hfirst : c.inner.sendRequest.toList.head? = some request)
      (hroom : c.inner.awaitAck.isFull = false) :
      Offers C BUFFER (request.createPacket C.topicPathCapacity)
        (SubsInner.send C.topicPathCapacity) c

/-- The entry that `publish` has put at the end of the queue is the publish it was called with. -/
theorem Publishes.borrow_of_accepted {TOPIC QUEUE BUFFER : Nat}
    {c₀ c₁ : Ctx (PublishesInner QUEUE BUFFER TOPIC)} {publish : Publish} {uniqueId : UniqueID}
    {entry : OwnedPublish BUFFER TOPIC}
    (haccepted : (Publishes.publish publish uniqueId).exec c₀ = (.ok (), c₁))
    (hentry : c₁.inner.sendPublish.toList.getLast? = some entry) :
    entry.borrow = .publish publish ∧ entry.qospid = publish.qospid := by
  rcases Publishes.publish_cases c₀ publish uniqueId with
    h | ⟨e, -, h⟩ | ⟨new, queue, hnew, hpush, h⟩
  · rw [h] at haccepted
    cases haccepted
  · rw [h] at haccepted
    cases haccepted
  · rw [h] at haccepted
    cases haccepted
    rw [(BoundedVec.push_eq_some_iff.mp hpush).2, List.getLast?_concat] at hentry
    cases hentry
    exact (OwnedPublish.newFromPublish_ok hnew).2

/-- A pass over the publishes stops at the first one when it is refused. -/
theorem PublishesInner.sendPackets_refused {TOPIC QUEUE BUFFER : Nat}
    {c : Ctx (PublishesInner QUEUE BUFFER TOPIC)} {entry : OwnedPublish BUFFER TOPIC}
    (hfirst : c.inner.sendPublish.toList.head? = some entry)
    (hpubrel : c.inner.sendPubrel.toList = [])
    (hspace : c.inner.hasSpace entry.qospid.qos = true) :
    Publishes.sendPackets.exec (c.answering (.ok false)) = (.ok .partiallySent, c) := by
  have hlen : c.inner.sendPublish.len = c.inner.sendPublish.len - 1 + 1 := by
    have hne : c.inner.sendPublish.toList ≠ [] := by
      intro h
      simp [h] at hfirst
    have := List.length_pos_iff.mpr hne
    simp only [BoundedVec.len]
    omega
  have hget : c.inner.sendPublish.get? 0 = some entry := by
    rw [BoundedVec.get?, ← List.head?_eq_getElem?, hfirst]
  have hpubrelPass : sendPendingPubrel.exec (c.answering (.ok false)) =
      (.ok .sentAll, c.answering (.ok false)) := by
    have hzero : (c.answering (.ok false)).inner.sendPubrel.len = 0 := by
      simp [Ctx.answering, BoundedVec.len, hpubrel]
    rw [sendPendingPubrel, exec_get_bind, hzero]
    rfl
  have hturn : (sendPendingPublishesTurn 0).exec (c.answering (.ok false)) =
      (.ok (.inl .partiallySent), c) := by
    have hget' : (c.answering (.ok false)).inner.sendPublish.get? 0 = some entry := hget
    have hspace' : (c.answering (.ok false)).inner.hasSpace entry.qospid.qos = true := hspace
    rw [sendPendingPublishesTurn, exec_get_bind, hget', exec_unwrap_some_bind, if_pos hspace',
      exec_bind_ok (tryWritePacket_answering c _)]
    rfl
  have hpublishesPass : sendPendingPublishes.exec (c.answering (.ok false)) =
      (.ok .partiallySent, c) := by
    have hlen' : (c.answering (.ok false)).inner.sendPublish.len =
      c.inner.sendPublish.len - 1 + 1 := hlen
    rw [sendPendingPublishes, exec_get_bind, hlen', whileIndex, exec_get_bind,
      if_pos (by omega), exec_bind_ok hturn, exec_pure]
  rw [Publishes.sendPackets, PublishesInner.sendPackets, exec_bind_ok hpubrelPass]
  have hnext : (SendResult.sentAll.next sendPendingPublishes).exec (c.answering (.ok false)) =
      (.ok .partiallySent, c) := by
    rw [SendResult.next, if_pos (by decide), exec_bind_ok hpublishesPass]
    rfl
  rw [exec_bind_ok hnext]
  rfl

section

variable {TOPIC QUEUE topicPathCapacity : Nat} {c : Ctx (SubsInner TOPIC QUEUE)}
  {request : SubRequest TOPIC}

namespace SubsInner

/-- What a pass over the requests does with the first one. -/
theorem send_of_turn (a : Except MqttError Bool)
    (hfirst : c.inner.sendRequest.toList.head? = some request)
    {r : Except (Stop MqttError) SendResult} (hr : r ≠ .ok .sentAll)
    {s : Ctx (SubsInner TOPIC QUEUE)}
    (hturn : (sendRequestsTurn topicPathCapacity).exec (c.answering a) = (r.map .inl, s)) :
    (send topicPathCapacity).exec (c.answering a) = (r, s) := by
  have hlen : (c.answering a).inner.sendRequest.len = c.inner.sendRequest.len - 1 + 1 := by
    have hne : c.inner.sendRequest.toList ≠ [] := by
      intro h
      simp [h] at hfirst
    have := List.length_pos_iff.mpr hne
    simp only [Ctx.answering, BoundedVec.len]
    omega
  have hrequests : (sendRequests topicPathCapacity).exec (c.answering a) = (r, s) := by
    rw [sendRequests, exec_get_bind, hlen, whileIndex, exec_get_bind, if_pos (by omega)]
    cases r with
    | error x => exact exec_bind_error hturn
    | ok r => exact exec_bind_ok hturn
  unfold send
  cases r with
  | error x => exact exec_bind_error hrequests
  | ok r =>
    cases r with
    | sentAll => exact absurd rfl hr
    | partiallySent => exact exec_bind_ok hrequests

theorem popFront_of_head? (hfirst : c.inner.sendRequest.toList.head? = some request) :
    ∃ rest, c.inner.sendRequest.popFront = some (request, rest) := by
  obtain ⟨rest, hrest⟩ := List.head?_eq_some_iff.mp hfirst
  refine ⟨⟨rest, ?_⟩, BoundedVec.popFront_eq_some_iff.mpr hrest⟩
  have hlen := c.inner.sendRequest.length_le
  rw [hrest, List.length_cons] at hlen
  omega

theorem send_refused {packet : Packet}
    (hfirst : c.inner.sendRequest.toList.head? = some request)
    (hroom : c.inner.awaitAck.isFull = false)
    (hpacket : request.createPacket topicPathCapacity = .ok packet) :
    (send topicPathCapacity).exec (c.answering (.ok false)) = (.ok .partiallySent, c) := by
  obtain ⟨rest, hpop⟩ := popFront_of_head? hfirst
  have hpop' : (c.answering (.ok false)).inner.sendRequest.popFront = some (request, rest) := hpop
  have hroom' : ¬(c.answering (.ok false)).inner.awaitAck.isFull = true := by
    rw [show (c.answering (.ok false)).inner.awaitAck.isFull = false from hroom]
    exact nofun
  refine send_of_turn (.ok false) hfirst (r := .ok .partiallySent) nofun ?_
  rw [sendRequestsTurn, exec_get_bind, hpop', exec_unwrap_some_bind]
  dsimp only
  rw [if_neg hroom', hpacket]
  exact exec_bind_ok (tryWritePacket_answering c _)

/-- A request whose packet cannot be built fails the pass. -/
theorem send_unbuildable {e : MqttError} (a : Except MqttError Bool)
    (hfirst : c.inner.sendRequest.toList.head? = some request)
    (hroom : c.inner.awaitAck.isFull = false)
    (hpacket : request.createPacket topicPathCapacity = .error e) :
    (send topicPathCapacity).exec (c.answering a) = (.error (.fail e), c.answering a) := by
  obtain ⟨rest, hpop⟩ := popFront_of_head? hfirst
  have hpop' : (c.answering a).inner.sendRequest.popFront = some (request, rest) := hpop
  have hroom' : ¬(c.answering a).inner.awaitAck.isFull = true := by
    rw [show (c.answering a).inner.awaitAck.isFull = false from hroom]
    exact nofun
  refine send_of_turn a hfirst (r := .error (.fail e)) nofun ?_
  rw [sendRequestsTurn, exec_get_bind, hpop', exec_unwrap_some_bind]
  dsimp only
  rw [if_neg hroom', hpacket]
  rfl

end SubsInner

end

/-! ## Accepted requests -/

variable {send : Comp σ SendResult} {c : Ctx σ} {packet : Except MqttError Packet}

/-- A pass that meets a refusal stops at the request and leaves everything as it was. -/
theorem Offers.refused (h : Offers C N packet send c) (hpacket : packet = .ok p) :
    send.exec (c.answering (.ok false)) = (.ok .partiallySent, c) := by
  cases h with
  | publish haccepted hentry hfirst hpubrel hspace =>
    rw [← (Publishes.borrow_of_accepted haccepted hentry).2] at hspace
    exact PublishesInner.sendPackets_refused hfirst hpubrel hspace
  | request haccepted hrequest hfirst hroom => exact SubsInner.send_refused hfirst hroom hpacket

theorem Offers.unbuildable {e : MqttError} (h : Offers C N packet send c)
    (hpacket : packet = .error e) (a : Except MqttError Bool) :
    (send.exec (c.answering a)).1 = .error (.fail e) := by
  cases h with
  | publish => cases hpacket
  | request haccepted hrequest hfirst hroom =>
    rw [SubsInner.send_unbuildable a hfirst hroom hpacket]

/-- What the client relies on for a request that has been accepted. With nothing pending, its packet
fits or is refused with an error; a send pass does not return `PartiallySent` on account of a packet
that is longer than the send buffer; and there is a connection that takes the packet. -/
structure NeverBlocks (C : Codec) (N : Nat) (packet : Except MqttError Packet)
    (send : Comp σ SendResult) (c : Ctx σ) : Prop where
  classified : ∀ p, packet = .ok p → ∀ w : World N, Idle w →
    (C.encode p).length ≤ N ∨ Replies C p w (.error .bufferTooSmall)
  passes : ∀ (w : World N) (a : Except MqttError Bool), Idle w →
    (∀ p, packet = .ok p → Replies C p w a) →
    (send.exec (c.answering a)).1 = .ok .partiallySent →
    ∃ p, packet = .ok p ∧ (C.encode p).length ≤ N
  leaves : ∀ p, packet = .ok p → ∃ w : World N, Idle w ∧ Replies C p w (.ok true)

/-- An accepted request never blocks its queue if and only if its packet, as far as it can be built,
fits in the send buffer. Where it does not fit, no connection with nothing pending takes it, and
every pass that comes to it returns `PartiallySent` and changes nothing. -/
theorem neverBlocks_iff (hC : C.WritesEncoding) (hfits : C.EncodesIfFits)
    (h : Offers C N packet send c) :
    (NeverBlocks C N packet send c ↔ ∀ p, packet = .ok p → (C.encode p).length ≤ N) ∧
      ∀ p, packet = .ok p → N < (C.encode p).length → ∀ w : World N, Idle w →
        Replies C p w (.ok false) ∧
          send.exec (c.answering (.ok false)) = (.ok .partiallySent, c) := by
  refine ⟨⟨fun hnever p hpacket => Nat.le_of_not_lt fun hlt => ?_, fun hle => ?_⟩,
    fun p hpacket hlt w _ => ⟨replies_of_oversized hC hfits hlt w, h.refused hpacket⟩⟩
  · obtain ⟨w, -, htaken⟩ := hnever.leaves p hpacket
    have hrefused := replies_of_oversized hC hfits hlt w
    rw [Replies, htaken] at hrefused
    cases hrefused
  · refine
      { classified := fun p hpacket w _ => .inl (hle p hpacket)
        passes := fun w a _ _ hpartly => ?_
        leaves := fun p hpacket => ⟨.new [], new_idle [], replies_new hC hfits (hle p hpacket)⟩ }
    cases hpacket : packet with
    | ok p => exact ⟨p, rfl, hle p hpacket⟩
    | error e =>
      rw [h.unbuildable hpacket a] at hpartly
      cases hpartly

/-! ### A payload of the size of the buffer -/

/-- A publish with a payload of `length` bytes. -/
def publishOf (length : Nat) : Publish :=
  ⟨false, .atMostOnce, false, [116], List.replicate length 7⟩

/-- The publishes of a client with a buffer of 16 bytes after `publish` has accepted it. -/
def queuedPublish (length : Nat) : Ctx (PublishesInner 2 16 8) :=
  ((Publishes.publish (publishOf length) ⟨0, 0⟩).exec { inner := .new, env := .new }).2

theorem queuedPublish_offers {length : Nat} (hle : length ≤ 16) :
    Offers wire 16 (.ok (.publish (publishOf length))) Publishes.sendPackets
      (queuedPublish length) := by
  let fresh : Ctx (PublishesInner 2 16 8) := { inner := .new, env := .new }
  let entry : OwnedPublish 16 8 :=
    { dup := false
      qospid := .atMostOnce
      retain := false
      topicName := ⟨[116], by decide⟩
      payload := ⟨List.replicate length 7, by rwa [List.length_replicate]⟩
      uniqueId := ⟨0, 0⟩ }
  have hpayload : (BoundedVec.ofList? (publishOf length).payload : Option (BoundedVec UInt8 16)) =
      some entry.payload := BoundedVec.ofList?_eq_some_iff.mpr rfl
  have hentry : OwnedPublish.newFromPublish (publishOf length) ⟨0, 0⟩ = .ok entry := by
    rw [OwnedPublish.newFromPublish, hpayload]
    rfl
  have haccepted : (Publishes.publish (publishOf length) ⟨0, 0⟩).exec fresh =
      (.ok (), { fresh with
        inner := { fresh.inner with sendPublish := ⟨[entry], Nat.le_succ 1⟩ } }) := by
    rw [Publishes.publish, exec_get_bind, hentry]
    rfl
  have hqueued : queuedPublish length = { fresh with
      inner := { fresh.inner with sendPublish := ⟨[entry], Nat.le_succ 1⟩ } } :=
    congrArg Prod.snd haccepted
  rw [hqueued]
  exact .publish haccepted rfl rfl rfl rfl

/-- A publish of 16 bytes is accepted by a client with a buffer of 16 bytes. The inherent method
refuses it with an error, the trait method does not, and the pass returns `PartiallySent`. -/
theorem accepted_publish_blocks :
    Offers wire 16 (.ok (.publish (publishOf 16))) Publishes.sendPackets (queuedPublish 16) ∧
      ((TcpConnectionState.tryWritePacket wire (.publish (publishOf 16))).exec
        (World.new [] : World 16)).1 = .error (.fail .bufferTooSmall) ∧
      ((ConnectionState.tryWritePacket wire (.publish (publishOf 16))).exec
        (World.new [] : World 16)).1 = .ok false ∧
      Publishes.sendPackets.exec ((queuedPublish 16).answering (.ok false)) =
        (.ok .partiallySent, queuedPublish 16) ∧
      ¬NeverBlocks wire 16 (.ok (.publish (publishOf 16))) Publishes.sendPackets
        (queuedPublish 16) := by
  have hrefused : ((ConnectionState.tryWritePacket wire (.publish (publishOf 16))).exec
      (World.new [] : World 16)).1 = .ok false := by decide +kernel
  refine ⟨queuedPublish_offers (Nat.le_refl 16), by decide +kernel, hrefused, by decide +kernel,
    fun h => ?_⟩
  rcases h.classified _ rfl (.new []) (new_idle []) with hle | herror
  · exact absurd hle (by decide +kernel)
  · rw [Replies, hrefused] at herror
    cases herror

theorem neverBlocks_iff_of_short_publish :
    NeverBlocks wire 16 (.ok (.publish (publishOf 3))) Publishes.sendPackets (queuedPublish 3) := by
  refine (neverBlocks_iff Wire.writesEncoding Wire.encodesIfFits
    (queuedPublish_offers (by decide))).1.mpr fun p hp => ?_
  cases hp
  decide +kernel

end EmbeddedMqttc
