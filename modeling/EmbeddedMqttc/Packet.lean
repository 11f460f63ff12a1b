import EmbeddedMqttc.Library.BoundedVec
import EmbeddedMqttc.Library.Framing

/-!
# Packets, errors and the codec

The data of `mqttrs2` that the client touches, the crate's own error and event types
(`src/lib.rs`), and the codec as a parameter: `mqttrs2` is not part of the repository, so what the
client relies on is stated as hypotheses about a `Codec`. Strings are their UTF-8 bytes.
-/

namespace EmbeddedMqttc

/-- A packet identifier, a non-zero `u16`. -/
structure Pid where
  val : Nat
  pos : 0 < val
  lt : val < 65536
  deriving DecidableEq, Repr

theorem Pid.one_lt : 1 < 65536 := by decide

/-- `Pid::try_from(u16)`. -/
def Pid.ofNat? (n : Nat) : Option Pid :=
  if h : 0 < n ∧ n < 65536 then some ⟨n, h.1, h.2⟩ else none

theorem Pid.val_inj {p q : Pid} : p.val = q.val ↔ p = q := by
  refine ⟨fun h => ?_, fun h => congrArg _ h⟩
  cases p
  cases q
  cases h
  rfl

theorem Pid.eq_val_of_ofNat? {n : Nat} {p : Pid} (h : ofNat? n = some p) : n = p.val := by
  unfold ofNat? at h
  split at h <;> cases h
  rfl

/-- `UniqueID` of `src/lib.rs`: `id` is its number. Numbers are given out again, so `request` tells,
as history, which request of the client the identifier was taken for; no function reads it. -/
structure UniqueID where
  id : Nat
  request : Nat
  deriving DecidableEq, Repr

/-- Instants and durations count nanoseconds. -/
abbrev Instant := Nat

abbrev Duration := Nat

/-- `Duration::from_secs`. -/
def Duration.fromSecs (secs : Nat) : Duration := secs * 1000000000

inductive QoS where
  | atMostOnce
  | atLeastOnce
  | exactlyOnce
  deriving DecidableEq, Repr

inductive QosPid where
  | atMostOnce
  | atLeastOnce (pid : Pid)
  | exactlyOnce (pid : Pid)
  deriving DecidableEq, Repr

namespace QosPid

def qos : QosPid → QoS
  | atMostOnce => .atMostOnce
  | atLeastOnce _ => .atLeastOnce
  | exactlyOnce _ => .exactlyOnce

def pid : QosPid → Option Pid
  | atMostOnce => none
  | atLeastOnce pid => some pid
  | exactlyOnce pid => some pid

/-- Only QoS 0 needs no pid. -/
theorem qos_eq_atMostOnce {q : QosPid} (h : q.pid = none) : q.qos = .atMostOnce := by
  cases q with
  | atMostOnce => rfl
  | atLeastOnce pid | exactlyOnce pid => cases h

end QosPid

inductive Protocol where
  | mqisdp
  | mqtt311
  deriving DecidableEq, Repr

structure LastWill where
  topic : List UInt8
  message : List UInt8
  qos : QoS
  retain : Bool
  deriving DecidableEq, Repr

structure Connect where
  protocol : Protocol
  keepAlive : Nat
  clientId : List UInt8
  cleanSession : Bool
  lastWill : Option LastWill
  username : Option (List UInt8)
  password : Option (List UInt8)
  deriving DecidableEq, Repr

inductive ConnectReturnCode where
  | accepted
  | refusedProtocolVersion
  | refusedIdentifierRejected
  | serverUnavailable
  | badUsernamePassword
  | notAuthorized
  deriving DecidableEq, Repr

structure Connack where
  sessionPresent : Bool
  code : ConnectReturnCode
  deriving DecidableEq, Repr

structure Publish where
  dup : Bool
  qospid : QosPid
  retain : Bool
  topicName : List UInt8
  payload : List UInt8
  deriving DecidableEq, Repr

structure SubscribeTopic where
  topicPath : List UInt8
  qos : QoS
  deriving DecidableEq, Repr

structure Subscribe where
  pid : Pid
  topics : List SubscribeTopic
  deriving DecidableEq, Repr

inductive SubscribeReturnCodes where
  | success (qos : QoS)
  | failure
  deriving DecidableEq, Repr

structure Suback where
  pid : Pid
  returnCodes : List SubscribeReturnCodes
  deriving DecidableEq, Repr

structure Unsubscribe where
  pid : Pid
  topics : List (List UInt8)
  deriving DecidableEq, Repr

inductive Packet where
  | connect (connect : Connect)
  | connack (connack : Connack)
  | publish (publish : Publish)
  | puback (pid : Pid)
  | pubrec (pid : Pid)
  | pubrel (pid : Pid)
  | pubcomp (pid : Pid)
  | subscribe (subscribe : Subscribe)
  | suback (suback : Suback)
  | unsubscribe (unsubscribe : Unsubscribe)
  | unsuback (pid : Pid)
  | pingreq
  | pingresp
  | disconnect
  deriving DecidableEq, Repr

/-- `mqttrs2::Error`; the client tells only `WriteZero` apart. -/
inductive CodecError where
  | writeZero
  | other (code : Nat)
  deriving DecidableEq, Repr

/-- `embedded_io_async::ErrorKind`; the client only passes it on. -/
structure ErrorKind where
  code : Nat
  deriving DecidableEq, Repr

inductive MqttError where
  | connectionFailed2 (kind : ErrorKind)
  | dnsFailed
  | bufferTooSmall
  | connackError
  | authenticationError
  | codecError (error : CodecError)
  | receivedMessageTooLong
  | subscribeOrUnsubscribeFailed
  | internalError
  | queueFull (qospid : QosPid)
  | unexpectedAck (pid : Pid)
  | pubsubError
  | topicSizeError
  deriving DecidableEq, Repr

inductive MqttEvent where
  | publishDone (id : UniqueID)
  | subscribeDone (id : UniqueID) (result : Except MqttError QoS)
  | unsubscribeDone (id : UniqueID)
  deriving DecidableEq, Repr

def MqttEvent.uniqueId : MqttEvent → UniqueID
  | publishDone id | subscribeDone id _ | unsubscribeDone id => id

/-! ## The codec -/

/-- `encode_slice` and `decode_slice_with_len` of `mqttrs2`. `encodeSlice p buf` gives the result of
the call and the content of the slice after it, which a failing call may have overwritten in part;
`encode` is the encoding that the hypotheses below speak of, and `topicPathCapacity` the capacity of
the topic strings of `SubscribeTopic` and `Unsubscribe`. Both calls return a `Result` for every
packet and all bytes: a codec that panics is outside this model. -/
structure Codec where
  topicPathCapacity : Nat
  encode : Packet → List UInt8
  encodeSlice : Packet → List UInt8 → Except CodecError Nat × List UInt8
  decodeSliceWithLen : List UInt8 → Except CodecError (Option (Nat × Packet))

namespace Codec

variable (C : Codec)

/-- `encode_slice` writes only into the slice it is given, and on `Ok(n)` it has put the encoding in
the first `n` bytes of it. -/
structure WritesEncoding : Prop where
  length_eq : ∀ p buf, (C.encodeSlice p buf).2.length = buf.length
  of_ok : ∀ p buf n, (C.encodeSlice p buf).1 = .ok n →
    n ≤ buf.length ∧ (C.encodeSlice p buf).2.take n = C.encode p

/-- `encode_slice` succeeds if and only if the slice is at least as long as the encoding, else it
answers `WriteZero`. -/
structure EncodesIfFits : Prop where
  fits : ∀ p buf, (C.encode p).length ≤ buf.length →
    (C.encodeSlice p buf).1 = .ok (C.encode p).length
  short : ∀ p buf, buf.length < (C.encode p).length → (C.encodeSlice p buf).1 = .error .writeZero

/-- `decode_slice_with_len` recovers the packets in `S`: `None` on a proper prefix of one, and the
length and the packet on a slice that starts with one. -/
def Decodes (S : Packet → Prop) : Prop :=
  Framing.SelfDelimiting C.encode C.decodeSliceWithLen S

/-- `decode_slice_with_len` that has found a packet or an error in a slice does not ask for more
bytes when the slice is longer. -/
def Decisive : Prop := Framing.Decisive C.decodeSliceWithLen

/-- The length that `decode_slice_with_len` gives with a packet is that of a non-empty initial
segment of the slice. -/
def LengthsInRange : Prop :=
  ∀ x n p, C.decodeSliceWithLen x = .ok (some (n, p)) → 0 < n ∧ n ≤ x.length

end Codec

end EmbeddedMqttc
