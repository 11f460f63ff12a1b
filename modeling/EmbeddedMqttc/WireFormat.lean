import EmbeddedMqttc.Packet

/-!
# A codec that meets the hypotheses

The wire format of MQTT 3.1.1: every packet can be encoded, and the packets without variable parts
can be decoded where their remaining length is a single byte. The codec `wire` satisfies what the
development assumes of `mqttrs2`, so these assumptions are consistent, and it computes.
-/

namespace EmbeddedMqttc

namespace Wire

def u16 (n : Nat) : List UInt8 := [UInt8.ofNat (n / 256), UInt8.ofNat n]

def string (s : List UInt8) : List UInt8 := u16 s.length ++ s

/-- The remaining length, seven bits in each byte; it has at most four bytes. -/
def remainingLength : Nat → Nat → List UInt8
  | 0, _ => []
  | k + 1, n =>
    if n < 128 then [UInt8.ofNat n]
    else UInt8.ofNat (n % 128 + 128) :: remainingLength k (n / 128)

def qosBits : QoS → Nat
  | .atMostOnce => 0
  | .atLeastOnce => 1
  | .exactlyOnce => 2

def header : Packet → UInt8
  | .connect _ => 0x10
  | .connack _ => 0x20
  | .publish p =>
    UInt8.ofNat (0x30 + 8 * p.dup.toNat + 2 * qosBits p.qospid.qos + p.retain.toNat)
  | .puback _ => 0x40
  | .pubrec _ => 0x50
  | .pubrel _ => 0x62
  | .pubcomp _ => 0x70
  | .subscribe _ => 0x82
  | .suback _ => 0x90
  | .unsubscribe _ => 0xA2
  | .unsuback _ => 0xB0
  | .pingreq => 0xC0
  | .pingresp => 0xD0
  | .disconnect => 0xE0

def connectFlags (c : Connect) : Nat :=
  2 * c.cleanSession.toNat +
    (match c.lastWill with
    | none => 0
    | some will => 4 + 8 * qosBits will.qos + 32 * will.retain.toNat) +
    64 * c.password.isSome.toNat + 128 * c.username.isSome.toNat

def connectBody (c : Connect) : List UInt8 :=
  (match c.protocol with
    | .mqisdp => string [77, 81, 73, 115, 100, 112] ++ [3]
    | .mqtt311 => string [77, 81, 84, 84] ++ [4]) ++
    [UInt8.ofNat (connectFlags c)] ++ u16 c.keepAlive ++ string c.clientId ++
    (match c.lastWill with
    | none => []
    | some will => string will.topic ++ string will.message) ++
    (c.username.map string).getD [] ++ (c.password.map string).getD []

def codeByte : ConnectReturnCode → UInt8
  | .accepted => 0
  | .refusedProtocolVersion => 1
  | .refusedIdentifierRejected => 2
  | .serverUnavailable => 3
  | .badUsernamePassword => 4
  | .notAuthorized => 5

def subackByte : SubscribeReturnCodes → UInt8
  | .success qos => UInt8.ofNat (qosBits qos)
  | .failure => 0x80

def body : Packet → List UInt8
  | .connect c => connectBody c
  | .connack c => [UInt8.ofNat c.sessionPresent.toNat, codeByte c.code]
  | .publish p => string p.topicName ++ (p.qospid.pid.map fun pid => u16 pid.val).getD [] ++ p.payload
  | .puback pid | .pubrec pid | .pubrel pid | .pubcomp pid | .unsuback pid => u16 pid.val
  | .subscribe s => u16 s.pid.val ++
      (s.topics.map fun t => string t.topicPath ++ [UInt8.ofNat (qosBits t.qos)]).flatten
  | .suback s => u16 s.pid.val ++ s.returnCodes.map subackByte
  | .unsubscribe u => u16 u.pid.val ++ (u.topics.map string).flatten
  | .pingreq | .pingresp | .disconnect => []

def encode (p : Packet) : List UInt8 := header p :: remainingLength 4 (body p).length ++ body p

def pidOf (hi lo : UInt8) : Option Pid := Pid.ofNat? (256 * hi.toNat + lo.toNat)

def parse (header : UInt8) (body : List UInt8) : Option Packet :=
  match header.toNat, body with
  | 0x20, [flags, 0] => some (.connack ⟨flags != 0, .accepted⟩)
  | 0x20, [flags, 5] => some (.connack ⟨flags != 0, .notAuthorized⟩)
  | 0x40, [hi, lo] => (pidOf hi lo).map .puback
  | 0x50, [hi, lo] => (pidOf hi lo).map .pubrec
  | 0x62, [hi, lo] => (pidOf hi lo).map .pubrel
  | 0x70, [hi, lo] => (pidOf hi lo).map .pubcomp
  | 0xB0, [hi, lo] => (pidOf hi lo).map .unsuback
  | 0xC0, [] => some .pingreq
  | 0xD0, [] => some .pingresp
  | 0xE0, [] => some .disconnect
  | _, _ => none

/-- A packet whose remaining length is a single byte, and which `parse` knows. -/
def decodeWith (parse : UInt8 → List UInt8 → Option Packet) :
    List UInt8 → Except CodecError (Option (Nat × Packet))
  | header :: length :: rest =>
    if 128 ≤ length.toNat then .error (.other 0)
    else if rest.length < length.toNat then .ok none
    else
      match parse header (rest.take length.toNat) with
      | some p => .ok (some (length.toNat + 2, p))
      | none => .error (.other 1)
  | _ => .ok none

/-- The packets that are recovered from their encoding. -/
def FixedWith (parse : UInt8 → List UInt8 → Option Packet) (p : Packet) : Prop :=
  (body p).length < 128 ∧ parse (header p) (body p) = some p

instance (parse : UInt8 → List UInt8 → Option Packet) : DecidablePred (FixedWith parse) :=
  fun _ => inferInstanceAs (Decidable (_ ∧ _))

abbrev decode : List UInt8 → Except CodecError (Option (Nat × Packet)) := decodeWith parse

abbrev Fixed : Packet → Prop := FixedWith parse

def returnCode (byte : UInt8) : Option SubscribeReturnCodes :=
  match byte.toNat with
  | 0 => some (.success .atMostOnce)
  | 1 => some (.success .atLeastOnce)
  | 2 => some (.success .exactlyOnce)
  | 0x80 => some .failure
  | _ => none

/-- Also SUBACK, and PUBLISH with QoS 0 and a topic of less than 256 bytes. -/
def parseAnswer (header : UInt8) (body : List UInt8) : Option Packet :=
  match header.toNat, body with
  | 0x90, hi :: lo :: codes => do
    let pid ← pidOf hi lo
    let returnCodes ← codes.mapM returnCode
    return .suback { pid, returnCodes }
  | 0x30, 0 :: length :: rest =>
    some (.publish ⟨false, .atMostOnce, false, rest.take length.toNat, rest.drop length.toNat⟩)
  | _, _ => parse header body

end Wire

/-- The codec with a choice of packets that its decoder knows. -/
def wireWith (parse : UInt8 → List UInt8 → Option Packet) : Codec where
  topicPathCapacity := 256
  encode := Wire.encode
  encodeSlice p buf :=
    let bytes := Wire.encode p
    if bytes.length ≤ buf.length then (.ok bytes.length, bytes ++ buf.drop bytes.length)
    else (.error .writeZero, bytes.take buf.length)
  decodeSliceWithLen := Wire.decodeWith parse

def wire : Codec := wireWith Wire.parse

namespace Wire

variable {p : Packet} (answer : UInt8 → List UInt8 → Option Packet)

theorem encode_of_short (h : (body p).length < 128) :
    encode p = header p :: UInt8.ofNat (body p).length :: body p := by
  simp [encode, remainingLength, h]

theorem toNat_length (h : (body p).length < 128) :
    (UInt8.ofNat (body p).length).toNat = (body p).length := by
  rw [UInt8.toNat_ofNat']; omega

/-- A write that fails fills the whole slice with the start of the encoding. -/
theorem writesEncodingWith : (wireWith answer).WritesEncoding where
  length_eq p buf := by
    simp only [wireWith]
    split <;> simp <;> omega
  of_ok p buf n h := by
    simp only [wireWith] at h ⊢
    split at h
    · rename_i hle
      cases h
      exact ⟨hle, by simp [hle]⟩
    · cases h

theorem encodesIfFitsWith : (wireWith answer).EncodesIfFits where
  fits p buf h := by
    simp only [wireWith] at h ⊢
    rw [if_pos h]
  short p buf h := by
    simp only [wireWith] at h ⊢
    rw [if_neg (by omega)]

theorem decodesWith : (wireWith answer).Decodes (FixedWith answer) where
  empty := rfl
  partly p x hp hx hne := by
    obtain ⟨hlen, -⟩ := hp
    obtain ⟨rest, hrest⟩ := hx
    change x ++ rest = encode p at hrest
    change x ≠ encode p at hne
    rw [encode_of_short hlen] at hrest hne
    match x with
    | [] => rfl
    | [_] => rfl
    | h :: l :: x =>
      simp only [List.cons_append, List.cons.injEq] at hrest
      obtain ⟨rfl, rfl, hbody⟩ := hrest
      have hlt : x.length < (body p).length := by
        rcases Nat.lt_or_ge x.length (body p).length with h | h
        · exact h
        · have := congrArg List.length hbody
          rw [List.length_append] at this
          cases List.eq_nil_of_length_eq_zero (l := rest) (by omega)
          rw [List.append_nil] at hbody
          exact absurd (by rw [hbody]) hne
      change decodeWith answer (header p :: UInt8.ofNat (body p).length :: x) = .ok none
      rw [decodeWith, toNat_length hlen, if_neg (by omega), if_pos hlt]
  whole p rest hp := by
    obtain ⟨hlen, hparse⟩ := hp
    change decodeWith answer (encode p ++ rest) = .ok (some ((encode p).length, p))
    rw [encode_of_short hlen, List.cons_append, List.cons_append, decodeWith, toNat_length hlen,
      if_neg (by omega), if_neg (by simp), List.take_left, hparse]
    rfl

theorem writesEncoding : wire.WritesEncoding := writesEncodingWith parse

theorem encodesIfFits : wire.EncodesIfFits := encodesIfFitsWith parse

theorem decodes : wire.Decodes Fixed := decodesWith parse

theorem lengthsInRange : wire.LengthsInRange := by
  intro x n p
  change decode x = _ → _
  match x with
  | [] | [_] => exact nofun
  | header :: length :: x =>
    intro h
    simp only [decodeWith] at h
    split at h
    · cases h
    · split at h
      · cases h
      · split at h
        · cases h
          simp only [List.length_cons]
          omega
        · cases h

theorem decisive : wire.Decisive := by
  intro x y
  change decode x ≠ _ → decode (x ++ y) ≠ _
  match x with
  | [] | [_] => exact fun h => absurd rfl h
  | header :: length :: x =>
    intro h
    simp only [decodeWith, List.cons_append, ne_eq] at h ⊢
    split at h
    · rw [if_pos (by assumption)]; exact nofun
    · rename_i hl
      rw [if_neg hl]
      split at h
      · exact absurd rfl h
      · rename_i hx
        rw [if_neg (by rw [List.length_append]; omega)]
        split <;> exact nofun

end Wire

end EmbeddedMqttc
