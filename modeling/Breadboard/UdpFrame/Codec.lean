import Breadboard.Core.Basics
import Breadboard.Core.ByteOrder

/-!
# bb_udp_frame - one frame in one datagram

A datagram is an eleven-byte header, the topic, whose length the header gives, and the payload,
which runs to the end.  The decoded frame keeps the payload's length in sixteen bits, however
long the datagram is.

Main results:

- Theorem `decode_wire`: what is encoded is decoded to the frame it was encoded from.
- Theorem `wire_of_decode`: what is decoded is the encoding of the frame it decodes to.
- Theorem `codec_iff_payload_fits`: exactly when the payload's length fits its field.
-/

namespace Breadboard
namespace UdpFrame

/-- `BB_UDP_FRAME_MAGIC`. -/
def magic : UInt16 := 0xBBD5

/-- `BB_UDP_FRAME_VERSION`. -/
def version : UInt8 := 0x01

/-- `BB_UDP_FRAME_HEADER_LEN`. -/
def headerLen : Nat := 11

/-- `bb_udp_kind_t`. -/
inductive Kind where
  | telemetry
  | log
  deriving Repr, DecidableEq

namespace Kind

/-- The byte of a kind. -/
def toByte : Kind → UInt8
  | telemetry => 1
  | log => 2

/-- The kind of a byte, if it is a member of the enumeration. -/
def ofByte (b : UInt8) : Option Kind :=
  if b = 1 then some telemetry else if b = 2 then some log else none

theorem ofByte_toByte (k : Kind) : ofByte k.toByte = some k := by
  cases k <;> rfl

theorem toByte_of_ofByte {b : UInt8} {k : Kind} (h : ofByte b = some k) : k.toByte = b := by
  unfold ofByte at h
  split at h
  next hb =>
    cases h
    exact hb.symm
  split at h
  next hb =>
    cases h
    exact hb.symm
  next => cases h

end Kind

/-- `bb_udp_frame_t` with the bytes its pointers give; the lengths are 16-bit fields. -/
structure Frame where
  kind : Kind
  flags : UInt8
  seq : UInt32
  topic : Bytes
  payload : Bytes
  topic_lt : topic.length < 2 ^ 16
  payload_lt : payload.length < 2 ^ 16

/-- `bb_udp_frame_t` as decoding leaves it: the pointers are offsets into the datagram. -/
structure View where
  kind : Kind
  flags : UInt8
  seq : UInt32
  topic : Nat
  topicLen : UInt16
  payload : Nat
  payloadLen : UInt16
  deriving Repr, DecidableEq

/-- The eleven bytes of a header. -/
def header (kind : Kind) (flags : UInt8) (seq : UInt32) (topicLen : UInt16) : Bytes :=
  storeLe16 magic ++ [version, kind.toByte, flags] ++ storeLe32 seq ++ storeLe16 topicLen

/-- The bytes that encoding writes. -/
def Frame.wire (f : Frame) : Bytes :=
  header f.kind f.flags f.seq (UInt16.ofNat f.topic.length) ++ (f.topic ++ f.payload)

/-- `bb_udp_frame_encode`: the result and the buffer, whose length is its capacity. -/
def encode (f : Frame) (buf : Bytes) : Int × Bytes :=
  if buf.length < headerLen then (-1, buf)
  else
    let total := headerLen + f.topic.length + f.payload.length
    if buf.length < total then (-1, buf)
    else (total, f.wire ++ buf.drop total)

/-- `bb_udp_frame_decode`; a datagram shorter than a header has no case of its own. -/
def decode : Bytes → Except BbErr View
  | m0 :: m1 :: v :: k :: flags :: s0 :: s1 :: s2 :: s3 :: t0 :: t1 :: body =>
    if loadLe16 m0 m1 ≠ magic then .error .validation
    else if v ≠ version then .error .validation
    else
      match Kind.ofByte k with
      | none => .error .validation
      | some kind =>
        let topicLen := loadLe16 t0 t1
        if body.length < topicLen.toNat then .error .validation
        else
          .ok
            { kind := kind
              flags := flags
              seq := loadLe32 s0 s1 s2 s3
              topic := headerLen
              topicLen := topicLen
              payload := headerLen + topicLen.toNat
              payloadLen := UInt16.ofNat (body.length - topicLen.toNat) }
  | _ => .error .validation

/-! ## What a decoded frame says -/

/-- The topic bytes a view gives. -/
def View.topicBytes (v : View) (dgram : Bytes) : Bytes :=
  (dgram.drop v.topic).take v.topicLen.toNat

/-- The payload bytes a view gives. -/
def View.payloadBytes (v : View) (dgram : Bytes) : Bytes :=
  (dgram.drop v.payload).take v.payloadLen.toNat

/-- The frame that a view of a datagram gives. -/
def View.frame (v : View) (dgram : Bytes) : Frame where
  kind := v.kind
  flags := v.flags
  seq := v.seq
  topic := v.topicBytes dgram
  payload := v.payloadBytes dgram
  topic_lt := Nat.lt_of_le_of_lt (List.length_take_le _ _) v.topicLen.toNat_lt
  payload_lt := Nat.lt_of_le_of_lt (List.length_take_le _ _) v.payloadLen.toNat_lt

/-- Header, topic and payload lie one after the other and are the datagram. -/
structure View.Accounts (v : View) (dgram : Bytes) : Prop where
  topic : v.topic = headerLen
  payload : v.payload = v.topic + v.topicLen.toNat
  whole : v.payload + v.payloadLen.toNat = dgram.length

/-- What is decoded accounts for every byte. -/
def Accounted (dgram : Bytes) : Prop :=
  ∀ v, decode dgram = .ok v → v.Accounts dgram

/-- A datagram that decodes has no more payload than sixteen bits count. -/
def PayloadFits (dgram : Bytes) : Prop :=
  ∀ v, decode dgram = .ok v → dgram.length < v.payload + 2 ^ 16

/-- Encoding says that it does not fit, and it does not, or what it writes decodes to the frame. -/
def RoundTrips (f : Frame) (buf : Bytes) : Prop :=
  (encode f buf = (-1, buf) ∧ buf.length < f.wire.length) ∨
    ∃ n v, (encode f buf).1 = (n : Nat) ∧ decode ((encode f buf).2.take n) = .ok v ∧
      v.frame ((encode f buf).2.take n) = f

/-- Both datagrams decode, and to equal frames. -/
def SameFrame (d d' : Bytes) : Prop :=
  ∃ v v', decode d = .ok v ∧ decode d' = .ok v' ∧ v.frame d = v'.frame d'

/-! ## Decoding -/

@[simp] theorem length_header (kind : Kind) (flags : UInt8) (seq : UInt32) (topicLen : UInt16) :
    (header kind flags seq topicLen).length = headerLen :=
  rfl

theorem length_wire (f : Frame) :
    f.wire.length = headerLen + f.topic.length + f.payload.length := by
  simp [Frame.wire, Nat.add_assoc]

theorem toNat_ofNat_of_lt {n : Nat} (h : n < 2 ^ 16) : (UInt16.ofNat n).toNat = n := by
  rw [UInt16.toNat_ofNat']
  exact Nat.mod_eq_of_lt h

/-- A header with room for its topic is decoded. -/
theorem decode_header (kind : Kind) (flags : UInt8) (seq : UInt32) (topicLen : UInt16)
    {body : Bytes} (hbody : topicLen.toNat ≤ body.length) :
    decode (header kind flags seq topicLen ++ body) =
      .ok
        { kind := kind
          flags := flags
          seq := seq
          topic := headerLen
          topicLen := topicLen
          payload := headerLen + topicLen.toNat
          payloadLen := UInt16.ofNat (body.length - topicLen.toNat) } := by
  have hbytes : header kind flags seq topicLen ++ body =
      magic.toUInt8 :: (magic >>> 8).toUInt8 :: version :: kind.toByte :: flags ::
        seq.toUInt8 :: (seq >>> 8).toUInt8 :: (seq >>> 16).toUInt8 :: (seq >>> 24).toUInt8 ::
          topicLen.toUInt8 :: (topicLen >>> 8).toUInt8 :: body := rfl
  rw [hbytes, decode, loadLe16_store, loadLe16_store, loadLe32_store, if_neg (fun h => h rfl),
    if_neg (fun h => h rfl), Kind.ofByte_toByte]
  simp only
  rw [if_neg (by omega)]

/-- Nothing else is decoded. -/
theorem header_of_decode {dgram : Bytes} {v : View} (h : decode dgram = .ok v) :
    ∃ body, dgram = header v.kind v.flags v.seq v.topicLen ++ body ∧
      v.topicLen.toNat ≤ body.length := by
  unfold decode at h
  split at h
  next m0 m1 ver k flags s0 s1 s2 s3 t0 t1 body =>
    split at h
    next => cases h
    next hmagic =>
      split at h
      next => cases h
      next hversion =>
        split at h
        next => cases h
        next kind hkind =>
          simp only at h
          split at h
          next => cases h
          next htopic =>
            cases h
            refine ⟨body, ?_, by simpa using htopic⟩
            simp only [header, storeLe32_load, storeLe16_load, Kind.toByte_of_ofByte hkind]
            rw [← not_not.mp hmagic, storeLe16_load, ← not_not.mp hversion]
            rfl
  next => cases h

/-- A datagram that decodes, and where its topic and payload are. -/
theorem decode_cases {dgram : Bytes} {v : View} (h : decode dgram = .ok v) :
    ∃ body, dgram = header v.kind v.flags v.seq v.topicLen ++ body ∧
      v.topicLen.toNat ≤ body.length ∧ v.topic = headerLen ∧
      v.payload = headerLen + v.topicLen.toNat ∧
      v.payloadLen = UInt16.ofNat (body.length - v.topicLen.toNat) := by
  obtain ⟨body, hdgram, hbody⟩ := header_of_decode h
  have hview := decode_header v.kind v.flags v.seq v.topicLen hbody
  rw [← hdgram, h] at hview
  have hv := Except.ok.inj hview
  exact ⟨body, hdgram, hbody, congrArg View.topic hv, congrArg View.payload hv,
    congrArg View.payloadLen hv⟩

/-- The ranges account for the datagram exactly when the payload's length fits. -/
theorem accounts_iff {dgram : Bytes} {v : View} (h : decode dgram = .ok v) :
    v.Accounts dgram ↔ dgram.length < v.payload + 2 ^ 16 := by
  obtain ⟨body, hdgram, hbody, htopic, hpayload, hlen⟩ := decode_cases h
  have hlength : dgram.length = headerLen + body.length := by
    rw [hdgram, List.length_append, length_header]
  have hfield : v.payloadLen.toNat = (body.length - v.topicLen.toNat) % 2 ^ 16 := by
    rw [hlen, UInt16.toNat_ofNat']
  constructor
  · intro haccounts
    have hwhole := haccounts.whole
    have hlt := v.payloadLen.toNat_lt
    omega
  · intro hfits
    refine ⟨htopic, by rw [htopic, hpayload], ?_⟩
    rw [hfield, Nat.mod_eq_of_lt (by omega)]
    omega

theorem accounted_iff (dgram : Bytes) : Accounted dgram ↔ PayloadFits dgram :=
  forall₂_congr fun _ h => accounts_iff h

/-! ## There and back -/

/-- What is decoded is the encoding of the frame it decodes to. -/
theorem wire_of_decode {dgram : Bytes} {v : View} (h : decode dgram = .ok v)
    (hfits : dgram.length < v.payload + 2 ^ 16) : (v.frame dgram).wire = dgram := by
  obtain ⟨body, hdgram, hbody, htopic, hpayload, hlen⟩ := decode_cases h
  have hlength : dgram.length = headerLen + body.length := by
    rw [hdgram, List.length_append, length_header]
  have hafter : dgram.drop headerLen = body := by
    rw [hdgram]
    exact List.drop_left' (length_header _ _ _ _)
  have htopicBytes : (v.frame dgram).topic = body.take v.topicLen.toNat := by
    change (dgram.drop v.topic).take _ = _
    rw [htopic, hafter]
  have hpayloadLen : v.payloadLen.toNat = body.length - v.topicLen.toNat := by
    rw [hlen]
    exact toNat_ofNat_of_lt (by omega)
  have hpayloadBytes : (v.frame dgram).payload = body.drop v.topicLen.toNat := by
    change (dgram.drop v.payload).take _ = _
    rw [hpayload, ← List.drop_drop, hafter, hpayloadLen]
    exact List.take_of_length_le (Nat.le_of_eq List.length_drop)
  have htopicLen : UInt16.ofNat (v.frame dgram).topic.length = v.topicLen := by
    rw [htopicBytes, List.length_take, Nat.min_eq_left hbody, UInt16.ofNat_toNat]
  rw [Frame.wire, htopicLen, htopicBytes, hpayloadBytes, List.take_append_drop]
  exact hdgram.symm

/-- What is encoded is decoded to the frame it was encoded from. -/
theorem decode_wire (f : Frame) : ∃ v, decode f.wire = .ok v ∧ v.frame f.wire = f := by
  have htopicLen := toNat_ofNat_of_lt f.topic_lt
  have hdecode := @decode_header f.kind f.flags f.seq (UInt16.ofNat f.topic.length)
    (f.topic ++ f.payload) (by rw [htopicLen, List.length_append]; omega)
  refine ⟨_, hdecode, ?_⟩
  have hafter : f.wire.drop headerLen = f.topic ++ f.payload :=
    List.drop_left' (length_header _ _ _ _)
  have htopic : (f.wire.drop headerLen).take (UInt16.ofNat f.topic.length).toNat = f.topic := by
    rw [hafter, htopicLen]
    exact List.take_left' rfl
  have hpayload : (f.wire.drop (headerLen + (UInt16.ofNat f.topic.length).toNat)).take
      (UInt16.ofNat ((f.topic ++ f.payload).length - (UInt16.ofNat f.topic.length).toNat)).toNat =
        f.payload := by
    have hlen : (f.topic ++ f.payload).length - f.topic.length = f.payload.length := by
      rw [List.length_append]
      omega
    rw [← List.drop_drop, hafter, htopicLen, List.drop_left' rfl, hlen,
      toNat_ofNat_of_lt f.payload_lt]
    exact List.take_of_length_le (Nat.le_refl _)
  cases f
  simp only [View.frame, View.topicBytes, View.payloadBytes] at htopic hpayload ⊢
  simp only [htopic, hpayload]

/-- Encoding keeps a frame or says that it does not fit. -/
theorem roundTrips (f : Frame) (buf : Bytes) : RoundTrips f buf := by
  have hlength := length_wire f
  by_cases hfits : buf.length < f.wire.length
  · refine .inl ⟨?_, hfits⟩
    unfold encode
    split
    next => rfl
    next => exact if_pos (by omega)
  · obtain ⟨v, hdecode, hframe⟩ := decode_wire f
    have hencode : encode f buf = ((f.wire.length : Int), f.wire ++ buf.drop f.wire.length) := by
      unfold encode
      simp only [← hlength]
      rw [if_neg (by omega), if_neg hfits]
    have htake : (f.wire ++ buf.drop f.wire.length).take f.wire.length = f.wire :=
      List.take_left' rfl
    refine .inr ⟨f.wire.length, v, by rw [hencode], ?_, ?_⟩
    · rw [hencode, htake]
      exact hdecode
    · rw [hencode, htake]
      exact hframe

/--
For every frame and buffer and any two datagrams: the codec round-trips, accounts for every byte
and tells datagrams apart exactly when the payload of each datagram that decodes fits the length
field.
-/
theorem codec_iff_payload_fits (f : Frame) (buf d d' : Bytes) :
    (RoundTrips f buf ∧ Accounted d ∧ Accounted d' ∧ (SameFrame d d' → d = d')) ↔
      PayloadFits d ∧ PayloadFits d' := by
  constructor
  · rintro ⟨-, hd, hd', -⟩
    exact ⟨(accounted_iff d).mp hd, (accounted_iff d').mp hd'⟩
  · rintro ⟨hd, hd'⟩
    refine ⟨roundTrips f buf, (accounted_iff d).mpr hd, (accounted_iff d').mpr hd', ?_⟩
    rintro ⟨v, v', hv, hv', hsame⟩
    rw [← wire_of_decode hv (hd v hv), ← wire_of_decode hv' (hd' v' hv'), hsame]

/-- A datagram without a topic and with 65536 bytes of payload. -/
def overlong : Bytes :=
  header .telemetry 0 0 0 ++ List.replicate 65536 0

/-- It is decoded to a frame with an empty payload, as the header alone is. -/
theorem overlong_not_accounted :
    ¬ ∀ (f : Frame) (buf d d' : Bytes),
      RoundTrips f buf ∧ Accounted d ∧ Accounted d' ∧ (SameFrame d d' → d = d') := by
  intro hall
  have hfits := ((codec_iff_payload_fits ⟨.log, 0, 0, [], [], by decide, by decide⟩ [] overlong
    overlong).mp (hall _ _ _ _)).1
  have hdecode := @decode_header .telemetry 0 0 0 (List.replicate 65536 0) (Nat.zero_le _)
  have hlt := hfits _ hdecode
  rw [overlong, List.length_append, length_header, List.length_replicate] at hlt
  exact absurd hlt (by decide)

end UdpFrame
end Breadboard
