import Mathlib
import CarveraFirmware.Frames.Crc

/-!
# The Makera frame decoder

`FrameDecoder` of `libs/MakeraFrame.cpp`: a byte-at-a-time decoder of

  header 86 68 | length (2) | type (1) | data | CRC (2) | footer 55 AA

with a one second gap timeout. The length counts type, data and CRC; the CRC
covers length, type and data.
-/

namespace CarveraFirmware.Frames

open Crc

def headerHigh : UInt8 := 0x86
def headerLow : UInt8 := 0x68
def footerHighByte : UInt8 := 0x55
def footerLowByte : UInt8 := 0xAA

/-- `makera::header` and `makera::footer`. -/
def header : UInt16 := 0x8668
def footer : UInt16 := 0x55AA

def maxFrameSize : Nat := 544
def frameOverhead : Nat := 9
def maxDataSize : Nat := maxFrameSize - frameOverhead
def frameTimeoutUs : UInt32 := 1000000

/-- Two bytes read as one big-endian number. -/
def be16 (high low : UInt8) : UInt16 := (high.toUInt16 <<< 8) ||| low.toUInt16

theorem be16_toNat (h l : UInt8) : (be16 h l).toNat = h.toNat * 256 + l.toNat := by
  have hh := h.toNat_lt
  have hl := l.toNat_lt
  unfold be16
  rw [UInt16.toNat_or, UInt16.toNat_shiftLeft]
  simp only [UInt8.toNat_toUInt16, UInt16.reduceToNat, Nat.reduceMod]
  rw [Nat.mod_eq_of_lt (by rw [Nat.shiftLeft_eq]; omega),
    ← Nat.shiftLeft_add_eq_or_of_lt (by omega), Nat.shiftLeft_eq]

theorem be16_split (w : UInt16) : be16 (w >>> 8).toUInt8 w.toUInt8 = w := by
  have hw := w.toNat_lt
  apply UInt16.toNat_inj.mp
  rw [be16_toNat]
  simp only [UInt16.toNat_toUInt8, UInt16.toNat_shiftRight, UInt16.reduceToNat, Nat.reduceMod,
    Nat.shiftRight_eq_div_pow]
  omega

theorem be16_length {n : Nat} (h : n < 2 ^ 16) :
    be16 (UInt8.ofNat (n >>> 8)) (UInt8.ofNat n) = UInt16.ofNat n := by
  apply UInt16.toNat_inj.mp
  rw [be16_toNat]
  simp only [UInt8.toNat_ofNat', UInt16.toNat_ofNat', Nat.shiftRight_eq_div_pow]
  omega

/-- `makera::Packet`. Only the first `dataLength` bytes of `data` belong to the frame. -/
structure Packet where
  length : UInt16 := 0
  type : UInt8 := 0
  dataLength : UInt16 := 0
  data : Nat → UInt8 := fun _ => 0
  crc : UInt16 := 0

/-- The data bytes a reader of the packet sees. -/
def Packet.payload (p : Packet) : List UInt8 := (List.range p.dataLength.toNat).map p.data

inductive DecodeResult where
  | incomplete | complete | invalidLength | invalidCrc | invalidFooter | marked
  deriving DecidableEq, Repr

structure FrameDecoder where
  received : Nat := 0
  expected : Nat := 0
  lengthHigh : UInt8 := 0
  footerHigh : UInt8 := 0
  trailer : UInt32 := 0
  calculatedCrc : UInt16 := 0
  lastByteUs : UInt32 := 0
  headerPrefix : Bool := false
  haveLastByte : Bool := false
  marked : Bool := false
  packet : Packet := {}

namespace FrameDecoder

def inProgress (d : FrameDecoder) : Bool := d.received != 0 || d.headerPrefix

/-- `reset()`: everything but the packet goes back to its initial value. -/
def reset (d : FrameDecoder) : FrameDecoder := { packet := d.packet }

def markFrame (d : FrameDecoder) : FrameDecoder := { d with marked := d.inProgress }

def bytesWanted (d : FrameDecoder) : Nat :=
  if d.received = 0 then (if d.headerPrefix then 1 else 2)
  else if d.received < 4 then 4 - d.received
  else d.expected - d.received

def restartWith (d : FrameDecoder) (byte : UInt8) (now : UInt32) : FrameDecoder :=
  { d.reset with headerPrefix := byte == headerHigh, lastByteUs := now, haveLastByte := true }

def keepConsumedHeader (d : FrameDecoder) (now : UInt32) : FrameDecoder :=
  { d.reset with received := 2, lastByteUs := now, haveLastByte := true }

/-- The timeout check and time stamp every byte starts with. -/
def touch (d : FrameDecoder) (now : UInt32) : FrameDecoder :=
  let d := if d.inProgress && d.haveLastByte && now - d.lastByteUs ≥ frameTimeoutUs then d.reset
    else d
  { d with lastByteUs := now, haveLastByte := true }

/-- The branch of `decode_byte` that hunts for the two header bytes. -/
def huntHeader (d : FrameDecoder) (byte : UInt8) : FrameDecoder :=
  if d.headerPrefix && byte == headerLow then { d with received := 2, headerPrefix := false }
  else { d with headerPrefix := byte == headerHigh, marked := false }

/-- The two length bytes, at positions 2 and 3. -/
def takeLength (d : FrameDecoder) (byte : UInt8) (now : UInt32) : DecodeResult × FrameDecoder :=
  if d.received = 2 then
    (.incomplete, { d with
      received := 3, lengthHigh := byte, calculatedCrc := ccittUpdate d.calculatedCrc [byte] })
  else
    let length := be16 d.lengthHigh byte
    if length < 3 ∨ length.toNat > maxDataSize + 3 then
      (.invalidLength,
        if length = header then d.keepConsumedHeader now else d.restartWith byte now)
    else
      (.incomplete, { d with
        received := 4
        packet := { d.packet with length := length, dataLength := length - 3 }
        calculatedCrc := ccittUpdate d.calculatedCrc [byte]
        expected := length.toNat + 6 })

/-- The part of `decode_byte` that handles a byte before the length is known. `restart_from_trailer`
re-feeds bytes to `decode_byte` only in such states, so it is written with this part alone
(`decodeByte_before_length` identifies the two). -/
def decodeHead (d : FrameDecoder) (byte : UInt8) (now : UInt32) : DecodeResult × FrameDecoder :=
  if d.received = 0 then (.incomplete, d.huntHeader byte) else d.takeLength byte now

/-- The three 16-bit windows and the four bytes of the 32-bit `trailer_`. -/
def restartFromTrailer (d : FrameDecoder) (now : UInt32) : FrameDecoder :=
  let trailer := d.trailer
  if trailer &&& 0xFFFF = header.toUInt32 then d.keepConsumedHeader now
  else if (trailer >>> 8) &&& 0xFFFF = header.toUInt32 then
    (((d.keepConsumedHeader now).touch now).decodeHead trailer.toUInt8 now).2
  else if trailer >>> 16 = header.toUInt32 then
    let d₁ := (((d.keepConsumedHeader now).touch now).decodeHead (trailer >>> 8).toUInt8 now).2
    ((d₁.touch now).decodeHead trailer.toUInt8 now).2
  else d.restartWith trailer.toUInt8 now

/-- Storing a byte at `position ≥ 4`, once the length is known. -/
def storeByte (d : FrameDecoder) (position : Nat) (byte : UInt8) : FrameDecoder :=
  let d :=
    if position = 4 then
      { d with
        packet := { d.packet with type := byte }
        calculatedCrc := ccittUpdate d.calculatedCrc [byte] }
    else if position < d.packet.length.toNat + 2 then
      { d with
        packet := { d.packet with data := Function.update d.packet.data (position - 5) byte }
        calculatedCrc := ccittUpdate d.calculatedCrc [byte] }
    else if position = d.packet.length.toNat + 2 then
      { d with packet := { d.packet with crc := byte.toUInt16 <<< 8 } }
    else if position = d.packet.length.toNat + 3 then
      { d with packet := { d.packet with crc := d.packet.crc ||| byte.toUInt16 } }
    else if position = d.expected - 2 then { d with footerHigh := byte }
    else d
  if position ≥ d.packet.length.toNat + 2 then
    { d with trailer := (d.trailer <<< 8) ||| byte.toUInt32 }
  else d

/-- The checks `decode_byte` makes once the last expected byte is in. -/
def finishFrame (d : FrameDecoder) (position : Nat) (byte : UInt8) (now : UInt32) :
    DecodeResult × FrameDecoder :=
  if position ≠ d.expected - 1 ∨ be16 d.footerHigh byte ≠ footer then
    (.invalidFooter, d.restartFromTrailer now)
  else
    let crcValid := d.packet.crc = d.calculatedCrc
    if ¬ crcValid then (.invalidCrc, d.reset)
    else (if d.marked then .marked else .complete, d.reset)

def decodeByte (d : FrameDecoder) (byte : UInt8) (now : UInt32) : DecodeResult × FrameDecoder :=
  let d := d.touch now
  if d.received < 4 then d.decodeHead byte now
  else
    let position := d.received
    let d := { d with received := position + 1 }.storeByte position byte
    if d.received < d.expected then (.incomplete, d) else d.finishFrame position byte now

/-- Re-feeding a byte before the length is known is `decode_byte` itself. -/
theorem decodeByte_before_length (d : FrameDecoder) (byte : UInt8) (now : UInt32)
    (h : (d.touch now).received < 4) : d.decodeByte byte now = (d.touch now).decodeHead byte now := by
  simp [decodeByte, h]

/-! ## One byte at a time -/

theorem received_storeByte (d : FrameDecoder) (position : Nat) (byte : UInt8) :
    (d.storeByte position byte).received = d.received := by
  unfold storeByte
  simp only
  split_ifs <;> rfl

theorem lastByteUs_storeByte (d : FrameDecoder) (position : Nat) (byte : UInt8) :
    (d.storeByte position byte).lastByteUs = d.lastByteUs := by
  unfold storeByte
  simp only
  split_ifs <;> rfl

theorem decodeByte_hunt {d : FrameDecoder} (b : UInt8) (now : UInt32)
    (h : (d.touch now).received = 0) :
    d.decodeByte b now = (.incomplete, (d.touch now).huntHeader b) := by
  simp [decodeByte, decodeHead, h]

theorem decodeByte_takeLength {d : FrameDecoder} (b : UInt8) (now : UInt32)
    (h : (d.touch now).received ≠ 0) (h4 : (d.touch now).received < 4) :
    d.decodeByte b now = (d.touch now).takeLength b now := by
  simp [decodeByte, decodeHead, h, h4]

/-- A byte is stored and it is not the last one of its frame. -/
theorem decodeByte_store {d : FrameDecoder} (b : UInt8) {now : UInt32}
    (h4 : 4 ≤ (d.touch now).received) :
    d.decodeByte b now =
      let position := (d.touch now).received
      let d' := { d.touch now with received := position + 1 }.storeByte position b
      if position + 1 < d'.expected then (.incomplete, d') else d'.finishFrame position b now := by
  simp [decodeByte, Nat.not_lt.mpr h4, received_storeByte]

theorem storeByte_type {d : FrameDecoder} (b : UInt8) (h : 3 ≤ d.packet.length.toNat) :
    d.storeByte 4 b = { d with
      packet := { d.packet with type := b }
      calculatedCrc := ccittUpdate d.calculatedCrc [b] } := by
  have h' : ¬ d.packet.length.toNat + 2 ≤ 4 := by omega
  simp only [storeByte, if_true, ge_iff_le, if_neg h']

theorem storeByte_data {d : FrameDecoder} {p : Nat} (b : UInt8) (h4 : 4 < p)
    (h : p < d.packet.length.toNat + 2) :
    d.storeByte p b = { d with
      packet := { d.packet with data := Function.update d.packet.data (p - 5) b }
      calculatedCrc := ccittUpdate d.calculatedCrc [b] } := by
  have h' : ¬ d.packet.length.toNat + 2 ≤ p := by omega
  simp only [storeByte, if_neg (Nat.ne_of_gt h4), if_pos h, ge_iff_le, if_neg h']

theorem storeByte_crcHigh {d : FrameDecoder} {p : Nat} (b : UInt8) (h4 : 4 < p)
    (h : p = d.packet.length.toNat + 2) :
    d.storeByte p b = { d with
      packet := { d.packet with crc := b.toUInt16 <<< 8 }
      trailer := (d.trailer <<< 8) ||| b.toUInt32 } := by
  subst h
  simp only [storeByte, if_neg (Nat.ne_of_gt h4), lt_irrefl, if_false, if_true,
    ge_iff_le, le_refl]

theorem storeByte_crcLow {d : FrameDecoder} {p : Nat} (b : UInt8) (h4 : 4 < p)
    (h : p = d.packet.length.toNat + 3) :
    d.storeByte p b = { d with
      packet := { d.packet with crc := d.packet.crc ||| b.toUInt16 }
      trailer := (d.trailer <<< 8) ||| b.toUInt32 } := by
  subst h
  simp [storeByte, Nat.ne_of_gt h4]

/-- The two footer bytes; only the first is kept. -/
theorem storeByte_footer {d : FrameDecoder} {p : Nat} (b : UInt8) (h4 : 4 < p)
    (h : d.packet.length.toNat + 3 < p) :
    d.storeByte p b = { d with
      footerHigh := if p = d.expected - 2 then b else d.footerHigh
      trailer := (d.trailer <<< 8) ||| b.toUInt32 } := by
  have h1 : ¬ p < d.packet.length.toNat + 2 := by omega
  have h2 : p ≠ d.packet.length.toNat + 2 := by omega
  have h3 : p ≠ d.packet.length.toNat + 3 := by omega
  have h5 : d.packet.length.toNat + 2 ≤ p := by omega
  simp only [storeByte, if_neg (Nat.ne_of_gt h4), if_neg h1, if_neg h2, if_neg h3]
  split <;> simp

/-- A frame that is over leaves the decoder reset or hunting through its trailer. -/
theorem finishFrame_state (d : FrameDecoder) (byte : UInt8) (now : UInt32) (position : Nat) :
    (d.finishFrame position byte now).2 = d.restartFromTrailer now ∨
      (d.finishFrame position byte now).2 = d.reset := by
  unfold finishFrame
  split
  · exact .inl rfl
  · simp only
    split <;> exact .inr rfl

theorem finishFrame_complete {d : FrameDecoder} {position : Nat} {b : UInt8} (now : UInt32)
    (hpos : position = d.expected - 1) (hfoot : be16 d.footerHigh b = footer)
    (hcrc : d.packet.crc = d.calculatedCrc) (hm : d.marked = false) :
    d.finishFrame position b now = (.complete, d.reset) := by
  simp [finishFrame, ← hpos, hfoot, hcrc, hm]

end FrameDecoder

/-- What a caller does to a decoder. -/
inductive DecoderCall where
  | byte (b : UInt8) (now : UInt32)
  | mark
  | reset

def DecoderCall.apply (d : FrameDecoder) : DecoderCall → FrameDecoder
  | .byte b now => (d.decodeByte b now).2
  | .mark => d.markFrame
  | .reset => d.reset

/-- The states a decoder can be in after any calls on a fresh one. -/
def Reachable (d : FrameDecoder) : Prop :=
  ∃ (p : Packet) (calls : List DecoderCall), d = calls.foldl DecoderCall.apply { packet := p }

end CarveraFirmware.Frames
