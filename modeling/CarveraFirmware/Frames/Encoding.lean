import Mathlib
import CarveraFirmware.Library.WrapClock
import CarveraFirmware.Frames.Decoder

/-!
# Frames on the wire

`packetMessage` is the layout `WifiProvider::PacketMessage` sends, and `feed` what a decoder
makes of a byte string. Between frames a reachable decoder is `Idle`.
-/

namespace CarveraFirmware.Frames

open Crc WrapClock

/-- A frame a sender can build: any type byte, and data that fits a packet. -/
structure Frame where
  type : UInt8
  data : List UInt8
  fits : data.length ≤ maxDataSize

/-- The bytes the CRC covers: length, type and data. -/
def coveredBytes (cmd : UInt8) (s : List UInt8) : List UInt8 :=
  let len := s.length + 3
  UInt8.ofNat (len >>> 8) :: UInt8.ofNat len :: cmd :: s

/-- The bytes `PacketMessage(cmd, s, size)` puts into `fbuff` and sends. -/
def packetMessage (cmd : UInt8) (s : List UInt8) : List UInt8 :=
  let crc := ccitt (coveredBytes cmd s)
  [headerHigh, headerLow] ++ coveredBytes cmd s ++
    [(crc >>> 8).toUInt8, crc.toUInt8, footerHighByte, footerLowByte]

def Frame.bytes (f : Frame) : List UInt8 := packetMessage f.type f.data

/-- The CRC the frame carries. -/
def Frame.crc (f : Frame) : UInt16 := ccitt (coveredBytes f.type f.data)

/-- The bytes of a frame after its header and length. -/
def Frame.body (f : Frame) : List UInt8 :=
  f.type :: f.data ++ [(f.crc >>> 8).toUInt8, f.crc.toUInt8, footerHighByte, footerLowByte]

theorem Frame.bytes_eq (f : Frame) : f.bytes =
    [headerHigh, headerLow] ++ ([UInt8.ofNat ((f.data.length + 3) >>> 8),
      UInt8.ofNat (f.data.length + 3)] ++ f.body) := by
  simp [Frame.bytes, packetMessage, coveredBytes, Frame.body, Frame.crc]

/-- What a caller learns from one byte: the result and, at the end of a frame, its type and data. -/
def report (r : DecodeResult) (d : FrameDecoder) : DecodeResult × Option (UInt8 × List UInt8) :=
  (r, if r = .complete ∨ r = .marked then some (d.packet.type, d.packet.payload) else none)

/-- Feeding a byte string, byte `k` at the true time `time k`. -/
def feed (time : Nat → Nat) (k : Nat) (d : FrameDecoder) :
    List UInt8 → List (DecodeResult × Option (UInt8 × List UInt8)) × FrameDecoder
  | [] => ([], d)
  | b :: bs =>
    let r := d.decodeByte b (stamp (time k))
    let rest := feed time (k + 1) r.2 bs
    (report r.1 r.2 :: rest.1, rest.2)

/-- What the bytes of one frame are expected to report. -/
def frameReports (f : Frame) : List (DecodeResult × Option (UInt8 × List UInt8)) :=
  List.replicate (f.data.length + 8) (.incomplete, none) ++ [(.complete, some (f.type, f.data))]

theorem feed_append (time : Nat → Nat) (k : Nat) (d : FrameDecoder) (xs ys : List UInt8) :
    feed time k d (xs ++ ys) =
      let a := feed time k d xs
      let b := feed time (k + xs.length) a.2 ys
      (a.1 ++ b.1, b.2) := by
  induction xs generalizing k d with
  | nil => simp [feed]
  | cons x xs ih => simp [feed, ih, Nat.add_assoc, Nat.add_comm 1]

/-! ## Between frames -/

/-- Between frames nothing is left of an earlier frame that the next one reads. -/
def Idle (d : FrameDecoder) : Prop :=
  d.received = 0 ∧ d.headerPrefix = false ∧ d.calculatedCrc = 0

/-- The running CRC is only non-zero inside a frame. -/
def CrcClean (d : FrameDecoder) : Prop := d.received = 0 → d.calculatedCrc = 0

theorem crcClean_touch {d : FrameDecoder} (now : UInt32) (h : CrcClean d) :
    CrcClean (d.touch now) := by
  unfold FrameDecoder.touch
  split
  · exact fun _ => rfl
  · exact h

theorem crcClean_decodeHead {d : FrameDecoder} (byte : UInt8) (now : UInt32) (h : CrcClean d) :
    CrcClean (d.decodeHead byte now).2 := by
  unfold FrameDecoder.decodeHead
  split
  · unfold FrameDecoder.huntHeader
    split
    · intro hz; simp at hz
    · exact h
  · unfold FrameDecoder.takeLength
    split
    · intro hz; simp at hz
    · simp only
      split
      · simp only
        split
        · intro hz; simp [FrameDecoder.keepConsumedHeader] at hz
        · exact fun _ => rfl
      · intro hz; simp at hz

theorem crcClean_restartFromTrailer (d : FrameDecoder) (now : UInt32) :
    CrcClean (d.restartFromTrailer now) := by
  have hk : CrcClean (d.keepConsumedHeader now) := fun hz => by
    simp [FrameDecoder.keepConsumedHeader] at hz
  unfold FrameDecoder.restartFromTrailer
  simp only
  split
  · exact hk
  · split
    · exact crcClean_decodeHead _ _ (crcClean_touch now hk)
    · split
      · exact crcClean_decodeHead _ _ (crcClean_touch now
          (crcClean_decodeHead _ _ (crcClean_touch now hk)))
      · exact fun _ => rfl

theorem crcClean_decodeByte {d : FrameDecoder} (byte : UInt8) (now : UInt32) (h : CrcClean d) :
    CrcClean (d.decodeByte byte now).2 := by
  have ht := crcClean_touch now h
  unfold FrameDecoder.decodeByte
  simp only
  split
  · exact crcClean_decodeHead byte now ht
  · split
    · intro hz
      rw [FrameDecoder.received_storeByte] at hz
      simp at hz
    · unfold FrameDecoder.finishFrame
      simp only
      split
      · exact crcClean_restartFromTrailer _ now
      · split
        · exact fun _ => rfl
        · exact fun _ => rfl

theorem crcClean_apply {d : FrameDecoder} (c : DecoderCall) (h : CrcClean d) :
    CrcClean (c.apply d) := by
  cases c with
  | byte b now => exact crcClean_decodeByte b now h
  | mark => exact h
  | reset => exact fun _ => rfl

theorem Reachable.crcClean {d : FrameDecoder} (h : Reachable d) : CrcClean d := by
  obtain ⟨p, calls, rfl⟩ := h
  have hrun : ∀ (calls : List DecoderCall) (d : FrameDecoder), CrcClean d →
      CrcClean (calls.foldl DecoderCall.apply d) := by
    intro calls
    induction calls with
    | nil => exact fun _ h => h
    | cons c cs ih => exact fun d h => ih _ (crcClean_apply c h)
  exact hrun calls _ (fun _ => rfl)

/-- A reachable decoder that is not inside a frame is idle. -/
theorem Reachable.idle {d : FrameDecoder} (h : Reachable d) (hp : d.inProgress = false) :
    Idle d := by
  simp [FrameDecoder.inProgress] at hp
  exact ⟨hp.1, hp.2, h.crcClean hp.1⟩

end CarveraFirmware.Frames
