import Mathlib
import CarveraFirmware.Frames.Tracking
import CarveraFirmware.Transfers.FileReaders

/-!
# The packet grammar of a file transfer

`Scan` is the grammar both readers are written for, with no buffer and no index: hunt for a
header, take a length, take that many bytes and then the footer. Every byte has an outcome, and
the frames of a stream are those of the packets among its outcomes.
-/

namespace CarveraFirmware.Transfers

open Crc Frames

/-- The lengths a frame may have. -/
def FileLength (high low : UInt8) : Prop :=
  3 ≤ (be16 high low).toNat ∧ (be16 high low).toNat ≤ xbuffLength - 2

instance (high low : UInt8) : Decidable (FileLength high low) :=
  inferInstanceAs (Decidable (_ ∧ _))

/-- Where in a frame the stream is. `packet` is the length field and what followed it so far. -/
inductive Scan where
  | hunting (high : Bool)
  | lengthHigh
  | lengthLow (high : UInt8)
  | body (packet : List UInt8) (need : Nat)
  | footerHigh (packet : List UInt8)
  | footerLow (packet : List UInt8) (high : UInt8)
  deriving DecidableEq, Repr

/-- What a byte brought to its end. -/
inductive Outcome where
  | nothing
  | badLength
  | badFooter
  | packet (bytes : List UInt8)
  deriving DecidableEq, Repr

def Scan.step : Scan → UInt8 → Scan × Outcome
  | .hunting high, b =>
    if high = true ∧ b = headerLow then (.lengthHigh, .nothing)
    else (.hunting (b == headerHigh), .nothing)
  | .lengthHigh, b => (.lengthLow b, .nothing)
  | .lengthLow high, b =>
    if FileLength high b then (.body [high, b] (be16 high b).toNat, .nothing)
    else (.hunting false, .badLength)
  | .body packet need, b =>
    if need - 1 = 0 then (.footerHigh (packet ++ [b]), .nothing)
    else (.body (packet ++ [b]) (need - 1), .nothing)
  | .footerHigh packet, b => (.footerLow packet b, .nothing)
  | .footerLow packet high, b =>
    (.hunting false, if be16 high b = footer then .packet packet else .badFooter)

/-- Where the stream is after some bytes. -/
def Scan.run (s : Scan) (bs : List UInt8) : Scan := bs.foldl (fun s b => (s.step b).1) s

/-- The outcomes of the bytes of a stream, one after the other. -/
def Scan.outcomes (s : Scan) : List UInt8 → List Outcome
  | [] => []
  | b :: bs => (s.step b).2 :: (s.step b).1.outcomes bs

/-- The frame of a packet whose CRC is right and whose type is one of the file types. -/
def frameOf (packet : List UInt8) : Option FileFrame :=
  if packet.length < 5 then none
  else if ccitt (packet.take (packet.length - 2)) =
      be16 (packet.getD (packet.length - 2) 0) (packet.getD (packet.length - 1) 0) then
    if packet.getD 2 0 ∈ fileTypes then
      some (packet.getD 2 0, (packet.drop 3).take (packet.length - 2 - 3))
    else none
  else none

def Outcome.frame : Outcome → Option FileFrame
  | .packet bytes => frameOf bytes
  | _ => none

/-- The frames of a stream. -/
def fileFrames (stream : List UInt8) : List FileFrame :=
  ((Scan.hunting false).outcomes stream).filterMap Outcome.frame

/-- Past these bytes the stream is outside any frame, as it is at the end of a rejected one. -/
def Outside (bs : List UInt8) : Prop := ∃ high, (Scan.hunting false).run bs = .hunting high

theorem Scan.outcomes_append (s : Scan) (xs ys : List UInt8) :
    s.outcomes (xs ++ ys) = s.outcomes xs ++ (s.run xs).outcomes ys := by
  induction xs generalizing s with
  | nil => rfl
  | cons x xs ih => simp [Scan.outcomes, Scan.run, ih]

theorem Scan.run_append (s : Scan) (xs ys : List UInt8) :
    s.run (xs ++ ys) = (s.run xs).run ys := by
  simp [Scan.run]

/-! ## A well-formed frame is found wherever it begins outside another -/

/-- A frame a sender can build for a transfer. -/
structure SentFrame where
  type : UInt8
  data : List UInt8
  known : type ∈ fileTypes
  fits : data.length + 3 ≤ xbuffLength - 2

/-- Its length field, type, data and CRC. -/
def SentFrame.packet (f : SentFrame) : List UInt8 :=
  coveredBytes f.type f.data ++
    [(ccitt (coveredBytes f.type f.data) >>> 8).toUInt8, (ccitt (coveredBytes f.type f.data)).toUInt8]

def SentFrame.bytes (f : SentFrame) : List UInt8 := packetMessage f.type f.data

theorem SentFrame.bytes_eq (f : SentFrame) : f.bytes = [headerHigh, headerLow] ++
    (f.packet ++ [footerHighByte, footerLowByte]) := by
  simp [SentFrame.bytes, packetMessage, SentFrame.packet]

theorem SentFrame.packet_length (f : SentFrame) : f.packet.length = f.data.length + 5 := by
  simp [SentFrame.packet, coveredBytes]

theorem SentFrame.frameOf_packet (f : SentFrame) : frameOf f.packet = some (f.type, f.data) := by
  have hlen := f.packet_length
  have hc : (coveredBytes f.type f.data).length = f.data.length + 3 := by simp [coveredBytes]
  have htake : f.packet.take (f.packet.length - 2) = coveredBytes f.type f.data := by
    rw [hlen, SentFrame.packet, List.take_append_of_le_length (by omega),
      List.take_of_length_le (by omega)]
  have hcrc : be16 (f.packet.getD (f.packet.length - 2) 0) (f.packet.getD (f.packet.length - 1) 0) =
      ccitt (coveredBytes f.type f.data) := by
    have h1 : f.packet.length - 2 = (coveredBytes f.type f.data).length := by omega
    have h2 : f.packet.length - 1 = (coveredBytes f.type f.data).length + 1 := by omega
    rw [h1, h2, SentFrame.packet]
    simp [be16_split]
  have htype : f.packet.getD 2 0 = f.type := by simp [SentFrame.packet, coveredBytes]
  have hdata : (f.packet.drop 3).take (f.packet.length - 2 - 3) = f.data := by
    rw [hlen]
    simp [SentFrame.packet, coveredBytes]
  unfold frameOf
  rw [if_neg (by omega), htake, hcrc, if_pos rfl, htype, if_pos f.known, hdata]

/-- The bytes of a packet after its length field. -/
theorem Scan.outcomes_body (packet : List UInt8) {bs : List UInt8} {need : Nat} (hbs : bs.length = need)
    (hneed : 0 < need) :
    (Scan.body packet need).outcomes bs = List.replicate need .nothing ∧
      (Scan.body packet need).run bs = .footerHigh (packet ++ bs) := by
  induction bs generalizing packet need with
  | nil => simp at hbs; omega
  | cons b bs ih =>
    by_cases h1 : need - 1 = 0
    · obtain rfl : need = 1 := by omega
      obtain rfl : bs = [] := List.eq_nil_of_length_eq_zero (by simpa using hbs)
      exact ⟨rfl, rfl⟩
    · have hb : bs.length = need - 1 := by simp at hbs; omega
      obtain ⟨h2, h3⟩ := ih (packet ++ [b]) hb (by omega)
      have hstep : (Scan.body packet need).step b = (.body (packet ++ [b]) (need - 1), .nothing) := by
        simp only [Scan.step, if_neg h1]
      constructor
      · rw [Scan.outcomes, hstep]
        simp only [h2, ← List.replicate_succ]
        rw [show need - 1 + 1 = need by omega]
      · change ((Scan.body packet need).step b).1.run bs = _
        rw [hstep, h3]
        simp

theorem SentFrame.length_field (f : SentFrame) :
    (be16 (UInt8.ofNat ((f.data.length + 3) >>> 8)) (UInt8.ofNat (f.data.length + 3))).toNat =
      f.data.length + 3 := by
  have := f.fits
  simp only [xbuffLength] at this
  rw [be16_length (by omega), UInt16.toNat_ofNat']
  omega

/-- A frame that begins outside any other ends in its own packet. -/
theorem SentFrame.outcomes (f : SentFrame) (high : Bool) :
    (Scan.hunting high).outcomes f.bytes =
        List.replicate (f.data.length + 8) .nothing ++ [.packet f.packet] ∧
      (Scan.hunting high).run f.bytes = .hunting false := by
  have hlen := f.length_field
  have hfits := f.fits
  set h := UInt8.ofNat ((f.data.length + 3) >>> 8) with hh
  set l := UInt8.ofNat (f.data.length + 3) with hl
  set body := f.packet.drop 2 with hbody
  have hpacket : f.packet = [h, l] ++ body := by
    rw [hbody, ← List.take_append_drop 2 f.packet]
    simp [SentFrame.packet, coveredBytes, hh, hl]
  have hfile : FileLength h l := by
    unfold FileLength
    omega
  have hblen : body.length = f.data.length + 3 := by
    rw [hbody, List.length_drop, f.packet_length]
    omega
  -- The header and the length, the body, and the footer are scanned one after the other.
  obtain ⟨hout, hrun⟩ := Scan.outcomes_body [h, l] hblen (by omega)
  have hne : ¬ (high = true ∧ headerHigh = headerLow) := fun hc => absurd hc.2 (by decide)
  have hstart : (Scan.hunting high).run [headerHigh, headerLow, h, l] =
      .body [h, l] (f.data.length + 3) ∧
      (Scan.hunting high).outcomes [headerHigh, headerLow, h, l] = List.replicate 4 .nothing := by
    simp only [Scan.run, Scan.outcomes, List.foldl_cons, List.foldl_nil, Scan.step, if_neg hne,
      beq_self_eq_true, and_self, if_true, if_pos hfile, hlen, List.replicate_succ,
      List.replicate_zero]
  have hend : (Scan.footerHigh ([h, l] ++ body)).outcomes [footerHighByte, footerLowByte] =
      [.nothing, .packet ([h, l] ++ body)] ∧
      (Scan.footerHigh ([h, l] ++ body)).run [footerHighByte, footerLowByte] = .hunting false := by
    have hf : be16 footerHighByte footerLowByte = footer := by decide
    simp only [Scan.run, Scan.outcomes, List.foldl_cons, List.foldl_nil, Scan.step, if_pos hf,
      and_self]
  have hbytes : f.bytes = [headerHigh, headerLow, h, l] ++ (body ++
      [footerHighByte, footerLowByte]) := by
    rw [f.bytes_eq, hpacket]
    simp
  rw [hbytes, Scan.outcomes_append, Scan.outcomes_append, Scan.run_append, Scan.run_append,
    hstart.1, hstart.2, hout, hrun, hend.1, hend.2, ← hpacket]
  refine ⟨?_, rfl⟩
  have hlast : ([.nothing, .packet f.packet] : List Outcome) =
      List.replicate 1 .nothing ++ [.packet f.packet] := rfl
  rw [hlast, ← List.append_assoc, ← List.append_assoc, List.replicate_append_replicate,
    List.replicate_append_replicate, show 4 + (f.data.length + 3) + 1 = f.data.length + 8 by omega]

/-- The frames of a stream before, at and after a well-formed frame that begins outside. -/
theorem fileFrames_sent {pre : List UInt8} (hpre : Outside pre) (f : SentFrame)
    (post : List UInt8) :
    fileFrames (pre ++ f.bytes ++ post) =
      fileFrames pre ++ (f.type, f.data) :: fileFrames post := by
  obtain ⟨high, hrun⟩ := hpre
  obtain ⟨hout, hnext⟩ := f.outcomes high
  unfold fileFrames
  rw [Scan.outcomes_append, Scan.outcomes_append, Scan.run_append, hrun, hout, hnext]
  simp [Outcome.frame, f.frameOf_packet]

end CarveraFirmware.Transfers
