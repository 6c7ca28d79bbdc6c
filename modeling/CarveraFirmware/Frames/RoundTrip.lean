import Mathlib
import CarveraFirmware.Library.WrapClock
import CarveraFirmware.Frames.Encoding

/-!
# The frame round trip

A decoder that is between frames gives back exactly the frames it is fed, each at its last
byte. The proof follows one frame through the decoder's phases: header, length, body, last
byte.
-/

namespace CarveraFirmware.Frames

open Crc WrapClock FrameDecoder

section InsideFrame

variable (time : Nat → Nat)

/-- Successive bytes come less than the frame timeout apart. -/
def Paced : Prop := ∀ k, time k ≤ time (k + 1) ∧ time (k + 1) < time k + 1000000

/-- The next byte is byte `k`: the last one, if any, was byte `k - 1`. -/
def Awaits (k : Nat) (d : FrameDecoder) : Prop :=
  d.inProgress = false ∨ (0 < k ∧ d.lastByteUs = stamp (time (k - 1)))

/-- Feeding `bs` from byte `k` on reports nothing but `incomplete` and ends in a state with `Q`. -/
def Quiet (k : Nat) (d : FrameDecoder) (bs : List UInt8) (Q : FrameDecoder → Prop) : Prop :=
  (feed time k d bs).1 = List.replicate bs.length (.incomplete, none) ∧ Q (feed time k d bs).2

variable {time}

theorem Quiet.cons {k : Nat} {d : FrameDecoder} {b : UInt8} {bs : List UInt8}
    {Q : FrameDecoder → Prop} (hb : (d.decodeByte b (stamp (time k))).1 = .incomplete)
    (hbs : Quiet time (k + 1) (d.decodeByte b (stamp (time k))).2 bs Q) :
    Quiet time k d (b :: bs) Q := by
  refine ⟨?_, hbs.2⟩
  simp [feed, hbs.1, hb, report, List.replicate_succ]

/-- In a paced stream the timeout never fires. -/
theorem touch_paced (hp : Paced time) {k : Nat} {d : FrameDecoder} (ha : Awaits time k d) :
    d.touch (stamp (time k)) = { d with lastByteUs := stamp (time k), haveLastByte := true } := by
  rcases ha with hi | ⟨hk, hl⟩
  · simp [FrameDecoder.touch, hi]
  · obtain ⟨j, rfl⟩ : ∃ j, k = j + 1 := ⟨k - 1, by omega⟩
    obtain ⟨hle, hlt⟩ := hp j
    have hgap : ¬ stamp (time (j + 1)) - d.lastByteUs ≥ frameTimeoutUs := by
      rw [hl, Nat.add_sub_cancel, ge_iff_le, UInt32.le_iff_toNat_le, stamp_sub_of_lt hle (by omega)]
      simp only [frameTimeoutUs, UInt32.reduceToNat]
      omega
    simp [FrameDecoder.touch, hgap]

/-- The first header byte has been taken. -/
structure PrefixTaken (d : FrameDecoder) : Prop where
  received : d.received = 0
  headerPrefix : d.headerPrefix = true
  crc : d.calculatedCrc = 0
  unmarked : d.marked = false

/-- The header has been taken and the length is next. -/
structure HeaderTaken (d : FrameDecoder) : Prop where
  received : d.received = 2
  crc : d.calculatedCrc = 0
  unmarked : d.marked = false

/-- The length of `f` is known and `i` of the bytes after it have been stored. -/
structure Receiving (f : Frame) (i : Nat) (d : FrameDecoder) : Prop where
  received : d.received = 4 + i
  expected : d.expected = f.data.length + 9
  length : d.packet.length.toNat = f.data.length + 3
  dataLength : d.packet.dataLength.toNat = f.data.length
  type : 1 ≤ i → d.packet.type = f.type
  data : ∀ j < f.data.length, j + 1 < i → d.packet.data j = f.data.getD j 0
  crc : d.calculatedCrc = ccitt ((coveredBytes f.type f.data).take (i + 2))
  crcHigh : i = f.data.length + 2 → d.packet.crc = ((f.crc >>> 8).toUInt8.toUInt16 <<< 8)
  crcLow : f.data.length + 3 ≤ i → d.packet.crc = f.crc
  footerHigh : i = f.data.length + 4 → d.footerHigh = footerHighByte
  unmarked : d.marked = false

theorem awaits_next {k : Nat} {d : FrameDecoder} (h : d.lastByteUs = stamp (time k)) :
    Awaits time (k + 1) d := .inr ⟨Nat.succ_pos k, by simpa using h⟩

/-- The high byte of the length of `f` has been taken. -/
structure LengthStarted (f : Frame) (d : FrameDecoder) : Prop where
  received : d.received = 3
  high : d.lengthHigh = UInt8.ofNat ((f.data.length + 3) >>> 8)
  crc : d.calculatedCrc = ccittUpdate 0 [UInt8.ofNat ((f.data.length + 3) >>> 8)]
  unmarked : d.marked = false

/-- The length field of a frame. -/
theorem Frame.length_field (f : Frame) :
    let length := be16 (UInt8.ofNat ((f.data.length + 3) >>> 8)) (UInt8.ofNat (f.data.length + 3))
    length.toNat = f.data.length + 3 ∧ (length - 3).toNat = f.data.length := by
  have hfits : f.data.length ≤ 535 := f.fits
  have hnat : (UInt16.ofNat (f.data.length + 3)).toNat = f.data.length + 3 := by
    rw [UInt16.toNat_ofNat']
    omega
  simp only [be16_length (show f.data.length + 3 < 2 ^ 16 by omega)]
  refine ⟨hnat, ?_⟩
  rw [UInt16.toNat_sub_of_le _ _ (by rw [UInt16.le_iff_toNat_le, hnat]; simp), hnat]
  simp

/-- The first header byte is taken in every state outside a frame, whatever came before it. -/
theorem step_prefix {d : FrameDecoder} (hr : d.received = 0) (hc : d.calculatedCrc = 0)
    (now : UInt32) : (d.decodeByte headerHigh now).1 = .incomplete ∧
      PrefixTaken (d.decodeByte headerHigh now).2 ∧
      (d.decodeByte headerHigh now).2.lastByteUs = now := by
  have ht : (d.touch now).received = 0 ∧ (d.touch now).calculatedCrc = 0 ∧
      (d.touch now).lastByteUs = now := by
    unfold FrameDecoder.touch
    split
    · exact ⟨rfl, rfl, rfl⟩
    · exact ⟨hr, hc, rfl⟩
  have hne : ((d.touch now).headerPrefix && headerHigh == headerLow) = false := by
    simp [headerHigh, headerLow]
  rw [decodeByte_hunt headerHigh now ht.1]
  simp only [FrameDecoder.huntHeader, hne]
  exact ⟨trivial, ⟨ht.1, rfl, ht.2.1, rfl⟩, ht.2.2⟩

section Steps

variable {k : Nat} {d : FrameDecoder}

theorem step_header (hp : Paced time) (hd : PrefixTaken d) (ha : Awaits time k d) :
    (d.decodeByte headerLow (stamp (time k))).1 = .incomplete ∧
      HeaderTaken (d.decodeByte headerLow (stamp (time k))).2 ∧
      Awaits time (k + 1) (d.decodeByte headerLow (stamp (time k))).2 := by
  obtain ⟨hr, hpre, hc, hm⟩ := hd
  have ht := touch_paced hp ha
  rw [decodeByte_hunt headerLow (stamp (time k)) (by rw [ht]; exact hr), ht]
  simp only [FrameDecoder.huntHeader, hpre, Bool.true_and]
  exact ⟨trivial, ⟨rfl, hc, hm⟩, awaits_next rfl⟩

theorem step_lengthHigh (hp : Paced time) (f : Frame) (hd : HeaderTaken d)
    (ha : Awaits time k d) :
    let r := d.decodeByte (UInt8.ofNat ((f.data.length + 3) >>> 8)) (stamp (time k))
    r.1 = .incomplete ∧ LengthStarted f r.2 ∧ Awaits time (k + 1) r.2 := by
  obtain ⟨hr, hc, hm⟩ := hd
  have ht := touch_paced hp ha
  rw [decodeByte_takeLength _ _ (by rw [ht]; simp [hr]) (by rw [ht]; simp [hr]), ht]
  simp only [FrameDecoder.takeLength, hr, if_true]
  exact ⟨trivial, ⟨rfl, rfl, by rw [hc], hm⟩, awaits_next rfl⟩

theorem step_lengthLow (hp : Paced time) (f : Frame) (hd : LengthStarted f d)
    (ha : Awaits time k d) :
    let r := d.decodeByte (UInt8.ofNat (f.data.length + 3)) (stamp (time k))
    r.1 = .incomplete ∧ Receiving f 0 r.2 ∧ Awaits time (k + 1) r.2 := by
  obtain ⟨hr, hh, hc, hm⟩ := hd
  have hfits : f.data.length ≤ 535 := f.fits
  obtain ⟨hlen, hdata⟩ := f.length_field
  have ht := touch_paced hp ha
  have hok : ¬ (be16 (UInt8.ofNat ((f.data.length + 3) >>> 8)) (UInt8.ofNat (f.data.length + 3)) < 3 ∨
      f.data.length + 3 > maxDataSize + 3) := by
    rw [UInt16.lt_iff_toNat_lt, hlen]
    simp only [maxDataSize, maxFrameSize, frameOverhead, UInt16.reduceToNat]
    omega
  rw [decodeByte_takeLength _ _ (by rw [ht]; simp [hr]) (by rw [ht]; simp [hr]), ht]
  simp only [FrameDecoder.takeLength, hh, hlen]
  rw [if_neg (by simp [hr]), if_neg hok]
  refine ⟨rfl, ⟨rfl, rfl, hlen, hdata, by simp, by simp, ?_, by simp, by simp, by simp, hm⟩,
    awaits_next rfl⟩
  change ccittUpdate d.calculatedCrc _ = _
  simp [hc, coveredBytes, ccitt]

end Steps

theorem Frame.body_data (f : Frame) {j : Nat} (h : j < f.data.length) :
    f.body.getD (j + 1) 0 = f.data.getD j 0 := by
  simp [Frame.body, List.getElem?_append_left h]

theorem Frame.body_trailer (f : Frame) (j : Nat) : f.body.getD (f.data.length + 1 + j) 0 =
    [(f.crc >>> 8).toUInt8, f.crc.toUInt8, footerHighByte, footerLowByte].getD j 0 := by
  simp [Frame.body, Nat.add_right_comm _ 1 j, List.getElem?_append_right]

theorem take_covered_all (f : Frame) {i : Nat} (h : f.data.length + 1 ≤ i) :
    ccitt ((coveredBytes f.type f.data).take (i + 2)) = f.crc := by
  rw [List.take_of_length_le (by simp [coveredBytes]; omega), Frame.crc]

/-- The state after storing body byte `i`. -/
theorem Receiving.storeByte {i : Nat} {f : Frame} {d : FrameDecoder}
    (hd : Receiving f i d) (hi : i < f.data.length + 4) (now : UInt32) :
    Receiving f (i + 1) ({ d with
      lastByteUs := now, haveLastByte := true, received := 4 + i + 1 }.storeByte (4 + i)
        (f.body.getD i 0)) := by
  obtain ⟨hr, he, hl, hdl, hty, hdata, hcrc, hch, hcl, hf, hm⟩ := hd
  -- By the place of the byte: the type, the data, the two of the CRC, the first of the footer.
  rcases Nat.eq_zero_or_pos i with rfl | hpos
  · rw [storeByte_type _ (by simp [hl])]
    refine ⟨rfl, he, hl, hdl, fun _ => rfl, fun j _ hj => absurd hj (by omega), ?_,
      by omega, by omega, by omega, hm⟩
    simp [hcrc, ccitt, coveredBytes, Frame.body]
  rcases Nat.lt_or_ge i (f.data.length + 1) with hlt | hge
  · obtain ⟨j, rfl⟩ : ∃ j, i = j + 1 := ⟨i - 1, by omega⟩
    rw [storeByte_data _ (by omega) (by simp only [hl]; omega), f.body_data (by omega)]
    refine ⟨rfl, he, hl, hdl, fun _ => hty (by omega), fun m hm' hj => ?_, ?_,
      by omega, by omega, by omega, hm⟩
    · have hpos : 4 + (j + 1) - 5 = j := by omega
      simp only [hpos, Function.update_apply]
      split
      · next h => rw [h]
      · exact hdata m hm' (by omega)
    · have hj : j < f.data.length := by omega
      simp only [hcrc, ccitt, coveredBytes, List.take_add_one, ccittUpdate_cons,
        ccittUpdate_append]
      simp [hj]
  · have hcrc' : d.calculatedCrc = ccitt ((coveredBytes f.type f.data).take (i + 1 + 2)) := by
      rw [hcrc, take_covered_all f hge, take_covered_all f (by omega)]
    obtain ⟨j, rfl⟩ : ∃ j, i = f.data.length + 1 + j := ⟨i - (f.data.length + 1), by omega⟩
    rw [f.body_trailer]
    obtain rfl | rfl | rfl : j = 0 ∨ j = 1 ∨ j = 2 := by omega
    · rw [storeByte_crcHigh _ (by omega) (by simp only [hl]; omega)]
      exact ⟨rfl, he, hl, hdl, fun _ => hty (by omega), fun m h _ => hdata m h (by omega), hcrc',
        fun _ => rfl, by omega, by omega, hm⟩
    · rw [storeByte_crcLow _ (by omega) (by simp only [hl]; omega)]
      refine ⟨rfl, he, hl, hdl, fun _ => hty (by omega), fun m h _ => hdata m h (by omega), hcrc',
        by omega, fun _ => ?_, by omega, hm⟩
      simp only [hch rfl]
      exact be16_split f.crc
    · rw [storeByte_footer _ (by omega) (by simp only [hl]; omega)]
      refine ⟨rfl, he, hl, hdl, fun _ => hty (by omega), fun m h _ => hdata m h (by omega), hcrc',
        by omega, fun _ => hcl (by omega), fun _ => ?_, hm⟩
      exact if_pos (by simp only [he]; omega)

/-- Inside a frame a byte is stored at its position before anything else is decided. -/
theorem Receiving.decodeByte_eq (hp : Paced time) {k i : Nat} {f : Frame} {d : FrameDecoder}
    (hd : Receiving f i d) (ha : Awaits time k d) (b : UInt8) :
    d.decodeByte b (stamp (time k)) =
      let d' := { d with lastByteUs := stamp (time k), haveLastByte := true,
                         received := 4 + i + 1 }.storeByte (4 + i) b
      if 4 + i + 1 < d'.expected then (.incomplete, d')
      else d'.finishFrame (4 + i) b (stamp (time k)) := by
  have ht := touch_paced hp ha
  rw [decodeByte_store b (by rw [ht]; simp [hd.received]), ht]
  simp only [hd.received]

/-- One byte of the body other than the last. -/
theorem Receiving.step (hp : Paced time) {k i : Nat} {f : Frame} {d : FrameDecoder}
    (hd : Receiving f i d) (ha : Awaits time k d) (hi : i < f.data.length + 4) :
    (d.decodeByte (f.body.getD i 0) (stamp (time k))).1 = .incomplete ∧
      Receiving f (i + 1) (d.decodeByte (f.body.getD i 0) (stamp (time k))).2 ∧
      Awaits time (k + 1) (d.decodeByte (f.body.getD i 0) (stamp (time k))).2 := by
  have hs := hd.storeByte hi (stamp (time k))
  rw [hd.decodeByte_eq hp ha]
  simp only
  rw [if_pos (by rw [hs.expected]; omega)]
  exact ⟨rfl, hs, awaits_next (lastByteUs_storeByte _ _ _)⟩

/-- All bytes of the body but the last. -/
theorem quiet_body (hp : Paced time) {f : Frame} (m : Nat) {k i : Nat} {d : FrameDecoder}
    (hd : Receiving f i d) (ha : Awaits time k d) (hi : i + m ≤ f.data.length + 4) :
    Quiet time k d ((f.body.drop i).take m)
      (fun d' => Receiving f (i + m) d' ∧ Awaits time (k + m) d') := by
  induction m generalizing k i d with
  | zero => exact ⟨by simp [feed], by simpa [feed] using ⟨hd, ha⟩⟩
  | succ m ih =>
    have hlen : i < f.body.length := by simp [Frame.body]; omega
    obtain ⟨hinc, hnext, hawait⟩ := hd.step hp ha (by omega)
    have hget : f.body.getD i 0 = f.body[i] := by simp [hlen]
    rw [List.drop_eq_getElem_cons hlen, List.take_succ_cons, ← hget]
    have hrest := ih hnext hawait (by omega)
    rw [Nat.add_right_comm i, Nat.add_right_comm k] at hrest
    exact Quiet.cons hinc hrest

/-- The last byte completes the frame. -/
theorem Receiving.complete (hp : Paced time) {k : Nat} {f : Frame} {d : FrameDecoder}
    (hd : Receiving f (f.data.length + 4) d) (ha : Awaits time k d) :
    ∃ d', d.decodeByte footerLowByte (stamp (time k)) = (.complete, d') ∧ Idle d' ∧
      d'.packet.type = f.type ∧ d'.packet.payload = f.data := by
  have hvalid : d.packet.crc = d.calculatedCrc := by
    rw [hd.crcLow (by omega), hd.crc, take_covered_all f (by omega)]
  have hhigh : ¬ 4 + (f.data.length + 4) = d.expected - 2 := by
    rw [hd.expected]
    omega
  rw [hd.decodeByte_eq hp ha, storeByte_footer _ (by omega) (by simp only [hd.length]; omega)]
  simp only [if_neg hhigh]
  rw [if_neg (by rw [hd.expected]; omega)]
  refine ⟨_, finishFrame_complete _ ?_ ?_ hvalid hd.unmarked, ⟨rfl, rfl, rfl⟩,
    hd.type (by omega), ?_⟩
  · simp only [hd.expected]
    omega
  · simp only [hd.footerHigh rfl]
    decide
  · change (List.range d.packet.dataLength.toNat).map d.packet.data = f.data
    rw [hd.dataLength]
    apply List.ext_getElem (by simp)
    intro j h1 h2
    simp [hd.data j h2 (by omega), h2]

/-- Feeding the rest `bs` of `f` reports nothing until its last byte completes the frame. -/
def Completes (time : Nat → Nat) (f : Frame) (k : Nat) (d : FrameDecoder) (bs : List UInt8) :
    Prop :=
  (feed time k d bs).1 =
      List.replicate (bs.length - 1) (.incomplete, none) ++ [(.complete, some (f.type, f.data))] ∧
    Idle (feed time k d bs).2

theorem Completes.cons {f : Frame} {k : Nat} {d : FrameDecoder} {b : UInt8} {bs : List UInt8}
    (hne : bs ≠ []) (hb : (d.decodeByte b (stamp (time k))).1 = .incomplete)
    (hbs : Completes time f (k + 1) (d.decodeByte b (stamp (time k))).2 bs) :
    Completes time f k d (b :: bs) := by
  have hlen : 0 < bs.length := List.length_pos_iff.mpr hne
  refine ⟨?_, hbs.2⟩
  simp only [feed, hbs.1, hb, report, List.length_cons, Nat.add_sub_cancel]
  obtain ⟨m, hm⟩ : ∃ m, bs.length = m + 1 := ⟨bs.length - 1, by omega⟩
  simp [hm, List.replicate_succ]

section Rest

variable {f : Frame} {k : Nat} {d : FrameDecoder}

theorem completes_body (hp : Paced time) (hd : Receiving f 0 d) (ha : Awaits time k d) :
    Completes time f k d f.body := by
  have hquiet := quiet_body hp (f.data.length + 4) hd ha (by omega)
  set opening := (f.body.drop 0).take (f.data.length + 4) with hopening
  have hbytes : f.body = opening ++ [footerLowByte] := by
    simp [hopening, Frame.body, List.take_append]
  have hlen : opening.length = f.data.length + 4 := by simp [hopening, Frame.body]
  obtain ⟨hrep, hrec, ha'⟩ := hquiet
  rw [Nat.zero_add] at hrec
  rw [← hlen] at ha'
  obtain ⟨d', hdec, hidle, hty, hpay⟩ := hrec.complete hp ha'
  unfold Completes
  rw [hbytes, feed_append]
  simp only [hrep, feed, hdec, report, hty, hpay]
  exact ⟨by simp, hidle⟩

theorem completes_lengthLow (hp : Paced time) (hd : LengthStarted f d) (ha : Awaits time k d) :
    Completes time f k d (f.bytes.drop 3) := by
  obtain ⟨hinc, hrec, ha'⟩ := step_lengthLow hp f hd ha
  have hbytes : f.bytes.drop 3 = UInt8.ofNat (f.data.length + 3) :: f.body := by
    simp [f.bytes_eq]
  rw [hbytes]
  exact Completes.cons (by simp [Frame.body]) hinc (completes_body hp hrec ha')

theorem completes_length (hp : Paced time) (hd : HeaderTaken d) (ha : Awaits time k d) :
    Completes time f k d (f.bytes.drop 2) := by
  obtain ⟨hinc, hstart, ha'⟩ := step_lengthHigh hp f hd ha
  have hbytes : f.bytes.drop 2 =
      UInt8.ofNat ((f.data.length + 3) >>> 8) :: f.bytes.drop 3 := by
    simp [f.bytes_eq]
  rw [hbytes]
  exact Completes.cons (by simp [f.bytes_eq]) hinc (completes_lengthLow hp hstart ha')

theorem completes_header (hp : Paced time) (hd : PrefixTaken d) (ha : Awaits time k d) :
    Completes time f k d (f.bytes.drop 1) := by
  obtain ⟨hinc, htaken, ha'⟩ := step_header hp hd ha
  have hbytes : f.bytes.drop 1 = headerLow :: f.bytes.drop 2 := by simp [f.bytes_eq]
  rw [hbytes]
  exact Completes.cons (by simp [f.bytes_eq]) hinc (completes_length hp htaken ha')

end Rest

/-- A whole frame, from one idle state to the next. -/
theorem feed_frame (hp : Paced time) (k : Nat) (f : Frame) {d : FrameDecoder}
    (hr : d.received = 0) (hc : d.calculatedCrc = 0) :
    (feed time k d f.bytes).1 = frameReports f ∧ Idle (feed time k d f.bytes).2 := by
  obtain ⟨hinc, htaken, hlast⟩ := step_prefix hr hc (stamp (time k))
  have hbytes : f.bytes = headerHigh :: f.bytes.drop 1 := by simp [f.bytes_eq]
  have hrest := completes_header (f := f) hp htaken (awaits_next hlast)
  have hall : Completes time f k d f.bytes := by
    rw [hbytes]
    exact Completes.cons (by simp [f.bytes_eq]) hinc hrest
  have hlen : f.bytes.length - 1 = f.data.length + 8 := by simp [f.bytes_eq, Frame.body]
  unfold Completes at hall
  rw [hlen] at hall
  exact hall

theorem feed_frames (hp : Paced time) (frames : List Frame) (k : Nat) {d : FrameDecoder}
    (hd : Idle d) :
    (feed time k d (frames.flatMap Frame.bytes)).1 = frames.flatMap frameReports ∧
      Idle (feed time k d (frames.flatMap Frame.bytes)).2 := by
  induction frames generalizing k d with
  | nil => exact ⟨rfl, hd⟩
  | cons f fs ih =>
    obtain ⟨hrep, hidle⟩ := feed_frame hp k f hd.1 hd.2.2
    obtain ⟨hreps, hidles⟩ := ih (k + f.bytes.length) hidle
    rw [List.flatMap_cons, feed_append]
    exact ⟨by simp only [hrep, hreps, List.flatMap_cons], hidles⟩

end InsideFrame

/-- Frames fed back to back to a decoder between frames come out as they went in. -/
theorem feed_frames_roundTrip {time : Nat → Nat} (hp : Paced time) {d : FrameDecoder}
    (hd : Reachable d) (hidle : d.inProgress = false) (frames : List Frame) :
    (feed time 0 d (frames.flatMap Frame.bytes)).1 = frames.flatMap frameReports ∧
      (feed time 0 d (frames.flatMap Frame.bytes)).2.inProgress = false := by
  obtain ⟨hrep, hr, hpre, -⟩ := feed_frames hp frames 0 (hd.idle hidle)
  exact ⟨hrep, by simp [FrameDecoder.inProgress, hr, hpre]⟩

theorem feed_frames_roundTrip_fresh :
    (feed (fun k => 400000 * k) 0 {} (Frame.bytes ⟨0x71, [0x86, 0x68], by decide⟩)).1 =
      frameReports ⟨0x71, [0x86, 0x68], by decide⟩ := by
  have hpaced : Paced (fun k => 400000 * k) := fun k => ⟨by simp only; omega, by simp only; omega⟩
  have h := feed_frames_roundTrip hpaced (d := {}) ⟨{}, [], rfl⟩ rfl
    [⟨0x71, [0x86, 0x68], by decide⟩]
  simpa using h.1

end CarveraFirmware.Frames
