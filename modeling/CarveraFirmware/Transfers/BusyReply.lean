import Mathlib
import CarveraFirmware.Frames.Encoding
import CarveraFirmware.Clients.Classify

/-!
# What is discarded while a transfer runs

While a file transfer runs, `WifiProvider::gets` discards every read that is not from the transfer's
owner, and `needs_busy_reply` decides from one read at a time whether its sender has to be told. A
stream of frames is cut into reads anywhere.
-/

namespace CarveraFirmware.Transfers

open Frames Clients

def ptypeCtrlSingle : UInt8 := 0xA1
def ptypeCtrlMulti : UInt8 := 0xA2
def ptypeFileStart : UInt8 := 0xB0
def ptypeHeartbeat : UInt8 := 0x62
def ptypeRelay : UInt8 := 0x67
def ptypeAutoCommand : UInt8 := 0x6B
def ptypeJobStartReady : UInt8 := 0x6C
def ptypePresenceReply : UInt8 := 0x6E

inductive ControlAction where
  | none | query | diagnose | halt | stop | keepAlive | feedHold | feedResume
  deriving DecidableEq

/-- `decode_control(control)`. -/
def decodeControl (control : UInt8) : ControlAction :=
  if control = 0x3F then .query
  else if control = 0x2A then .diagnose
  else if control = 0x18 then .halt
  else if control = 0x19 then .stop
  else if control = 0x1A then .keepAlive
  else if control = 0x21 then .feedHold
  else if control = 0x7E then .feedResume
  else .none

def isDiagnosticRequest (data : List UInt8) : Bool :=
  (ascii "diagnose").isPrefixOf data &&
    (data.drop (ascii "diagnose").length).all fun c => isSpaceTab c || isLineEnd c

/-- A control byte that a controller sends on its own. -/
def backgroundControl (control : UInt8) : Bool :=
  decodeControl control = .query || decodeControl control = .keepAlive ||
    decodeControl control = .diagnose

/-- A frame type that is never answered, or a heartbeat. -/
def backgroundType (type : UInt8) : Bool :=
  type = ptypeHeartbeat || type = ptypeRelay || type = ptypePresenceReply ||
    type = ptypeJobStartReady

/-- What the scan makes of a header it stands at, from the type, the length and the bytes after. -/
def headerNeedsReply (frameLength : Nat) (type : UInt8) (after : List UInt8) : Bool :=
  if type = ptypeCtrlSingle then
    match after with
    | [] => true
    | control :: _ => !backgroundControl control
  else if type = ptypeCtrlMulti then
    frameLength < 3 || after.length < frameLength - 3 ||
      !isDiagnosticRequest (after.take (frameLength - 3))
  else !backgroundType type

/-- `needs_busy_reply(data, length)`. The list is the rest of the read, from `i` on. -/
def needsBusyReply : List UInt8 → Bool
  | high :: low :: rest =>
    if be16 high low ≠ header then needsBusyReply (low :: rest)
    else
      match rest with
      | lengthHigh :: lengthLow :: type :: after =>
        let frameLength := (be16 lengthHigh lengthLow).toNat
        if headerNeedsReply frameLength type after then true
        else
          needsBusyReply
            ((high :: low :: lengthHigh :: lengthLow :: type :: after).drop (6 + frameLength))
      | _ => true
  | _ => false
termination_by data => data.length
decreasing_by
  · simp
  · simp only [List.length_drop, List.length_cons]
    omega

inductive TransferFrame where
  | other | ready | cancel | keepWaiting
  deriving DecidableEq

/-- `held_start_frame(type, data, length)`. -/
def heldStartFrame (f : Frame) : TransferFrame :=
  if f.type = ptypeJobStartReady then .ready
  else if f.type ≠ ptypeCtrlMulti then .other
  else if wordIs (skipSpaces f.data) "abort" then .cancel
  else if wordIs (skipSpaces f.data) "keep-waiting" then .keepWaiting
  else .other

/-- `dropped_when_marked(type, data, length)`. -/
def droppedWhenMarked (f : Frame) : Bool :=
  if f.type = ptypeFileStart || f.type = ptypeAutoCommand then true
  else if f.type ≠ ptypeCtrlMulti || isDiagnosticRequest f.data then false
  else heldStartFrame f = .other

/-- A frame that would have been run: a command line other than `diagnose`, the start of a transfer,
or an automatic command. -/
def isCommand (f : Frame) : Prop :=
  (f.type = ptypeCtrlMulti ∧ isDiagnosticRequest f.data = false) ∨ f.type = ptypeFileStart ∨
    f.type = ptypeAutoCommand

/-! ## A stream in reads -/

/-- Where frame `k` of a stream starts. -/
def frameStart (frames : List Frame) (k : Nat) : Nat := ((frames.take k).flatMap Frame.bytes).length

/-- Where read `j` of a stream starts. -/
def readStart (reads : List (List UInt8)) (j : Nat) : Nat := (reads.take j).flatten.length

/-- The frames of a client that does not own the running transfer, in the reads they come in: those
that are made while the transfer runs, and what is read after it. -/
structure OtherClient where
  frames : List Frame
  reads : List (List UInt8)
  rest : List UInt8
  split : reads.flatten ++ rest = frames.flatMap Frame.bytes
  /-- A job start is held and the sender is in the table, so its decoder is fed the reads. -/
  held : Bool
  /-- Whether the held start takes frame `k`, should it be one that it looks for. -/
  accepts : Nat → Bool

namespace OtherClient

variable (c : OtherClient)

def Overlaps (k j : Nat) : Prop :=
  readStart c.reads j < frameStart c.frames (k + 1) ∧
    frameStart c.frames k < readStart c.reads (j + 1)

/-- The held start takes frame `k`, where the frame is read to its end. -/
def takes (k : Nat) (f : Frame) : Bool := c.held && c.accepts k && heldStartFrame f != .other

/-- Nothing that ends in read `j` is taken, so what the read leaves cut off is marked. -/
def Marks (j : Nat) : Prop :=
  ∀ k f, c.frames[k]? = some f → readStart c.reads j < frameStart c.frames (k + 1) →
    frameStart c.frames (k + 1) ≤ readStart c.reads (j + 1) → c.takes k f = false

/-- Frame `k` is lost to the transfer. One that the transfer's end cuts off is completed after it only
by a decoder that was fed its first bytes, and is then run unless it was marked. -/
def Discarded (k : Nat) (f : Frame) : Prop :=
  c.frames[k]? = some f ∧ frameStart c.frames k < c.reads.flatten.length ∧
    if frameStart c.frames (k + 1) ≤ c.reads.flatten.length then c.takes k f = false
    else
      c.held = false ∨
        (droppedWhenMarked f = true ∧ ∃ j < c.reads.length, c.Overlaps k j ∧ c.Marks j)

/-- Every command that is discarded overlaps a read that needs a reply. -/
def Told : Prop :=
  ∀ k f, c.Discarded k f → isCommand f →
    ∃ j read, c.reads[j]? = some read ∧ c.Overlaps k j ∧ needsBusyReply read = true

/-- Read `j` does not have a header in the rest of the frame it begins inside. -/
def Clear (j : Nat) (read : List UInt8) : Prop :=
  ∀ k f, c.frames[k]? = some f → frameStart c.frames k < readStart c.reads j →
    readStart c.reads j < frameStart c.frames (k + 1) →
    ¬ [headerHigh, headerLow] <:+:
      (f.bytes.drop (readStart c.reads j - frameStart c.frames k)).take read.length

end OtherClient

/-- The first `n` bytes of the frame are enough to need a reply: it is not one a controller sends on
its own, or it is cut off before that is certain. -/
def asksForReply (f : Frame) (n : Nat) : Prop :=
  2 ≤ n ∧
    (n ≤ 4 ∨
      (f.type = ptypeCtrlSingle ∧
        (n ≤ 5 ∨ ∃ control ∈ (f.bytes.drop 5).head?, backgroundControl control = false)) ∨
      (f.type = ptypeCtrlMulti ∧ (n < 5 + f.data.length ∨ isDiagnosticRequest f.data = false)) ∨
      (f.type ≠ ptypeCtrlSingle ∧ f.type ≠ ptypeCtrlMulti ∧ backgroundType f.type = false))

/-- Read `j` holds at least the header of a frame that needs a reply. -/
def OtherClient.Shows (c : OtherClient) (j : Nat) : Prop :=
  ∃ k f, c.frames[k]? = some f ∧ readStart c.reads j ≤ frameStart c.frames k ∧
    asksForReply f (readStart c.reads (j + 1) - frameStart c.frames k)

/-! ## The scan over a read -/

theorem be16_header (high low : UInt8) :
    be16 high low = header ↔ high = headerHigh ∧ low = headerLow := by
  constructor
  · intro h
    have hnat := congrArg UInt16.toNat h
    rw [be16_toNat] at hnat
    have hhigh := high.toNat_lt
    have hlow := low.toNat_lt
    simp only [header, UInt16.reduceToNat] at hnat
    exact ⟨UInt8.toNat_inj.mp (by simp only [headerHigh, UInt8.reduceToNat]; omega),
      UInt8.toNat_inj.mp (by simp only [headerLow, UInt8.reduceToNat]; omega)⟩
  · rintro ⟨rfl, rfl⟩
    rfl

theorem needsBusyReply_hunt {high low : UInt8} {rest : List UInt8}
    (h : ¬ (high = headerHigh ∧ low = headerLow)) :
    needsBusyReply (high :: low :: rest) = needsBusyReply (low :: rest) := by
  rw [needsBusyReply.eq_def]
  exact if_pos (mt (be16_header high low).mp h)

/-- Bytes without a header are passed over. -/
theorem needsBusyReply_append {before after : List UInt8}
    (hclear : ¬ [headerHigh, headerLow] <:+: before)
    (hlast : after = [] ∨ before.getLast? ≠ some headerHigh) :
    needsBusyReply (before ++ after) = needsBusyReply after := by
  induction before with
  | nil => rfl
  | cons high before ih =>
    have hclear' : ¬ [headerHigh, headerLow] <:+: before := fun h =>
      hclear (h.trans (List.suffix_cons ..).isInfix)
    cases before with
    | nil =>
      cases after with
      | nil => simp [needsBusyReply]
      | cons low after =>
        have hne : high ≠ headerHigh := by simpa using hlast
        exact needsBusyReply_hunt fun h => hne h.1
    | cons low before =>
      have hpair : ¬ (high = headerHigh ∧ low = headerLow) := by
        rintro ⟨rfl, rfl⟩
        exact hclear ⟨[], before, rfl⟩
      rw [List.cons_append, List.cons_append, needsBusyReply_hunt hpair]
      exact ih hclear' (by simpa using hlast)

theorem Frame.length_bytes (f : Frame) : f.bytes.length = f.data.length + 9 := by
  simp [Frame.bytes, packetMessage, coveredBytes]

theorem Frame.getLast?_bytes (f : Frame) : f.bytes.getLast? = some footerLowByte := by
  have heq : f.bytes = [headerHigh, headerLow] ++ coveredBytes f.type f.data ++
      [(f.crc >>> 8).toUInt8, f.crc.toUInt8, footerHighByte] ++ [footerLowByte] := by
    rw [List.append_assoc]
    rfl
  rw [heq, List.getLast?_concat]

/-- The bytes of a frame from its CRC on. -/
def crcAndFooter (f : Frame) : List UInt8 :=
  [(f.crc >>> 8).toUInt8, f.crc.toUInt8, footerHighByte, footerLowByte]

theorem Frame.bytes_cons (f : Frame) :
    f.bytes = headerHigh :: headerLow :: UInt8.ofNat ((f.data.length + 3) >>> 8) ::
      UInt8.ofNat (f.data.length + 3) :: f.type :: (f.data ++ crcAndFooter f) := by
  rw [Frame.bytes_eq]
  rfl

theorem Frame.length_field (f : Frame) :
    (be16 (UInt8.ofNat ((f.data.length + 3) >>> 8)) (UInt8.ofNat (f.data.length + 3))).toNat
      = f.data.length + 3 := by
  have hfits := f.fits
  simp only [maxDataSize, maxFrameSize, frameOverhead] at hfits
  rw [be16_length (by omega), UInt16.toNat_ofNat', Nat.mod_eq_of_lt (by omega)]

theorem take_of_frame (f : Frame) {n : Nat} {tail : List UInt8} (h : f.data.length ≤ n) :
    ((f.data ++ crcAndFooter f ++ tail).take n).take f.data.length = f.data := by
  rw [List.take_take, Nat.min_eq_left h, List.append_assoc, List.take_left]

/-- What the scan makes of the header of a frame of which at least five bytes are in the read. -/
theorem headerNeedsReply_frame (f : Frame) (n : Nat) (tail : List UInt8)
    (hroom : n + 5 ≤ f.data.length + 9 + tail.length) :
    headerNeedsReply (f.data.length + 3) f.type ((f.data ++ crcAndFooter f ++ tail).take n) = true ↔
      asksForReply f (n + 5) := by
  have hlength : ((f.data ++ crcAndFooter f ++ tail).take n).length = n := by
    simp only [List.length_take, List.length_append, crcAndFooter, List.length_cons, List.length_nil]
    omega
  have hask : asksForReply f (n + 5) ↔
      (f.type = ptypeCtrlSingle ∧
        (n = 0 ∨ ∃ control ∈ (f.bytes.drop 5).head?, backgroundControl control = false)) ∨
      (f.type = ptypeCtrlMulti ∧ (n < f.data.length ∨ isDiagnosticRequest f.data = false)) ∨
      (f.type ≠ ptypeCtrlSingle ∧ f.type ≠ ptypeCtrlMulti ∧ backgroundType f.type = false) := by
    rw [asksForReply, show n + 5 ≤ 5 ↔ n = 0 by omega,
      show n + 5 < 5 + f.data.length ↔ n < f.data.length by omega]
    simp
  rw [hask, headerNeedsReply.eq_def]
  by_cases hsingle : f.type = ptypeCtrlSingle
  · have hmulti : f.type ≠ ptypeCtrlMulti := by rw [hsingle]; decide
    rw [if_pos hsingle, or_iff_left (by tauto), and_iff_right hsingle]
    cases n with
    | zero => simp
    | succ n =>
      -- the byte after the type is there: the first of the data, or of the CRC
      have hbyte : f.bytes.drop 5 = f.data ++ crcAndFooter f := by rw [Frame.bytes_cons]; rfl
      rw [hbyte]
      cases hdata : f.data ++ crcAndFooter f with
      | nil => simp [crcAndFooter] at hdata
      | cons control after => simp
  · rw [if_neg hsingle, or_iff_right (by tauto)]
    by_cases hmulti : f.type = ptypeCtrlMulti
    · rw [if_pos hmulti, or_iff_left (by tauto), and_iff_right hmulti, Nat.add_sub_cancel, hlength]
      by_cases hcut : n < f.data.length
      · simp [hcut]
      · rw [take_of_frame f (by omega)]
        simp [hcut]
    · rw [if_neg hmulti, or_iff_right (by tauto), and_iff_right hsingle, and_iff_right hmulti,
        Bool.not_eq_true']

/-- The scan at the start of a frame, of which `n` bytes are in the read. -/
theorem needsBusyReply_frame (f : Frame) (tail : List UInt8) (n : Nat)
    (hn : n ≤ f.bytes.length + tail.length) :
    needsBusyReply ((f.bytes ++ tail).take n) = true ↔
      asksForReply f n ∨ needsBusyReply (tail.take (n - f.bytes.length)) = true := by
  rw [Frame.length_bytes] at hn ⊢
  obtain hfew | hfive := Nat.lt_or_ge n 5
  · rw [Nat.sub_eq_zero_of_le (by omega), List.take_zero, Frame.bytes_cons]
    interval_cases n <;> simp [needsBusyReply.eq_def, asksForReply, be16_header]
  · obtain ⟨m, rfl⟩ : ∃ m, n = m + 5 := ⟨n - 5, by omega⟩
    have hask := headerNeedsReply_frame f m tail hn
    have hread : (f.bytes ++ tail).take (m + 5) = headerHigh :: headerLow ::
        UInt8.ofNat ((f.data.length + 3) >>> 8) :: UInt8.ofNat (f.data.length + 3) :: f.type ::
          (f.data ++ crcAndFooter f ++ tail).take m := by
      rw [Frame.bytes_cons]
      rfl
    have hskip : ((f.bytes ++ tail).take (m + 5)).drop (6 + (f.data.length + 3)) =
        tail.take (m + 5 - (f.data.length + 9)) := by
      rw [List.drop_take, show 6 + (f.data.length + 3) = f.bytes.length by rw [Frame.length_bytes]; omega,
        List.drop_left, Frame.length_bytes]
    rw [hread] at hskip ⊢
    rw [needsBusyReply.eq_def]
    simp only [be16_header, and_self, ne_eq, not_true_eq_false, if_false, Frame.length_field]
    split
    · rename_i h
      exact iff_of_true rfl (.inl (hask.mp h))
    · rename_i h
      rw [hskip, or_iff_right (mt hask.mpr h)]

/-! ## Where frames and reads lie -/

@[simp] theorem frameStart_zero (frames : List Frame) : frameStart frames 0 = 0 := rfl

theorem frameStart_cons (f : Frame) (frames : List Frame) (k : Nat) :
    frameStart (f :: frames) (k + 1) = f.bytes.length + frameStart frames k := by
  simp [frameStart]

theorem frameStart_succ {frames : List Frame} {k : Nat} {f : Frame} (h : frames[k]? = some f) :
    frameStart frames (k + 1) = frameStart frames k + f.bytes.length := by
  simp [frameStart, List.take_add_one, h]

theorem frameStart_add (frames : List Frame) (k m : Nat) :
    frameStart frames (k + m) = frameStart frames k + frameStart (frames.drop k) m := by
  simp [frameStart, List.take_add]

theorem frameStart_mono (frames : List Frame) {k k' : Nat} (h : k ≤ k') :
    frameStart frames k ≤ frameStart frames k' := by
  obtain ⟨m, rfl⟩ := Nat.exists_eq_add_of_le h
  rw [frameStart_add]
  exact Nat.le_add_right ..

theorem drop_frameStart (frames : List Frame) (k : Nat) :
    (frames.flatMap Frame.bytes).drop (frameStart frames k) = (frames.drop k).flatMap Frame.bytes := by
  have hsplit : frames.flatMap Frame.bytes
      = (frames.take k).flatMap Frame.bytes ++ (frames.drop k).flatMap Frame.bytes := by
    rw [← List.flatMap_append, List.take_append_drop]
  rw [hsplit]
  exact List.drop_left ..

/-- Every place in a stream is the start of a frame, or inside one. -/
theorem exists_frame_at (frames : List Frame) (pos : Nat)
    (h : pos ≤ (frames.flatMap Frame.bytes).length) :
    ∃ k ≤ frames.length, pos = frameStart frames k ∨
      ∃ f, frames[k]? = some f ∧ frameStart frames k < pos ∧ pos < frameStart frames (k + 1) := by
  induction frames generalizing pos with
  | nil => exact ⟨0, le_rfl, .inl (by simpa using h)⟩
  | cons f frames ih =>
    obtain rfl | hpos := Nat.eq_zero_or_pos pos
    · exact ⟨0, Nat.zero_le _, .inl rfl⟩
    obtain hinside | hbeyond := Nat.lt_or_ge pos f.bytes.length
    · refine ⟨0, Nat.zero_le _, .inr ⟨f, rfl, hpos, ?_⟩⟩
      rw [frameStart_cons]
      exact Nat.lt_add_right _ hinside
    · rw [List.flatMap_cons, List.length_append] at h
      obtain ⟨k, hk, hat⟩ := ih (pos - f.bytes.length) (by omega)
      refine ⟨k + 1, Nat.succ_le_succ hk, ?_⟩
      rw [frameStart_cons]
      obtain hstart | ⟨g, hg, hafter, hbefore⟩ := hat
      · exact .inl (by omega)
      · exact .inr ⟨g, hg, by omega, by rw [frameStart_cons]; omega⟩

/-- The scan over the first `n` bytes of a stream of frames. -/
theorem needsBusyReply_frames (frames : List Frame) (n : Nat)
    (hn : n ≤ (frames.flatMap Frame.bytes).length) :
    needsBusyReply ((frames.flatMap Frame.bytes).take n) = true ↔
      ∃ k f, frames[k]? = some f ∧ asksForReply f (n - frameStart frames k) := by
  induction frames generalizing n with
  | nil => simp [needsBusyReply]
  | cons f frames ih =>
    rw [List.flatMap_cons, List.length_append] at hn
    rw [List.flatMap_cons, needsBusyReply_frame f _ n hn, ih _ (by omega)]
    constructor
    · rintro (hask | ⟨k, g, hg, hask⟩)
      · exact ⟨0, f, rfl, hask⟩
      · refine ⟨k + 1, g, hg, ?_⟩
        rwa [frameStart_cons, ← Nat.sub_sub]
    · rintro ⟨k, g, hg, hask⟩
      cases k with
      | zero =>
        obtain rfl : f = g := by simpa using hg
        exact .inl hask
      | succ k =>
        rw [frameStart_cons, ← Nat.sub_sub] at hask
        exact .inr ⟨k, g, by simpa using hg, hask⟩

namespace OtherClient

variable {c : OtherClient} {j k : Nat} {f : Frame} {read : List UInt8}

theorem readStart_succ (h : c.reads[j]? = some read) :
    readStart c.reads (j + 1) = readStart c.reads j + read.length := by
  simp [readStart, List.take_add_one, h]

theorem readStart_le (h : c.reads[j]? = some read) :
    readStart c.reads j + read.length ≤ (c.frames.flatMap Frame.bytes).length := by
  rw [← readStart_succ h, ← c.split, List.length_append]
  refine Nat.le_add_right_of_le ?_
  conv_rhs => rw [← List.take_append_drop (j + 1) c.reads, List.flatten_append, List.length_append]
  exact Nat.le_add_right ..

theorem read_eq (h : c.reads[j]? = some read) :
    ((c.frames.flatMap Frame.bytes).drop (readStart c.reads j)).take read.length = read := by
  have hreads : c.reads = c.reads.take j ++ read :: c.reads.drop (j + 1) := by
    obtain ⟨hj, rfl⟩ := List.getElem?_eq_some_iff.mp h
    rw [← List.drop_eq_getElem_cons hj, List.take_append_drop]
  have hstream : c.frames.flatMap Frame.bytes
      = (c.reads.take j).flatten ++ (read ++ ((c.reads.drop (j + 1)).flatten ++ c.rest)) := by
    rw [← c.split]
    conv_lhs => rw [hreads]
    simp
  rw [hstream, readStart, List.drop_left, List.take_left]

/-- A read that holds some bytes without a header, and then a stream from the start of frame `k` on. -/
theorem needsBusyReply_read (hread : c.reads[j]? = some read) {before : List UInt8}
    (hdrop : (c.frames.flatMap Frame.bytes).drop (readStart c.reads j)
      = before ++ (c.frames.drop k).flatMap Frame.bytes)
    (hstart : readStart c.reads j + before.length = frameStart c.frames k)
    (hfirst : ∀ m g, c.frames[m]? = some g → readStart c.reads j ≤ frameStart c.frames m → k ≤ m)
    (hclear : ¬ [headerHigh, headerLow] <:+: before.take read.length)
    (hlast : before.getLast? ≠ some headerHigh) :
    needsBusyReply read = true ↔ c.Shows j := by
  have hbound := readStart_le hread
  have hroom : read.length - before.length ≤ ((c.frames.drop k).flatMap Frame.bytes).length := by
    have hlength := congrArg List.length hdrop
    rw [List.length_drop, List.length_append] at hlength
    omega
  -- The read is what is left of the cut frame and then whole frames, as far as it goes.
  have hbytes : read = before.take read.length
      ++ ((c.frames.drop k).flatMap Frame.bytes).take (read.length - before.length) := by
    conv_lhs => rw [← read_eq hread, hdrop, List.take_append]
  have hjoin : ((c.frames.drop k).flatMap Frame.bytes).take (read.length - before.length) = [] ∨
      (before.take read.length).getLast? ≠ some headerHigh := by
    obtain hle | hlt := Nat.le_total read.length before.length
    · exact .inl (by rw [Nat.sub_eq_zero_of_le hle, List.take_zero])
    · exact .inr (by rwa [List.take_of_length_le hlt])
  rw [hbytes, needsBusyReply_append hclear hjoin, needsBusyReply_frames _ _ hroom, Shows,
    readStart_succ hread]
  constructor
  · rintro ⟨m, g, hg, hask⟩
    rw [List.getElem?_drop] at hg
    have hm := frameStart_add c.frames k m
    refine ⟨k + m, g, hg, by omega, ?_⟩
    rwa [show readStart c.reads j + read.length - frameStart c.frames (k + m)
      = read.length - before.length - frameStart (c.frames.drop k) m by omega]
  · rintro ⟨m, g, hg, hle, hask⟩
    obtain ⟨i, rfl⟩ := Nat.exists_eq_add_of_le (hfirst m g hg hle)
    have hi := frameStart_add c.frames k i
    refine ⟨i, g, by rwa [List.getElem?_drop], ?_⟩
    rwa [show read.length - before.length - frameStart (c.frames.drop k) i
      = readStart c.reads j + read.length - frameStart c.frames (k + i) by omega]

/-- The scan of a clear read. -/
theorem needsBusyReply_iff_shows (hread : c.reads[j]? = some read) (hclear : c.Clear j read) :
    needsBusyReply read = true ↔ c.Shows j := by
  have hbound := readStart_le hread
  -- The read begins with a frame, or in the middle of one, whose rest has no header pair.
  obtain ⟨k, hk, hstart | ⟨f, hf, hafter, hbefore⟩⟩ :=
    exists_frame_at c.frames (readStart c.reads j) (by omega)
  · have hsplit : (c.frames.flatMap Frame.bytes).drop (readStart c.reads j)
        = [] ++ (c.frames.drop k).flatMap Frame.bytes := by
      rw [hstart, drop_frameStart, List.nil_append]
    refine needsBusyReply_read hread hsplit ?_ ?_ ?_ nofun
    · simpa using hstart
    · intro m g hg hle
      by_contra! hlt
      have hnext := frameStart_succ hg
      have hmono := frameStart_mono c.frames hlt
      have hlength := Frame.length_bytes g
      rw [Nat.succ_eq_add_one] at hmono
      omega
    · rw [List.take_nil]
      intro h
      simpa using h.length_le
  · have hnext := frameStart_succ hf
    have hsplit : (c.frames.flatMap Frame.bytes).drop (readStart c.reads j)
        = f.bytes.drop (readStart c.reads j - frameStart c.frames k)
          ++ (c.frames.drop (k + 1)).flatMap Frame.bytes := by
      have hpos : readStart c.reads j
          = frameStart c.frames k + (readStart c.reads j - frameStart c.frames k) := by omega
      obtain ⟨hlt, hget⟩ := List.getElem?_eq_some_iff.mp hf
      conv_lhs =>
        rw [hpos, ← List.drop_drop, drop_frameStart, List.drop_eq_getElem_cons hlt, hget,
          List.flatMap_cons]
      rw [List.drop_append_of_le_length (by omega)]
    refine needsBusyReply_read hread hsplit ?_ ?_ (hclear k f hf hafter hbefore) ?_
    · rw [List.length_drop]
      omega
    · intro m g hg hle
      by_contra! hlt
      have hmono := frameStart_mono c.frames (Nat.lt_succ_iff.mp hlt)
      omega
    · rw [List.getLast?_drop, if_neg (by omega), Frame.getLast?_bytes]
      decide

/-- The first two bytes of a command are enough to need a reply. -/
theorem asksForReply_of_isCommand (hcommand : isCommand f) {n : Nat} (hn : 2 ≤ n) :
    asksForReply f n := by
  refine ⟨hn, ?_⟩
  obtain ⟨htype, hdata⟩ | htype | htype := hcommand
  · exact .inr (.inr (.inl ⟨htype, .inr hdata⟩))
  all_goals
    refine .inr (.inr (.inr ?_))
    rw [htype]
    decide

/-- Every command that is discarded overlaps a clear read that holds the header of a frame which needs
a reply. -/
def Shown (c : OtherClient) : Prop :=
  ∀ k f, c.Discarded k f → isCommand f →
    ∃ j read, c.reads[j]? = some read ∧ c.Overlaps k j ∧ c.Clear j read ∧ c.Shows j

/-- A command whose header comes in one clear read is shown by it. -/
theorem shown_of_headers_whole
    (h : ∀ k f, c.Discarded k f → isCommand f →
      ∃ j read, c.reads[j]? = some read ∧ c.Clear j read ∧
        readStart c.reads j ≤ frameStart c.frames k ∧
        frameStart c.frames k + 2 ≤ readStart c.reads (j + 1)) :
    c.Shown := by
  intro k f hlost hcommand
  obtain ⟨j, read, hread, hclear, hle, hheader⟩ := h k f hlost hcommand
  have hnext := frameStart_succ hlost.1
  have hlength := Frame.length_bytes f
  exact ⟨j, read, hread, ⟨by omega, by omega⟩, hclear, k, f, hlost.1, hle,
    asksForReply_of_isCommand hcommand (by omega)⟩

end OtherClient

/-- A client is told of every command it loses where each of them overlaps a clear read that shows a
frame which needs a reply, and in clear reads only there. -/
theorem told_iff_shown (c : OtherClient) :
    (c.Shown → c.Told) ∧
    ((∀ j read, c.reads[j]? = some read → c.Clear j read) → (c.Told ↔ c.Shown)) := by
  have htold : c.Shown → c.Told := by
    intro hshown k f hlost hcommand
    obtain ⟨j, read, hread, hoverlaps, hclear, hshows⟩ := hshown k f hlost hcommand
    exact ⟨j, read, hread, hoverlaps, (OtherClient.needsBusyReply_iff_shows hread hclear).mpr hshows⟩
  refine ⟨htold, fun hclear => ⟨fun h k f hlost hcommand => ?_, htold⟩⟩
  obtain ⟨j, read, hread, hoverlaps, hneeds⟩ := h k f hlost hcommand
  have hj := hclear j read hread
  exact ⟨j, read, hread, hoverlaps, hj, (OtherClient.needsBusyReply_iff_shows hread hj).mp hneeds⟩

/-! ## A header in two reads -/

def goCommand : Frame := { type := ptypeCtrlMulti, data := ascii "G0", fits := by decide }

/-- The command arrives as its first `n` bytes and the rest. -/
def commandInTwo (n : Nat) : OtherClient where
  frames := [goCommand]
  reads := [goCommand.bytes.take n, goCommand.bytes.drop n]
  rest := []
  split := by simp
  held := false
  accepts := fun _ => false

theorem told_iff_shown_two : (commandInTwo 2).Told := by
  refine (told_iff_shown (commandInTwo 2)).1 (OtherClient.shown_of_headers_whole ?_)
  intro k f hlost _
  have hk : k = 0 := by
    have hget := hlost.1
    simp only [commandInTwo] at hget
    simpa using (List.getElem?_eq_some_iff.mp hget).1
  subst hk
  refine ⟨0, _, rfl, ?_, le_rfl, by decide⟩
  intro k f _ hafter
  exact absurd hafter (Nat.not_lt_zero _)

theorem header_cut_unseen : ¬ (commandInTwo 1).Told := by
  intro h
  have hlost : (commandInTwo 1).Discarded 0 goCommand :=
    ⟨rfl, by decide, by rw [if_pos (by decide)]; rfl⟩
  obtain ⟨j, read, hread, -, hneeds⟩ := h 0 goCommand hlost (.inl ⟨rfl, by decide⟩)
  have hread : read = goCommand.bytes.take 1 ∨ read = goCommand.bytes.drop 1 := by
    match j, hread with
    | 0, hread => exact .inl (by simpa [commandInTwo, eq_comm] using hread)
    | 1, hread => exact .inr (by simpa [commandInTwo, eq_comm] using hread)
  have hunseen : needsBusyReply read = false := by
    obtain rfl | rfl := hread
    · rw [← List.append_nil (goCommand.bytes.take 1), needsBusyReply_append (by decide) (.inl rfl)]
      simp [needsBusyReply]
    · rw [← List.append_nil (goCommand.bytes.drop 1), needsBusyReply_append (by decide) (.inl rfl)]
      simp [needsBusyReply]
  rw [hunseen] at hneeds
  exact absurd hneeds nofun

end CarveraFirmware.Transfers
