import Mathlib
import CarveraFirmware.Transfers.FileGrammar

/-!
# When the two file readers agree

The USB reader gives the frames of the packet grammar on every stream. The WiFi reader does so as
long as no frame is rejected for its length or its footer, because only a good footer puts its
buffer index back to 0, and as long as no frame ends with the first byte of a longer chunk, because
a resume index of 0 stands for "fetch the next chunk".
-/

namespace CarveraFirmware.Transfers

open Crc Frames

/-! ## Packets in the buffer -/

theorem filled_succ (xbuff : Nat → UInt8) (n : Nat) (b : UInt8) :
    filled (Function.update xbuff n b) (n + 1) = filled xbuff n ++ [b] := by
  simp only [filled, List.range_succ, List.map_append, List.map_cons, List.map_nil,
    Function.update_self]
  congr 1
  apply List.map_congr_left
  intro j hj
  rw [List.mem_range] at hj
  exact Function.update_of_ne (by omega) _ _

theorem filled_length (xbuff : Nat → UInt8) (n : Nat) : (filled xbuff n).length = n := by
  simp [filled]

theorem filled_getD (xbuff : Nat → UInt8) {n j : Nat} (h : j < n) :
    (filled xbuff n).getD j 0 = xbuff j := by
  simp [filled, h]

theorem filled_take (xbuff : Nat → UInt8) {m n : Nat} (h : m ≤ n) :
    (filled xbuff n).take m = filled xbuff m := by
  simp [filled, ← List.map_take, List.take_range, Nat.min_eq_left h]

/-- The length a packet claims is the number of bytes after its length field. -/
def Whole (packet : List UInt8) : Prop :=
  5 ≤ packet.length ∧ (be16 (packet.getD 0 0) (packet.getD 1 0)).toNat + 2 = packet.length

/-- The packet checks of both readers are `frameOf`. -/
theorem frameOf_filled {xbuff : Nat → UInt8} {n : Nat} (h : Whole (filled xbuff n)) :
    frameOf (filled xbuff n) =
      if crcMatches xbuff n = true ∧ xbuff 2 ∈ fileTypes then some (handOver xbuff) else none := by
  obtain ⟨h5, hlen⟩ := h
  rw [filled_length] at h5 hlen
  rw [filled_getD _ (by omega), filled_getD _ (by omega)] at hlen
  unfold frameOf
  rw [filled_length, if_neg (by omega), filled_getD _ (by omega), filled_getD _ (by omega),
    filled_getD _ (by omega), filled_take _ (by omega)]
  have hdata : ((filled xbuff n).drop 3).take (n - 2 - 3) =
      (List.range ((be16 (xbuff 0) (xbuff 1)).toNat - 3)).map (fun j => xbuff (3 + j)) := by
    apply List.ext_getElem
    · simp [filled]
      omega
    · intro j h1 h2
      simp [filled]
  simp only [hdata, crcMatches, handOver, beq_iff_eq]
  split_ifs <;> simp_all

/-! ## The invariant of a scan -/

/-- What the grammar knows of the packet it is in. -/
def Scan.Ok : Scan → Prop
  | .body packet need => 2 ≤ packet.length ∧ 0 < need ∧ 5 ≤ packet.length + need ∧
    (be16 (packet.getD 0 0) (packet.getD 1 0)).toNat + 2 = packet.length + need
  | .footerHigh packet => Whole packet
  | .footerLow packet _ => Whole packet
  | _ => True

theorem Scan.Ok.step {s : Scan} (h : s.Ok) (b : UInt8) : (s.step b).1.Ok := by
  cases s with
  | hunting high =>
    simp only [Scan.step]
    split <;> trivial
  | lengthHigh => trivial
  | lengthLow high =>
    simp only [Scan.step]
    split
    · next hf =>
      obtain ⟨h3, -⟩ := hf
      exact ⟨by simp, by omega, by simp; omega, by simp; omega⟩
    · trivial
  | body packet need =>
    obtain ⟨h2, h0, h5, hlen⟩ := h
    have hget (j : Nat) (hj : j < 2) : (packet ++ [b]).getD j 0 = packet.getD j 0 := by
      simp [List.getElem?_append_left (show j < packet.length by omega)]
    simp only [Scan.step]
    split
    · refine ⟨by simp; omega, ?_⟩
      rw [hget 0 (by omega), hget 1 (by omega), hlen]
      simp
      omega
    · refine ⟨by simp; omega, by omega, by simp; omega, ?_⟩
      rw [hget 0 (by omega), hget 1 (by omega), hlen]
      simp
      omega
  | footerHigh packet => exact h
  | footerLow packet high => trivial

/-! ## The USB reader -/

/-- The USB reader is where the grammar is. -/
def SerialReader.At (r : SerialReader) : Scan → Prop
  | .hunting high => r.fileParseState = .waitHeader ∧ (r.fileHeader.2 == headerHigh) = high
  | .lengthHigh => r.fileParseState = .readLength ∧ r.fileFrameIndex = 0 ∧ r.fileBytesNeeded = 2
  | .lengthLow high => r.fileParseState = .readLength ∧ r.fileFrameIndex = 1 ∧
    r.fileBytesNeeded = 1 ∧ r.xbuff 0 = high
  | .body packet need => r.fileParseState = .readData ∧ r.fileBytesNeeded = need ∧
    filled r.xbuff r.fileFrameIndex = packet
  | .footerHigh packet => r.fileParseState = .checkFooter ∧ r.fileBytesNeeded = 2 ∧
    filled r.xbuff r.fileFrameIndex = packet
  | .footerLow packet high => r.fileParseState = .checkFooter ∧ r.fileBytesNeeded = 1 ∧
    filled r.xbuff r.fileFrameIndex = packet ∧ r.fileFooter.2 = high

theorem SerialReader.At.byte {r : SerialReader} {s : Scan} (h : r.At s) (hs : s.Ok) (b : UInt8) :
    (r.byte b).1.At (s.step b).1 ∧ (r.byte b).2 = (s.step b).2.frame := by
  cases s with
  | hunting high =>
    obtain ⟨hst, rfl⟩ := h
    have hhead : (be16 r.fileHeader.2 b = header) ↔
        ((r.fileHeader.2 == headerHigh) = true ∧ b = headerLow) := by
      rw [be16_eq_header, IsHeader, beq_iff_eq]
    simp only [SerialReader.byte, hst, Scan.step, hhead]
    split
    · exact ⟨⟨rfl, rfl, rfl⟩, rfl⟩
    · exact ⟨⟨rfl, rfl⟩, rfl⟩
  | lengthHigh =>
    obtain ⟨hst, hi, hn⟩ := h
    simp only [SerialReader.byte, hst, hi, hn]
    exact ⟨⟨rfl, rfl, rfl, by simp⟩, rfl⟩
  | lengthLow high =>
    obtain ⟨hst, hi, hn, rfl⟩ := h
    have h0 : Function.update r.xbuff 1 b 0 = r.xbuff 0 := Function.update_of_ne (by omega) _ _
    simp only [SerialReader.byte, hst, hi, hn, Scan.step, h0, Function.update_self,
      Nat.reduceSub, if_true]
    by_cases hf : FileLength (r.xbuff 0) b
    · -- The length test of the reader is the grammar's own.
      rw [if_pos hf, if_pos (show 3 ≤ _ ∧ _ from hf)]
      refine ⟨⟨rfl, rfl, ?_⟩, rfl⟩
      simp [filled, List.range_succ]
    · rw [if_neg hf, if_neg (show ¬ (3 ≤ _ ∧ _) from hf)]
      exact ⟨⟨rfl, rfl⟩, rfl⟩
  | body packet need =>
    obtain ⟨hst, hn, hp⟩ := h
    have hfill : filled (Function.update r.xbuff r.fileFrameIndex b) (r.fileFrameIndex + 1) =
        packet ++ [b] := by rw [filled_succ, hp]
    simp only [SerialReader.byte, hst, hn, Scan.step]
    split
    · exact ⟨⟨rfl, rfl, hfill⟩, rfl⟩
    · exact ⟨⟨rfl, rfl, hfill⟩, rfl⟩
  | footerHigh packet =>
    obtain ⟨hst, hn, hp⟩ := h
    simp only [SerialReader.byte, hst, hn]
    exact ⟨⟨rfl, rfl, hp, rfl⟩, rfl⟩
  | footerLow packet high =>
    obtain ⟨hst, hn, hp, hf⟩ := h
    have hw : Whole (filled r.xbuff r.fileFrameIndex) := by
      rw [hp]
      exact hs
    have h5 := hw.1
    rw [filled_length] at h5
    simp only [SerialReader.byte, hst, hn, Scan.step, hf]
    refine ⟨⟨rfl, rfl⟩, ?_⟩
    simp only [Nat.sub_self, if_true]
    split
    · simp only [Outcome.frame, ← hp, frameOf_filled hw, SerialReader.checkFilePacket]
      rw [if_neg (by omega)]
      cases crcMatches r.xbuff r.fileFrameIndex <;> simp
    · rfl

/-- What a call of the USB `gets` takes from the stream and returns. -/
theorem SerialReader.At.gets {r : SerialReader} {s : Scan} (h : r.At s) (hs : s.Ok)
    (stream : List UInt8) :
    ∃ taken, stream = taken ++ (r.gets stream).2.2 ∧ (r.gets stream).1.At (s.run taken) ∧
      (s.run taken).Ok ∧
      (s.outcomes taken).filterMap Outcome.frame = (r.gets stream).2.1.toList ∧
      ((r.gets stream).2.2 = [] ∨ (r.gets stream).2.2.length < stream.length) := by
  induction stream generalizing r s with
  | nil => exact ⟨[], rfl, h, hs, rfl, .inl rfl⟩
  | cons b bs ih =>
    obtain ⟨hnext, hframe⟩ := h.byte hs b
    generalize hr : r.byte b = rb at hnext hframe
    obtain ⟨r', frame⟩ := rb
    simp only at hnext hframe
    cases frame with
    | some frame =>
      have hg : r.gets (b :: bs) = (r', some frame, bs) := by simp only [SerialReader.gets, hr]
      rw [hg]
      refine ⟨[b], rfl, hnext, hs.step b, ?_, .inr (by simp)⟩
      simp [Scan.outcomes, ← hframe]
    | none =>
      have hg : r.gets (b :: bs) = r'.gets bs := by simp only [SerialReader.gets, hr]
      obtain ⟨taken, h1, h2, h3, h4, h5⟩ := ih hnext (hs.step b)
      rw [hg]
      refine ⟨b :: taken, by rw [List.cons_append, ← h1], h2, h3, ?_, ?_⟩
      · simp only [Scan.outcomes, List.filterMap_cons, ← hframe]
        exact h4
      · rcases h5 with h5 | h5
        · exact .inl h5
        · exact .inr (by simp only [List.length_cons]; omega)

theorem SerialReader.At.calls {r : SerialReader} {s : Scan} (h : r.At s) (hs : s.Ok)
    {stream : List UInt8} {n : Nat} (hn : stream.length ≤ n) :
    (SerialReader.calls n r stream).1 = (s.outcomes stream).filterMap Outcome.frame := by
  induction n generalizing r s stream with
  | zero =>
    obtain rfl : stream = [] := List.eq_nil_of_length_eq_zero (by omega)
    rfl
  | succ n ih =>
    obtain ⟨taken, h1, h2, h3, h4, h5⟩ := h.gets hs stream
    have hlen : (r.gets stream).2.2.length ≤ n := by
      rcases h5 with h5 | h5
      · simp [h5]
      · omega
    have hrest := ih h2 h3 hlen
    conv_rhs => rw [h1, Scan.outcomes_append, List.filterMap_append, h4, ← hrest]
    rfl

/-- The USB reader gives the frames of the grammar. -/
theorem serial_calls {stream : List UInt8} {n : Nat} (hn : stream.length ≤ n) :
    (SerialReader.calls n {} stream).1 = fileFrames stream :=
  SerialReader.At.calls (s := .hunting false) ⟨rfl, rfl⟩ trivial hn

/-! ## The WiFi reader -/

/-- The WiFi parser is where the grammar is, with nothing left over from an earlier frame. -/
def WifiParser.At (w : WifiParser) : Scan → Prop
  | .hunting high => w.currentState = .waitHeader ∧ w.ptrXbuff = 0 ∧
    (w.headerBuffer.2 == headerHigh) = high
  | .lengthHigh => w.currentState = .readLength ∧ w.ptrXbuff = 0 ∧ w.bytesNeeded = 2 ∧
    w.headerBuffer.2 = headerLow
  | .lengthLow high => w.currentState = .readLength ∧ w.ptrXbuff = 1 ∧ w.bytesNeeded = 1 ∧
    w.headerBuffer.2 = headerLow ∧ w.xbuff 0 = high
  | .body packet need => w.currentState = .readData ∧ w.bytesNeeded = need ∧
    w.headerBuffer.2 = headerLow ∧ filled w.xbuff w.ptrXbuff = packet ∧
    packet.length + need < xbuffLength
  | .footerHigh packet => w.currentState = .checkFooter ∧ w.bytesNeeded = 2 ∧
    w.headerBuffer.2 = headerLow ∧ filled w.xbuff w.ptrXbuff = packet
  | .footerLow packet high => w.currentState = .checkFooter ∧ w.bytesNeeded = 1 ∧
    w.headerBuffer.2 = headerLow ∧ filled w.xbuff w.ptrXbuff = packet ∧ w.footerBuffer.2 = high

/-- A length for which the WiFi buffer has room. -/
def Scan.Roomy : Scan → UInt8 → Prop
  | .lengthLow high, b => (be16 high b).toNat + 2 < xbuffLength
  | _, _ => True

instance : ∀ (s : Scan) (b : UInt8), Decidable (s.Roomy b)
  | .lengthLow _, _ => inferInstanceAs (Decidable (_ < _))
  | .hunting _, _ | .lengthHigh, _ | .body _ _, _ | .footerHigh _, _ | .footerLow _ _, _ =>
    isTrue trivial

/-- A byte that rejects no frame for its length or footer, and no length the WiFi buffer has no
room for. -/
def Scan.Takes (s : Scan) (b : UInt8) : Prop :=
  (s.step b).2 ≠ .badLength ∧ (s.step b).2 ≠ .badFooter ∧ s.Roomy b

instance (s : Scan) (b : UInt8) : Decidable (s.Takes b) := inferInstanceAs (Decidable (_ ∧ _))

/-- What the WiFi loop does at a byte: go on, or return with the packet that ends there. -/
def Outcome.returns : Outcome → Option (Option FileFrame)
  | .packet bytes => some (frameOf bytes)
  | _ => none

theorem WifiParser.At.byte {w : WifiParser} {s : Scan} (h : w.At s) (hs : s.Ok) {b : UInt8}
    (hb : s.Takes b) :
    (w.byte b).1.At (s.step b).1 ∧ (w.byte b).2 = (s.step b).2.returns := by
  cases s with
  | hunting high =>
    obtain ⟨hst, hp, rfl⟩ := h
    have hhead : (be16 w.headerBuffer.2 b = header) ↔
        ((w.headerBuffer.2 == headerHigh) = true ∧ b = headerLow) := by
      rw [be16_eq_header, IsHeader, beq_iff_eq]
    simp only [WifiParser.byte, hst, Scan.step, hhead]
    split
    · next hc => exact ⟨⟨rfl, hp, rfl, hc.2⟩, rfl⟩
    · exact ⟨⟨rfl, hp, rfl⟩, rfl⟩
  | lengthHigh =>
    obtain ⟨hst, hp, hn, hh⟩ := h
    have hbig : ¬ 0 + 1 ≥ xbuffLength := by decide
    simp only [WifiParser.byte, hst, hp, hn, if_neg hbig]
    exact ⟨⟨rfl, rfl, rfl, hh, by simp⟩, rfl⟩
  | lengthLow high =>
    obtain ⟨hst, hp, hn, hh, rfl⟩ := h
    obtain ⟨hlen, -, hroom⟩ := hb
    have hf : FileLength (w.xbuff 0) b := by
      by_contra hf
      simp [Scan.step, hf] at hlen
    have hr : (be16 (w.xbuff 0) b).toNat + 2 < xbuffLength := hroom
    have h0 : Function.update w.xbuff 1 b 0 = w.xbuff 0 := Function.update_of_ne (by omega) _ _
    -- The WiFi parser admits any length that its buffer holds, so also one that the grammar takes.
    have hwide : 0 < (be16 (w.xbuff 0) b).toNat ∧ (be16 (w.xbuff 0) b).toNat ≤ xbuffLength :=
      ⟨by have := hf.1; omega, by omega⟩
    have hbig : ¬ 1 + 1 ≥ xbuffLength := by decide
    simp only [WifiParser.byte, hst, hp, hn, if_neg hbig, Nat.reduceSub, if_true, h0,
      Function.update_self, if_pos hwide, Scan.step, if_pos hf]
    refine ⟨⟨rfl, rfl, hh, ?_, ?_⟩, rfl⟩
    · simp [filled, List.range_succ]
    · simp only [List.length_cons, List.length_nil]
      omega
  | body packet need =>
    obtain ⟨hst, hn, hh, hp, hroom⟩ := h
    obtain ⟨-, h0, -, -⟩ := hs
    have hplen : packet.length = w.ptrXbuff := by rw [← hp, filled_length]
    have hsat : ¬ w.ptrXbuff + 1 ≥ xbuffLength := by omega
    have hfill : filled (Function.update w.xbuff w.ptrXbuff b) (w.ptrXbuff + 1) =
        packet ++ [b] := by rw [filled_succ, hp]
    simp only [WifiParser.byte, hst, hn, Scan.step, if_neg hsat]
    split
    · exact ⟨⟨rfl, rfl, hh, hfill⟩, rfl⟩
    · refine ⟨⟨rfl, rfl, hh, hfill, ?_⟩, rfl⟩
      simp only [List.length_append, List.length_singleton]
      omega
  | footerHigh packet =>
    obtain ⟨hst, hn, hh, hp⟩ := h
    simp only [WifiParser.byte, hst, hn]
    exact ⟨⟨rfl, rfl, hh, hp, rfl⟩, rfl⟩
  | footerLow packet high =>
    obtain ⟨hst, hn, hh, hp, hf⟩ := h
    obtain ⟨-, hfoot, -⟩ := hb
    have hgood : be16 high b = footer := by
      by_contra hc
      simp [Scan.step, hc] at hfoot
    have hw : Whole (filled w.xbuff w.ptrXbuff) := by
      rw [hp]
      exact hs
    simp only [WifiParser.byte, hst, hn, Scan.step, hf, if_pos hgood, Nat.reduceSub, if_true,
      WifiParser.checkFilePacket, Outcome.returns, ← hp, frameOf_filled hw]
    refine ⟨⟨rfl, rfl, ?_⟩, trivial⟩
    rw [hh]
    decide

/-- A stream in which no frame is rejected for its length or its footer. -/
def Clean (s : Scan) : List UInt8 → Prop
  | [] => True
  | b :: bs => s.Takes b ∧ Clean (s.step b).1 bs

/-- No chunk of two or more bytes begins with the last byte of a frame. -/
def WellCut (s : Scan) : List (List UInt8) → Prop
  | [] => True
  | [] :: chunks => WellCut s chunks
  | (b :: bs) :: chunks =>
    (bs = [] ∨ (s.step b).2.returns = none) ∧ WellCut (s.run (b :: bs)) chunks

instance decidableClean : ∀ (s : Scan) (bs : List UInt8), Decidable (Clean s bs)
  | _, [] => isTrue trivial
  | s, b :: bs =>
    have := decidableClean (s.step b).1 bs
    inferInstanceAs (Decidable (_ ∧ _))

instance decidableWellCut : ∀ (s : Scan) (chunks : List (List UInt8)), Decidable (WellCut s chunks)
  | _, [] => isTrue trivial
  | s, [] :: chunks => decidableWellCut s chunks
  | s, (b :: bs) :: chunks =>
    have := decidableWellCut (s.run (b :: bs)) chunks
    inferInstanceAs (Decidable (_ ∧ _))

theorem returns_frame (o : Outcome) : o.frame = o.returns.getD none := by
  cases o <;> rfl

/-- Only the low byte of the footer ends a packet. -/
theorem Scan.step_returns {s : Scan} {b : UInt8} {frame : Option FileFrame}
    (h : (s.step b).2.returns = some frame) : b = footerLowByte ∧ (s.step b).1 = .hunting false := by
  cases s with
  | hunting high =>
    simp only [Scan.step] at h
    split at h <;> cases h
  | lengthHigh => cases h
  | lengthLow high =>
    simp only [Scan.step] at h
    split at h <;> cases h
  | body packet need =>
    simp only [Scan.step] at h
    split at h <;> cases h
  | footerHigh packet => cases h
  | footerLow packet high =>
    refine ⟨?_, rfl⟩
    simp only [Scan.step] at h
    split at h
    · next hf =>
      have hn := congrArg UInt16.toNat hf
      have := b.toNat_lt
      rw [be16_toNat] at hn
      simp only [← UInt8.toNat_inj, footerLowByte, UInt8.reduceToNat]
      simp only [footer, UInt16.reduceToNat] at hn
      omega
    · cases h

section Chunks

variable {r : WifiReader} {s : Scan}

theorem WifiReader.gets_resume (h : r.ptrData ≠ 0) (link : List (List UInt8)) :
    r.gets link = ((r.loop r.ptrData (r.wifiData.drop r.ptrData)).1,
      (r.loop r.ptrData (r.wifiData.drop r.ptrData)).2, link) := by
  simp only [WifiReader.gets, if_neg h]

theorem WifiReader.gets_chunk (h : r.ptrData = 0) (chunk : List UInt8) (link : List (List UInt8)) :
    r.gets (chunk :: link) = (({ r with wifiData := chunk }.loop 0 chunk).1,
      ({ r with wifiData := chunk }.loop 0 chunk).2, link) := by
  simp only [WifiReader.gets, if_pos h]

theorem WifiReader.gets_nothing (h : r.ptrData = 0) :
    r.gets [] = ({ r with wifiData := [] }, none, []) := by
  simp only [WifiReader.gets, if_pos h]

theorem WifiReader.calls_succ (n : Nat) (r : WifiReader) (link : List (List UInt8)) :
    (WifiReader.calls (n + 1) r link).1 =
      (r.gets link).2.1.toList ++ (WifiReader.calls n (r.gets link).1 (r.gets link).2.2).1 := rfl

/-- One turn of the loop over a chunk. -/
theorem WifiReader.loop_cons (h : r.parser.At s) (hs : s.Ok) {b : UInt8} (hb : s.Takes b)
    (i : Nat) (bs : List UInt8) :
    ∃ parser, parser.At (s.step b).1 ∧
      r.loop i (b :: bs) =
        let r' : WifiReader := { r with parser := parser, ptrData := if bs = [] then 0 else i }
        match (s.step b).2.returns with
        | some frame => (r', frame)
        | none => r'.loop (i + 1) bs := by
  obtain ⟨hat, hret⟩ := h.byte hs hb
  refine ⟨_, hat, ?_⟩
  rw [WifiReader.loop, ← hret]
  generalize r.parser.byte b = p
  obtain ⟨parser, ret⟩ := p
  cases ret <;> rfl

/-- The frames of the calls that follow on the link, once the chunk in the buffer is used up. -/
def LinkRead (link : List (List UInt8)) : Prop :=
  ∀ (r : WifiReader) (s : Scan) (n : Nat), r.parser.At s → s.Ok → r.ptrData = 0 →
    Clean s link.flatten → WellCut s link → link.flatten.length + link.length ≤ n →
    (WifiReader.calls n r link).1 = (s.outcomes link.flatten).filterMap Outcome.frame

/-- A chunk is read to its end, however many calls that takes. -/
theorem WifiReader.loop_chunk {link : List (List UInt8)} (hlink : LinkRead link) {n i : Nat}
    {bs : List UInt8} (hbs : bs = r.wifiData.drop i) (hp : bs = [] → r.ptrData = 0)
    (h : r.parser.At s) (hs : s.Ok) (hc : Clean s (bs ++ link.flatten))
    (hcut : WellCut (s.run bs) link)
    (hfirst : i = 0 → ∀ b rest, bs = b :: rest → rest = [] ∨ (s.step b).2.returns = none)
    (hn : bs.length + link.flatten.length + link.length ≤ n) :
    (r.loop i bs).2.toList ++ (WifiReader.calls n (r.loop i bs).1 link).1 =
      (s.outcomes (bs ++ link.flatten)).filterMap Outcome.frame := by
  induction bs generalizing r s i n with
  | nil => exact hlink r s n h hs (hp rfl) hc hcut (by simpa using hn)
  | cons b bs ih =>
    obtain ⟨hb, hrest⟩ := hc
    obtain ⟨parser, hat, hloop⟩ := r.loop_cons h hs hb i bs
    have hdrop : bs = r.wifiData.drop (i + 1) := by
      rw [← List.tail_drop, ← hbs]
      rfl
    rw [hloop]
    cases hret : (s.step b).2.returns with
    | none =>
      have hf : (s.step b).2.frame = none := by rw [returns_frame, hret]; rfl
      simp only [List.cons_append, Scan.outcomes, List.filterMap_cons, hf]
      refine ih hdrop (fun he => by simp [he]) hat (hs.step b) hrest hcut (by omega) ?_
      simp only [List.length_cons] at hn
      omega
    | some frame =>
      obtain ⟨rfl, hnext⟩ := Scan.step_returns hret
      have hf : (s.step footerLowByte).2.frame = frame := by rw [returns_frame, hret]; rfl
      have hs' := hs.step footerLowByte
      have hcut' : WellCut ((s.step footerLowByte).1.run bs) link := hcut
      rw [hnext] at hat hrest hs' hcut'
      have hgoal : (s.outcomes (footerLowByte :: bs ++ link.flatten)).filterMap Outcome.frame =
          frame.toList ++
            ((Scan.hunting false).outcomes (bs ++ link.flatten)).filterMap Outcome.frame := by
        simp only [List.cons_append, Scan.outcomes, hnext, List.filterMap_cons, hf]
        cases frame <;> rfl
      rw [hgoal]
      congr 1
      simp only [List.length_cons] at hn
      cases bs with
      | nil =>
        exact hlink { r with parser := parser, ptrData := 0 } (.hunting false) n hat hs' rfl hrest
          hcut' (by simp only [List.length_nil] at hn; omega)
      | cons c bs =>
        -- the frame ended inside the chunk: the next call reads its last byte again and goes on
        have hi : i ≠ 0 := by
          intro hi
          rcases hfirst hi _ _ rfl with h0 | h0
          · cases h0
          · rw [h0] at hret
            cases hret
        obtain ⟨m, rfl⟩ : ∃ m, n = m + 1 := ⟨n - 1, by omega⟩
        set r' : WifiReader := { r with
          parser := parser, ptrData := if c :: bs = [] then 0 else i } with hr'
        have hptr : r'.ptrData = i := by simp [hr']
        have htakes : (Scan.hunting false).Takes footerLowByte := by decide
        obtain ⟨parser', hat', hagain⟩ := r'.loop_cons hat hs' htakes i (c :: bs)
        have hgets : r'.gets link =
            (({ r' with parser := parser', ptrData := i }.loop (i + 1) (c :: bs)).1,
              ({ r' with parser := parser', ptrData := i }.loop (i + 1) (c :: bs)).2, link) := by
          have hagain' : r'.loop i (footerLowByte :: c :: bs) =
              { r' with parser := parser', ptrData := i }.loop (i + 1) (c :: bs) := hagain
          rw [WifiReader.gets_resume (by rw [hptr]; exact hi), hptr,
            show r'.wifiData.drop i = footerLowByte :: c :: bs from hbs.symm, hagain']
        rw [WifiReader.calls_succ, hgets]
        exact ih (r := { r' with parser := parser', ptrData := i }) hdrop
          (fun he => by cases he) hat' trivial hrest hcut' (by omega) (by omega)

theorem linkRead (link : List (List UInt8)) : LinkRead link := by
  induction link with
  | nil =>
    intro r s n h _ hp _ _ _
    clear h
    induction n generalizing r with
    | zero => rfl
    | succ n ih =>
      rw [WifiReader.calls_succ, WifiReader.gets_nothing hp]
      exact ih { r with wifiData := [] } hp (Nat.zero_le n)
  | cons chunk link ih =>
    intro r s n h hs hp hc hcut hn
    simp only [List.flatten_cons, List.length_append, List.length_cons] at hc hn
    obtain ⟨m, rfl⟩ : ∃ m, n = m + 1 := ⟨n - 1, by omega⟩
    have hcut' : WellCut (s.run chunk) link ∧ ∀ b rest, chunk = b :: rest →
        rest = [] ∨ (s.step b).2.returns = none := by
      cases chunk with
      | nil => exact ⟨hcut, fun b rest he => by cases he⟩
      | cons b bs =>
        refine ⟨hcut.2, fun b' rest he => ?_⟩
        cases he
        exact hcut.1
    rw [WifiReader.calls_succ, WifiReader.gets_chunk hp, List.flatten_cons]
    exact WifiReader.loop_chunk (r := { r with wifiData := chunk }) ih (i := 0) rfl (fun _ => hp) h hs hc
      hcut'.1 (fun _ => hcut'.2) (by omega)

end Chunks

/-- On such a stream the WiFi reader gives the frames of the grammar. -/
theorem wifi_calls {chunks : List (List UInt8)} (hc : Clean (.hunting false) chunks.flatten)
    (hcut : WellCut (.hunting false) chunks) {n : Nat}
    (hn : chunks.flatten.length + chunks.length ≤ n) :
    (WifiReader.calls n {} chunks).1 = fileFrames chunks.flatten :=
  linkRead chunks {} (.hunting false) n ⟨rfl, rfl, rfl⟩ trivial rfl hc hcut hn

/-! ## Agreement -/

/-- Called until the stream is exhausted, the two readers return the same frames, and neither
loses a well-formed frame that begins outside any other, as at the end of a rejected one. -/
def ReadersAgree (chunks : List (List UInt8)) : Prop :=
  ∀ n, chunks.flatten.length + chunks.length ≤ n →
    let wifi := (WifiReader.calls n {} chunks).1
    let usb := (SerialReader.calls n {} chunks.flatten).1
    wifi = usb ∧
      ∀ (pre : List UInt8) (f : SentFrame) (post : List UInt8),
        chunks.flatten = pre ++ f.bytes ++ post → Outside pre →
        (∃ rest, wifi = fileFrames pre ++ (f.type, f.data) :: rest) ∧
        ∃ rest, usb = fileFrames pre ++ (f.type, f.data) :: rest

/-- The readers agree on every stream that rejects no frame for its length or footer, however it
is cut into chunks, unless a chunk of several bytes begins with the last byte of a frame. -/
theorem readers_agree (chunks : List (List UInt8)) (hc : Clean (.hunting false) chunks.flatten)
    (hcut : WellCut (.hunting false) chunks) : ReadersAgree chunks := by
  intro n hn wifi usb
  have hw : wifi = fileFrames chunks.flatten := wifi_calls hc hcut hn
  have hu : usb = fileFrames chunks.flatten := serial_calls (by omega)
  refine ⟨hw.trans hu.symm, ?_⟩
  intro pre f post hstream hpre
  have hsent := fileFrames_sent hpre f post
  rw [← hstream] at hsent
  exact ⟨⟨_, hw.trans hsent⟩, ⟨_, hu.trans hsent⟩⟩

/-- A frame with a wrong CRC, then a good one, in two chunks. -/
theorem readers_agree_wrong_crc :
    let chunks : List (List UInt8) :=
      [[0x86, 0x68, 0x00, 0x03, 0xB4, 0x00, 0x00, 0x55, 0xAA, 0x86], packetMessage 0xB4 []]
    (Clean (.hunting false) chunks.flatten ∧ WellCut (.hunting false) chunks) ∧
      ReadersAgree chunks := by
  intro chunks
  have hc : Clean (.hunting false) chunks.flatten ∧ WellCut (.hunting false) chunks := by
    decide +kernel
  exact ⟨hc, readers_agree chunks hc.1 hc.2⟩

/-- A header with a length of 0, then a good frame: the USB reader returns the frame, the WiFi
reader does not. -/
theorem readers_differ_after_bad_length :
    ¬ ReadersAgree [[0x86, 0x68, 0x00, 0x00] ++ packetMessage 0xB4 []] := by
  intro h
  have heq := (h 14 (by decide)).1
  revert heq
  decide +kernel

end CarveraFirmware.Transfers
