import Mathlib
import CarveraFirmware.Frames.Resync

/-!
# Marked frames

`mark_frame` marks the frame the decoder is inside of. Which byte a frame begins with is only known
afterwards: the decoder finds headers among the last bytes of a frame it rejects, and starts over
from them without the mark.
-/

namespace CarveraFirmware.Frames

open FrameDecoder

/-- How many bytes were fed. -/
def byteCount (calls : List DecoderCall) : Nat :=
  calls.countP fun c => match c with
    | .byte _ _ => true
    | .mark => false
    | .reset => false

/-- `mark_frame` was called after the first of the last `n` bytes. -/
def MarkAfterFirst (n : Nat) (calls : List DecoderCall) : Prop :=
  ∃ earlier later, calls = earlier ++ .mark :: later ∧ byteCount later < n

/-- How many bytes before `b` belong to the header that is found when `b` makes the decoder reject
the frame it is inside of: a length field that is a header, or a footer that is none with a header
among the last four bytes. -/
def FrameDecoder.salvaged (d : FrameDecoder) (b : UInt8) (now : UInt32) : Nat :=
  let d := d.touch now
  if d.received = 3 then
    if be16 d.lengthHigh b = header then 1 else 0
  else if 4 ≤ d.received ∧ d.received + 1 = d.expected ∧ be16 d.footerHigh b ≠ footer then
    let trailer := (d.trailer <<< 8) ||| b.toUInt32
    if trailer &&& 0xFFFF = header.toUInt32 then 1
    else if (trailer >>> 8) &&& 0xFFFF = header.toUInt32 then 2
    else if trailer >>> 16 = header.toUInt32 ∧ GoodLength (trailer >>> 8).toUInt8 b then 3
    else 0
  else 0

/-- A decoder after the given calls. -/
def decoderAfter (p : Packet) (calls : List DecoderCall) : FrameDecoder :=
  calls.foldl DecoderCall.apply { packet := p }

/-- The frame whose first `n` bytes are the last `n` fed began inside a frame that was rejected,
was marked before that, and has not been marked since. -/
def LostMark (p : Packet) (n : Nat) (calls : List DecoderCall) : Prop :=
  ∃ earlier b now later, calls = earlier ++ .byte b now :: later ∧
    0 < (decoderAfter p earlier).salvaged b now ∧
    byteCount later + 1 + (decoderAfter p earlier).salvaged b now = n ∧
    MarkAfterFirst ((decoderAfter p earlier).salvaged b now) earlier ∧ DecoderCall.mark ∉ later

/-! ## The last call of a run -/

section LastCall

variable {n : Nat} {calls : List DecoderCall}

@[simp] theorem byteCount_concat_byte (calls : List DecoderCall) (b : UInt8) (now : UInt32) :
    byteCount (calls ++ [.byte b now]) = byteCount calls + 1 := by
  simp [byteCount]

theorem decoderAfter_concat (p : Packet) (calls : List DecoderCall) (c : DecoderCall) :
    decoderAfter p (calls ++ [c]) = c.apply (decoderAfter p calls) := by
  simp only [decoderAfter, List.foldl_append, List.foldl_cons, List.foldl_nil]

/-- Where one call of a run stands: it is the last one, or the last one comes later. -/
theorem concat_eq_append_cons {calls earlier later : List DecoderCall} {last c : DecoderCall} :
    calls ++ [last] = earlier ++ c :: later ↔
      (later = [] ∧ earlier = calls ∧ c = last) ∨
        ∃ middle, later = middle ++ [last] ∧ calls = earlier ++ c :: middle := by
  constructor
  · intro h
    obtain rfl | ⟨middle, x, rfl⟩ := List.eq_nil_or_concat' later
    · obtain ⟨rfl, hc⟩ := List.append_inj' h rfl
      exact .inl ⟨rfl, rfl, (List.cons.inj hc).1.symm⟩
    · rw [← List.cons_append, ← List.append_assoc] at h
      obtain ⟨hcalls, hlast⟩ := List.append_inj' h rfl
      exact .inr ⟨middle, by rw [(List.cons.inj hlast).1], hcalls⟩
  · rintro (⟨rfl, rfl, rfl⟩ | ⟨middle, rfl, rfl⟩)
    · rfl
    · simp

theorem not_markAfterFirst_zero : ¬ MarkAfterFirst 0 calls := by
  rintro ⟨earlier, later, -, h⟩
  exact Nat.not_lt_zero _ h

theorem markAfterFirst_byte (b : UInt8) (now : UInt32) :
    MarkAfterFirst (n + 1) (calls ++ [.byte b now]) ↔ MarkAfterFirst n calls := by
  constructor
  · rintro ⟨earlier, later, h, hcount⟩
    obtain ⟨-, -, hc⟩ | ⟨middle, rfl, rfl⟩ := concat_eq_append_cons.mp h
    · cases hc
    · rw [byteCount_concat_byte] at hcount
      exact ⟨earlier, middle, rfl, by omega⟩
  · rintro ⟨earlier, later, rfl, hcount⟩
    refine ⟨earlier, later ++ [.byte b now], by simp, ?_⟩
    rw [byteCount_concat_byte]
    omega

theorem markAfterFirst_mark (calls : List DecoderCall) (hn : 0 < n) :
    MarkAfterFirst n (calls ++ [.mark]) :=
  ⟨calls, [], rfl, hn⟩

variable {p : Packet}

theorem not_lostMark_mark : ¬ LostMark p n (calls ++ [.mark]) := by
  rintro ⟨earlier, b, now, later, h, -, -, -, hmark⟩
  obtain ⟨-, -, hc⟩ | ⟨middle, rfl, -⟩ := concat_eq_append_cons.mp h
  · cases hc
  · exact hmark (by simp)

/-- A byte that finds no header in a rejected frame loses no mark. -/
theorem lostMark_byte {b : UInt8} {now : UInt32} (h0 : (decoderAfter p calls).salvaged b now = 0) :
    LostMark p (n + 1) (calls ++ [.byte b now]) ↔ LostMark p n calls := by
  constructor
  · rintro ⟨earlier, c, t, later, h, hpos, hcount, hbefore, hmark⟩
    obtain ⟨rfl, rfl, hc⟩ | ⟨middle, rfl, rfl⟩ := concat_eq_append_cons.mp h
    · obtain ⟨rfl, rfl⟩ := DecoderCall.byte.inj hc
      omega
    · rw [byteCount_concat_byte] at hcount
      exact ⟨earlier, c, t, middle, rfl, hpos, by omega, hbefore, fun hm => hmark (by simp [hm])⟩
  · rintro ⟨earlier, c, t, later, rfl, hpos, hcount, hbefore, hmark⟩
    refine ⟨earlier, c, t, later ++ [.byte b now], by simp, hpos, ?_, hbefore, by simpa using hmark⟩
    rw [byteCount_concat_byte]
    omega

/-- A byte that finds the header in a rejected frame loses the marks made since the header's first
byte. -/
theorem lostMark_salvage {b : UInt8} {now : UInt32}
    (hpos : 0 < (decoderAfter p calls).salvaged b now)
    (h : MarkAfterFirst ((decoderAfter p calls).salvaged b now) calls) :
    LostMark p ((decoderAfter p calls).salvaged b now + 1) (calls ++ [.byte b now]) :=
  ⟨calls, b, now, [], rfl, hpos, by simp [byteCount, Nat.add_comm], h, by simp⟩

/-- A mark that was lost was made after the frame's first byte. -/
theorem LostMark.markAfterFirst (h : LostMark p n calls) : MarkAfterFirst n calls := by
  obtain ⟨earlier, b, now, later, rfl, -, rfl, ⟨first, since, rfl, hsince⟩, -⟩ := h
  refine ⟨first, since ++ .byte b now :: later, by simp, ?_⟩
  simp only [byteCount, List.countP_append, List.countP_cons, if_true] at hsince ⊢
  omega

end LastCall

/-! ## What a byte does to the mark -/

/-- The bytes of the frame in progress that have been fed. -/
def FrameDecoder.progress (d : FrameDecoder) : Nat := if d.received = 0 then 1 else d.received

/-- What a byte does to the mark: it leaves the decoder out of a frame or at a frame's first byte,
it is one more byte of the frame in progress, or it ends this frame and begins another with a header
found in it. -/
inductive MarkStep (d : FrameDecoder) (b : UInt8) (now : UInt32) : Prop
  | out (received : (d.decodeByte b now).2.received = 0)
      (unmarked : (d.decodeByte b now).2.marked = false)
  | on (inside : d.inProgress = true)
      (received : (d.decodeByte b now).2.received = d.progress + 1)
      (kept : (d.decodeByte b now).2.marked = d.marked) (none : d.salvaged b now = 0)
  | salvage (found : 0 < d.salvaged b now)
      (received : (d.decodeByte b now).2.received = d.salvaged b now + 1)
      (unmarked : (d.decodeByte b now).2.marked = false)

theorem marked_storeByte (d : FrameDecoder) (position : Nat) (b : UInt8) :
    (d.storeByte position b).marked = d.marked ∧
      (position + 1 = d.expected → (d.storeByte position b).footerHigh = d.footerHigh) := by
  unfold storeByte
  simp only
  split_ifs <;> first | exact ⟨rfl, fun _ => rfl⟩ | exact ⟨rfl, fun h => by omega⟩

theorem salvaged_scanFour {p : Packet} {now : UInt32} {b₁ b₂ b₃ b₄ : UInt8} {trailer : UInt32}
    (h : trailer = packed [b₄, b₃, b₂, b₁]) :
    let s := if trailer &&& 0xFFFF = header.toUInt32 then 1
      else if (trailer >>> 8) &&& 0xFFFF = header.toUInt32 then 2
      else if trailer >>> 16 = header.toUInt32 ∧ GoodLength (trailer >>> 8).toUInt8 b₄ then 3
      else 0
    (scanFour p now b₁ b₂ b₃ b₄).marked = false ∧
      (scanFour p now b₁ b₂ b₃ b₄).received = if s = 0 then 0 else s + 1 := by
  subst h
  simp only [low_window, middle_window, high_window, packed_last_but_one, scanFour]
  by_cases h34 : IsHeader b₃ b₄
  · simp [h34, headerFound]
  by_cases h23 : IsHeader b₂ b₃
  · simp [h34, h23, lengthStarted]
  by_cases h12 : IsHeader b₁ b₂ ∧ GoodLength b₃ b₄
  · simp [h34, h23, h12, lengthFound]
  · simp [h34, h23, h12, hunting]

section Step

variable {hist : History} {d : FrameDecoder} {b : UInt8} {now : UInt32}

/-- The last byte of a frame with the right footer. -/
theorem finishFrame_of_footer {position : Nat} (h : position + 1 = d.expected)
    (hfoot : be16 d.footerHigh b = footer) :
    d.finishFrame position b now =
      (if d.packet.crc ≠ d.calculatedCrc then .invalidCrc
        else if d.marked then .marked else .complete, d.reset) := by
  have hc : ¬ (position ≠ d.expected - 1 ∨ be16 d.footerHigh b ≠ footer) := by
    rw [← h, hfoot]
    simp
  rw [FrameDecoder.finishFrame, if_neg hc]
  simp only
  split <;> rfl

/-- The decoder with the last byte of a frame stored. -/
theorem Tracks.last_stored (h : Tracks hist d) (h4 : 4 ≤ d.received)
    (hlast : ¬ d.received + 1 < d.expected) (b : UInt8) (now : UInt32) :
    let d' := { d with
      lastByteUs := now, haveLastByte := true, received := d.received + 1 }.storeByte d.received b
    d.received + 1 = d'.expected ∧ d'.expected = d.expected ∧ d'.footerHigh = d.footerHigh ∧
      d'.marked = d.marked ∧ d'.trailer = (d.trailer <<< 8) ||| b.toUInt32 ∧
      d'.packet.length = d.packet.length := by
  intro d'
  obtain ⟨hl3, -, -, hexp, hlt⟩ := h.length h4
  obtain ⟨el, -, ee, -, -, et⟩ := storeByte_frame { d with
    lastByteUs := now, haveLastByte := true, received := d.received + 1 } d.received b
  obtain ⟨em, ef⟩ := marked_storeByte { d with
    lastByteUs := now, haveLastByte := true, received := d.received + 1 } d.received b
  have hin : d.received ≥ d.packet.length.toNat + 2 := by omega
  have hall : d.received + 1 = d.expected := by omega
  refine ⟨hall.trans ee.symm, ee, ef hall, em, ?_, el⟩
  rw [et]
  exact if_pos hin

/-- A wrong footer leaves what the last four bytes hold of a header. -/
theorem Tracks.footer_rejected (h : Tracks hist d) (h4 : 4 ≤ d.received)
    (hlast : d.received + 1 = d.expected) (hfoot : be16 d.footerHigh b ≠ footer)
    (ht : d.touch now = { d with lastByteUs := now, haveLastByte := true }) :
    (d.decodeByte b now).2.marked = false ∧
      (d.decodeByte b now).2.received =
        if d.salvaged b now = 0 then 0 else d.salvaged b now + 1 := by
  obtain ⟨er, ee, ef, -, et, -⟩ := h.last_stored h4 (by omega) b now
  obtain ⟨x₁, x₂, x₃, rest, -, hpacked⟩ := h.trailer_last h4 (by omega) b now
  have hs : d.salvaged b now =
      let trailer := (d.trailer <<< 8) ||| b.toUInt32
      if trailer &&& 0xFFFF = header.toUInt32 then 1
      else if (trailer >>> 8) &&& 0xFFFF = header.toUInt32 then 2
      else if trailer >>> 16 = header.toUInt32 ∧ GoodLength (trailer >>> 8).toUInt8 b then 3
      else 0 := by
    rw [salvaged, ht]
    simp only
    rw [if_neg (by omega), if_pos ⟨h4, hlast, hfoot⟩]
  rw [hs, decodeByte_store b (by rw [ht]; exact h4), ht]
  simp only [ee]
  rw [if_neg (by omega), FrameDecoder.finishFrame, if_pos (.inr (by rw [ef]; exact hfoot)),
    restartFromTrailer_eq hpacked]
  rw [et] at hpacked
  exact salvaged_scanFour hpacked

theorem progress_of_received (h : d.received ≠ 0) : d.progress = d.received := by
  rw [progress, if_neg h]

theorem Tracks.markStep (h : Tracks hist d) (b : UInt8) (now : UInt32) : MarkStep d b now := by
  -- A byte that comes too late finds a decoder that was reset.
  obtain ht | ⟨ht, -⟩ := h.touch now
  · have hd := decodeByte_of_reset b ht
    exact .out (by rw [hd]; rfl) (by rw [hd]; rfl)
  -- From here on the cases are those of `feed`: the header, the length, the body, the footer.
  by_cases h0 : d.received = 0
  · have hd := decodeByte_hunt b now (d := d) (by rw [ht]; exact h0)
    rw [ht] at hd
    by_cases hc : d.headerPrefix = true ∧ b = headerLow
    · obtain ⟨hpre, rfl⟩ := hc
      simp only [FrameDecoder.huntHeader, hpre, beq_self_eq_true, Bool.and_self, if_true] at hd
      refine .on (by simp [inProgress, hpre]) (by rw [hd, progress, if_pos h0]) (by rw [hd]) ?_
      rw [salvaged, ht]
      simp [h0]
    · have hif : (d.headerPrefix && b == headerLow) = false := by
        simpa using hc
      simp only [FrameDecoder.huntHeader, hif] at hd
      exact .out (by rw [hd]; exact h0) (by rw [hd]; rfl)
  have hin : d.inProgress = true := inProgress_of_received h0
  have hp := progress_of_received h0
  by_cases h4 : d.received < 4
  · have h1 := h.notOne
    have hd := decodeByte_takeLength b now (d := d) (by rw [ht]; exact h0) (by rw [ht]; exact h4)
    rw [ht] at hd
    obtain h2 | h3 : d.received = 2 ∨ d.received = 3 := by omega
    · simp only [FrameDecoder.takeLength, h2, if_true] at hd
      refine .on hin (by rw [hd, hp, h2]) (by rw [hd]) ?_
      rw [salvaged, ht]
      simp [h2]
    · have hs : d.salvaged b now = if be16 d.lengthHigh b = header then 1 else 0 := by
        rw [salvaged, ht]
        simp only [h3, if_true]
      simp only [FrameDecoder.takeLength, h3] at hd
      rw [if_neg (by decide)] at hd
      by_cases hg : GoodLength d.lengthHigh b
      · rw [if_neg hg] at hd
        have hnot := mt (be16_eq_header d.lengthHigh b).mp hg.not_isHeader
        exact .on hin (by rw [hd, hp, h3]) (by rw [hd]) (by rw [hs, if_neg hnot])
      · rw [if_pos (not_not.mp hg)] at hd
        -- A length that is refused may be the header of the frame that follows.
        by_cases hh : be16 d.lengthHigh b = header
        · rw [if_pos hh] at hd hs
          exact .salvage (by rw [hs]; exact Nat.one_pos) (by rw [hd, hs]; rfl) (by rw [hd]; rfl)
        · rw [if_neg hh] at hd
          exact .out (by rw [hd]; rfl) (by rw [hd]; rfl)
  · have h4' : 4 ≤ d.received := Nat.not_lt.mp h4
    obtain ⟨-, -, -, hexp, hlt⟩ := h.length h4'
    by_cases hnext : d.received + 1 < d.expected
    · have hs : d.salvaged b now = 0 := by
        rw [salvaged, ht]
        simp only
        rw [if_neg (by omega), if_neg (by omega)]
      obtain ⟨-, -, ee, -⟩ := storeByte_frame { d with
        lastByteUs := now, haveLastByte := true, received := d.received + 1 } d.received b
      have hd := decodeByte_store b (show 4 ≤ (d.touch now).received by rw [ht]; exact h4')
      rw [ht] at hd
      simp only [ee] at hd
      rw [if_pos hnext] at hd
      exact .on hin (by rw [hd, hp]; exact received_storeByte _ _ _)
        (by rw [hd]; exact (marked_storeByte _ _ _).1) hs
    · have hlast : d.received + 1 = d.expected := by omega
      by_cases hfoot : be16 d.footerHigh b = footer
      · obtain ⟨er, ee, ef, -, -, -⟩ := h.last_stored h4' hnext b now
        have hd := decodeByte_store b (show 4 ≤ (d.touch now).received by rw [ht]; exact h4')
        rw [ht] at hd
        simp only [ee] at hd
        rw [if_neg hnext, finishFrame_of_footer er (by rw [ef]; exact hfoot)] at hd
        exact .out (by rw [hd]; rfl) (by rw [hd]; rfl)
      · -- A footer that is refused is searched for a header; what is found there goes on.
        obtain ⟨hm, hr⟩ := h.footer_rejected h4' hlast hfoot ht
        by_cases hs : d.salvaged b now = 0
        · exact .out (by rw [hr, if_pos hs]) hm
        · exact .salvage (Nat.pos_of_ne_zero hs) (by rw [hr, if_neg hs]) hm

/-- Of the three reports of a frame with the right footer, the mark tells two apart. -/
theorem reported_marked {crc calculated : UInt16} {m : Bool}
    (h : (if crc ≠ calculated then DecodeResult.invalidCrc else if m then .marked else .complete) =
        .complete ∨
      (if crc ≠ calculated then DecodeResult.invalidCrc else if m then .marked else .complete) =
        .marked) :
    (if crc ≠ calculated then DecodeResult.invalidCrc else if m then .marked else .complete) =
      .marked ↔ m = true := by
  by_cases hcrc : crc = calculated
  · rw [if_neg (not_not.mpr hcrc)]
    cases m <;> simp
  · rw [if_pos hcrc] at h
    simp at h

/-- The byte that ends a frame says whether the decoder is marked. -/
theorem Tracks.reported (h : Tracks hist d)
    (hr : (d.decodeByte b now).1 = .complete ∨ (d.decodeByte b now).1 = .marked) :
    d.inProgress = true ∧ (d.decodeByte b now).2.packet.length.toNat + 5 = d.progress ∧
      ((d.decodeByte b now).1 = .marked ↔ d.marked = true) := by
  obtain ht | ⟨ht, -⟩ := h.touch now
  · rw [decodeByte_of_reset b ht] at hr
    simp at hr
  by_cases h4 : d.received < 4
  · rw [decodeByte_before_length d b now (by rw [ht]; exact h4)] at hr
    obtain hd | hd := decodeHead_result (d.touch now) b now <;> simp [hd] at hr
  have h4' : 4 ≤ d.received := Nat.not_lt.mp h4
  have hd := decodeByte_store b (show 4 ≤ (d.touch now).received by rw [ht]; exact h4')
  rw [ht] at hd
  simp only at hd
  by_cases hnext : d.received + 1 < d.expected
  · obtain ⟨-, -, ee, -⟩ := storeByte_frame { d with
      lastByteUs := now, haveLastByte := true, received := d.received + 1 } d.received b
    rw [ee, if_pos hnext] at hd
    rw [hd] at hr
    simp at hr
  · obtain ⟨er, ee, ef, em, -, el⟩ := h.last_stored h4' hnext b now
    obtain ⟨-, -, -, hexp, -⟩ := h.length h4'
    rw [ee, if_neg hnext] at hd
    by_cases hfoot : be16 d.footerHigh b = footer
    · rw [finishFrame_of_footer er (by rw [ef]; exact hfoot)] at hd
      rw [hd] at hr ⊢
      refine ⟨inProgress_of_received (by omega), ?_, ?_⟩
      · rw [progress_of_received (by omega)]
        simp only [FrameDecoder.reset, el]
        omega
      · rw [reported_marked hr, em]
    · rw [FrameDecoder.finishFrame, if_pos (.inr (by rw [ef]; exact hfoot))] at hd
      rw [hd] at hr
      simp at hr

end Step

/-! ## Marks change nothing but the report -/

/-- What is left of a run without its marks. -/
def unmarked (calls : List DecoderCall) : List DecoderCall :=
  calls.filter fun c => match c with
    | .byte _ _ => true
    | .mark => false
    | .reset => true

/-- A report without the mark. -/
def DecodeResult.unmark : DecodeResult → DecodeResult
  | .marked => .complete
  | r => r

/-- Two decoders that differ in the mark only. -/
def SameButMark (d e : FrameDecoder) : Prop := ∃ m, e = { d with marked := m }

namespace SameButMark

variable {d e : FrameDecoder}

theorem touch (h : SameButMark d e) (now : UInt32) : SameButMark (d.touch now) (e.touch now) := by
  obtain ⟨m, rfl⟩ := h
  by_cases hc : (d.inProgress && d.haveLastByte && now - d.lastByteUs ≥ frameTimeoutUs) = true
  · rw [touch_of_timeout hc, touch_of_timeout (d := { d with marked := m }) hc]
    exact ⟨false, rfl⟩
  · rw [touch_of_not_timeout hc, touch_of_not_timeout (d := { d with marked := m }) hc]
    exact ⟨m, rfl⟩

theorem decodeHead (h : SameButMark d e) (b : UInt8) (now : UInt32) :
    (e.decodeHead b now).1 = (d.decodeHead b now).1 ∧
      SameButMark (d.decodeHead b now).2 (e.decodeHead b now).2 := by
  obtain ⟨m, rfl⟩ := h
  simp only [FrameDecoder.decodeHead, huntHeader, takeLength]
  split_ifs
  · exact ⟨rfl, m, rfl⟩
  · exact ⟨rfl, false, rfl⟩
  · exact ⟨rfl, m, rfl⟩
  · exact ⟨rfl, false, rfl⟩
  · exact ⟨rfl, false, rfl⟩
  · exact ⟨rfl, m, rfl⟩

theorem restartFromTrailer (h : SameButMark d e) (now : UInt32) :
    e.restartFromTrailer now = d.restartFromTrailer now := by
  obtain ⟨m, rfl⟩ := h
  rfl

theorem storeByte (h : SameButMark d e) (position : Nat) (b : UInt8) :
    SameButMark (d.storeByte position b) (e.storeByte position b) := by
  obtain ⟨m, rfl⟩ := h
  unfold FrameDecoder.storeByte
  simp only
  split_ifs <;> exact ⟨m, rfl⟩

theorem finishFrame (h : SameButMark d e) (position : Nat) (b : UInt8) (now : UInt32) :
    (e.finishFrame position b now).1.unmark = (d.finishFrame position b now).1.unmark ∧
      SameButMark (d.finishFrame position b now).2 (e.finishFrame position b now).2 := by
  have hrestart := h.restartFromTrailer now
  obtain ⟨m, rfl⟩ := h
  unfold FrameDecoder.finishFrame
  simp only [hrestart]
  split
  · exact ⟨rfl, _, rfl⟩
  · split
    · exact ⟨rfl, false, rfl⟩
    · refine ⟨?_, false, rfl⟩
      cases m <;> cases d.marked <;> rfl

theorem decodeByte (h : SameButMark d e) (b : UInt8) (now : UInt32) :
    (e.decodeByte b now).1.unmark = (d.decodeByte b now).1.unmark ∧
      SameButMark (d.decodeByte b now).2 (e.decodeByte b now).2 := by
  have ht := h.touch now
  obtain ⟨m, hm⟩ := id ht
  have hreceived : (e.touch now).received = (d.touch now).received := by rw [hm]
  by_cases h4 : (d.touch now).received < 4
  · rw [decodeByte_before_length d b now h4, decodeByte_before_length e b now (by omega)]
    obtain ⟨hresult, hnext⟩ := ht.decodeHead b now
    exact ⟨congrArg _ hresult, hnext⟩
  · have h4' : 4 ≤ (d.touch now).received := Nat.not_lt.mp h4
    rw [decodeByte_store b h4', decodeByte_store b (by omega)]
    have hs : SameButMark
        ({ d.touch now with received := (d.touch now).received + 1 }.storeByte
          (d.touch now).received b)
        ({ e.touch now with received := (e.touch now).received + 1 }.storeByte
          (e.touch now).received b) := by
      rw [hm]
      exact SameButMark.storeByte ⟨m, rfl⟩ _ b
    obtain ⟨m', hm'⟩ := id hs
    have hexpected := congrArg expected hm'
    simp only at hexpected ⊢
    rw [hexpected, hreceived]
    rw [hreceived] at hs
    split
    · exact ⟨rfl, hs⟩
    · exact hs.finishFrame _ b now

end SameButMark

theorem sameButMark_after (p : Packet) (calls : List DecoderCall) :
    SameButMark (decoderAfter p (unmarked calls)) (decoderAfter p calls) := by
  induction calls using List.reverseRecOn with
  | nil => exact ⟨false, rfl⟩
  | append_singleton calls c ih =>
    rw [decoderAfter_concat]
    cases c with
    | byte b now =>
      have h : unmarked (calls ++ [.byte b now]) = unmarked calls ++ [.byte b now] := by
        simp [unmarked]
      rw [h, decoderAfter_concat]
      exact (ih.decodeByte b now).2
    | mark =>
      have h : unmarked (calls ++ [.mark]) = unmarked calls := by
        simp [unmarked]
      rw [h]
      obtain ⟨m, hm⟩ := ih
      exact ⟨_, by rw [hm]; rfl⟩
    | reset =>
      have h : unmarked (calls ++ [.reset]) = unmarked calls ++ [.reset] := by
        simp [unmarked]
      rw [h, decoderAfter_concat]
      obtain ⟨m, hm⟩ := ih
      exact ⟨false, by rw [hm]; rfl⟩

/-! ## The mark over a run -/

/-- Inside a frame the decoder is marked exactly where the frame was marked since its first byte
and the mark was not lost. -/
theorem marked_after (p : Packet) (calls : List DecoderCall)
    (h : (decoderAfter p calls).inProgress = true) :
    (decoderAfter p calls).marked = true ↔
      MarkAfterFirst (decoderAfter p calls).progress calls ∧
        ¬ LostMark p (decoderAfter p calls).progress calls := by
  induction calls using List.reverseRecOn with
  | nil => exact absurd h Bool.false_ne_true
  | append_singleton calls c ih =>
    rw [decoderAfter_concat] at h ⊢
    cases c with
    | byte b now =>
      have hstep := (tracks_reachable p calls).markStep b now
      rw [← decoderAfter] at hstep
      simp only [DecoderCall.apply] at h ⊢
      cases hstep with
      | out hreceived hunmarked =>
        -- a frame of one byte, which came after every mark
        rw [hunmarked, progress, if_pos hreceived, markAfterFirst_byte]
        exact iff_of_false Bool.false_ne_true fun hm => not_markAfterFirst_zero hm.1
      | on hin hreceived hkept hnone =>
        have hne : ((decoderAfter p calls).decodeByte b now).2.received ≠ 0 := by
          rw [hreceived]
          omega
        rw [hkept, ih hin, progress_of_received hne, hreceived, markAfterFirst_byte,
          lostMark_byte hnone]
      | salvage hfound hreceived hunmarked =>
        -- marks since the first byte of the header that is found are lost
        have hne : ((decoderAfter p calls).decodeByte b now).2.received ≠ 0 := by
          rw [hreceived]
          omega
        rw [hunmarked, progress_of_received hne, hreceived, markAfterFirst_byte]
        exact iff_of_false Bool.false_ne_true fun hm => hm.2 (lostMark_salvage hfound hm.1)
    | mark =>
      have hpos : 0 < ((decoderAfter p calls).markFrame).progress := by
        rw [progress]
        split <;> omega
      exact iff_of_true h ⟨markAfterFirst_mark calls hpos, not_lostMark_mark⟩
    | reset => exact absurd h Bool.false_ne_true

/-- A frame that the decoder completes when it is never marked is completed with the marks as well.
It is reported as marked exactly where `mark_frame` was called after its first byte, unless that
mark was lost. -/
theorem mark_reported_iff (p : Packet) (calls : List DecoderCall) (b : UInt8) (now : UInt32)
    (h : ((decoderAfter p (unmarked calls)).decodeByte b now).1 = .complete) :
    let r := (decoderAfter p calls).decodeByte b now
    (r.1 = .marked ∨ r.1 = .complete) ∧
    ((r.1 = .marked ↔ MarkAfterFirst (r.2.packet.length.toNat + 5) calls) ↔
      ¬ LostMark p (decoderAfter p calls).received calls) := by
  intro r
  have hresult := ((sameButMark_after p calls).decodeByte b now).1
  rw [h] at hresult
  have hr : r.1 = .complete ∨ r.1 = .marked := by
    revert hresult
    change r.1.unmark = _ → _
    cases r.1 <;> simp [DecodeResult.unmark]
  obtain ⟨hin, hlength, hiff⟩ := (tracks_reachable p calls).reported hr
  rw [← decoderAfter] at hin hlength hiff
  have hmarked := marked_after p calls hin
  have hreceived : (decoderAfter p calls).received ≠ 0 := by
    intro h0
    rw [progress, if_pos h0] at hlength
    omega
  rw [← progress_of_received hreceived]
  refine ⟨hr.symm, ?_⟩
  rw [hiff, hlength, hmarked]
  constructor
  · exact fun hkept hlost => (hkept.mpr hlost.markAfterFirst).2 hlost
  · exact fun hkept => and_iff_left hkept

/-- A frame marked after its first byte, but for its last byte. -/
def markedFrame : List DecoderCall :=
  .byte 0x86 0 :: .mark :: [0x68, 0x00, 0x03, 0x71, 0x3b, 0xe5, 0x55].map fun b => .byte b 0

theorem mark_reported_iff_markedFrame :
    ((decoderAfter {} markedFrame).decodeByte 0xAA 0).1 = .marked ∧
      ¬ LostMark {} (decoderAfter {} markedFrame).received markedFrame := by
  have hmarked : ((decoderAfter {} markedFrame).decodeByte 0xAA 0).1 = .marked := by decide +kernel
  refine ⟨hmarked, (mark_reported_iff {} markedFrame 0xAA 0 (by decide +kernel)).2.mp ?_⟩
  exact iff_of_true hmarked ⟨[.byte 0x86 0], _, rfl, by decide +kernel⟩

/-- The same frame begun by the last byte of one the decoder rejects: `86 68 86`, the mark, and the
second byte of the header. -/
def markedInside : List DecoderCall :=
  .byte 0x86 0 :: .byte 0x68 0 :: markedFrame

/-- The decoder takes the header for the length of the frame it is inside of, and starts over without
the mark. -/
theorem mark_lost_inside :
    let r := (decoderAfter {} markedInside).decodeByte 0xAA 0
    ((decoderAfter {} (unmarked markedInside)).decodeByte 0xAA 0).1 = .complete ∧
      MarkAfterFirst (r.2.packet.length.toNat + 5) markedInside ∧ r.1 = .complete :=
  ⟨by decide +kernel,
    ⟨[.byte 0x86 0, .byte 0x68 0, .byte 0x86 0], _, rfl, by decide +kernel⟩, by decide +kernel⟩

end CarveraFirmware.Frames
