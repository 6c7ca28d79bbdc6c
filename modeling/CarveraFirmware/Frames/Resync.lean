import Mathlib
import CarveraFirmware.Frames.Tracking

/-!
# Restarting after a rejected footer

Two decoders that differ only in packet bytes the next frame overwrites give the same reports on
every later input. The state a rejected footer leaves and a fresh decoder fed the last four bytes
are such a pair.
-/

namespace CarveraFirmware.Frames

open Crc FrameDecoder

/-- What a caller sees of a decoder: a report for each byte. -/
def observe (d : FrameDecoder) :
    List DecoderCall → List (DecodeResult × Option (UInt8 × List UInt8))
  | [] => []
  | .byte b now :: calls =>
    let r := d.decodeByte b now
    report r.1 r.2 :: observe r.2 calls
  | .mark :: calls => observe d.markFrame calls
  | .reset :: calls => observe d.reset calls

theorem decodeHead_result (d : FrameDecoder) (b : UInt8) (now : UInt32) :
    (d.decodeHead b now).1 = .incomplete ∨ (d.decodeHead b now).1 = .invalidLength := by
  simp only [FrameDecoder.decodeHead, FrameDecoder.takeLength]
  split_ifs <;> simp

/-- Two packets agree on what `n` bytes of a frame have filled in. -/
structure Agrees (n : Nat) (p q : Packet) : Prop where
  length : q.length = p.length
  dataLength : q.dataLength = p.dataLength
  bounds : 3 ≤ p.length.toNat ∧ p.dataLength.toNat + 3 = p.length.toNat
  type : 5 ≤ n → q.type = p.type
  data : ∀ j, j + 5 < n → j < p.dataLength.toNat → q.data j = p.data j
  crc : p.length.toNat + 2 < n → q.crc = p.crc

/-- Two decoders that only differ in parts of the packet the frame in progress has not reached. -/
def Alike (d e : FrameDecoder) : Prop :=
  ∃ q, e = { d with packet := q } ∧
    (4 ≤ d.received → d.expected = d.packet.length.toNat + 6 ∧ Agrees d.received d.packet q)

theorem touch_of_timeout {d : FrameDecoder} {now : UInt32}
    (h : (d.inProgress && d.haveLastByte && now - d.lastByteUs ≥ frameTimeoutUs) = true) :
    d.touch now = { packet := d.packet, lastByteUs := now, haveLastByte := true } := by
  simp only [FrameDecoder.touch, h, if_true]
  rfl

theorem touch_of_not_timeout {d : FrameDecoder} {now : UInt32}
    (h : ¬ (d.inProgress && d.haveLastByte && now - d.lastByteUs ≥ frameTimeoutUs) = true) :
    d.touch now = { d with lastByteUs := now, haveLastByte := true } := by
  simp only [FrameDecoder.touch, h]
  rfl

namespace Alike

variable {d e : FrameDecoder}

/-- Before the length is known the packets need not agree on anything. -/
theorem of_head {q : Packet} (h : d.received < 4) : Alike d { d with packet := q } :=
  ⟨q, rfl, fun h4 => by omega⟩

theorem markFrame (h : Alike d e) : Alike d.markFrame e.markFrame := by
  obtain ⟨q, rfl, hq⟩ := h
  exact ⟨q, rfl, hq⟩

theorem reset (h : Alike d e) : Alike d.reset e.reset := by
  obtain ⟨q, rfl, -⟩ := h
  exact ⟨q, rfl, fun h4 => by simp [FrameDecoder.reset] at h4⟩

theorem touch (h : Alike d e) (now : UInt32) : Alike (d.touch now) (e.touch now) := by
  obtain ⟨q, rfl, hq⟩ := h
  by_cases hc : (d.inProgress && d.haveLastByte && now - d.lastByteUs ≥ frameTimeoutUs) = true
  · rw [touch_of_timeout hc, touch_of_timeout (d := { d with packet := q }) hc]
    exact of_head (d := { packet := d.packet, lastByteUs := now, haveLastByte := true }) (by simp)
  · rw [touch_of_not_timeout hc, touch_of_not_timeout (d := { d with packet := q }) hc]
    exact ⟨q, rfl, hq⟩

theorem received (h : Alike d e) : e.received = d.received := by
  obtain ⟨q, rfl, -⟩ := h
  rfl

theorem huntHeader (h : Alike d e) (h0 : d.received = 0) (b : UInt8) :
    Alike (d.huntHeader b) (e.huntHeader b) := by
  obtain ⟨q, rfl, -⟩ := h
  refine ⟨q, ?_, ?_⟩
  · simp only [FrameDecoder.huntHeader]
    split <;> rfl
  · simp only [FrameDecoder.huntHeader]
    split
    · intro h4
      simp at h4
    · intro h4
      simp [h0] at h4

theorem takeLength (h : Alike d e) (b : UInt8) (now : UInt32) :
    (e.takeLength b now).1 = (d.takeLength b now).1 ∧
      Alike (d.takeLength b now).2 (e.takeLength b now).2 := by
  obtain ⟨q, rfl, -⟩ := h
  simp only [FrameDecoder.takeLength]
  split
  · exact ⟨rfl, of_head (by simp)⟩
  · by_cases hg : GoodLength d.lengthHigh b
    · rw [if_neg hg, if_neg hg]
      obtain ⟨hg1, -, hg3⟩ := hg.bounds
      refine ⟨rfl, _, rfl, fun _ => ⟨rfl, rfl, rfl, ⟨hg1, hg3⟩, ?_, ?_, ?_⟩⟩
      · intro h5
        simp at h5
      · intro j hj
        simp only at hj
        omega
      · intro hn
        simp only at hn
        omega
    · rw [if_pos (not_not.mp hg), if_pos (not_not.mp hg)]
      refine ⟨rfl, q, ?_, ?_⟩
      · split <;> rfl
      · intro h4
        split at h4 <;> simp [keepConsumedHeader, restartWith, FrameDecoder.reset] at h4

theorem decodeHead (h : Alike d e) (b : UInt8) (now : UInt32) :
    (e.decodeHead b now).1 = (d.decodeHead b now).1 ∧
      Alike (d.decodeHead b now).2 (e.decodeHead b now).2 := by
  simp only [FrameDecoder.decodeHead, h.received]
  split
  · next h0 => exact ⟨rfl, h.huntHeader h0 b⟩
  · exact h.takeLength b now

theorem keepConsumedHeader (h : Alike d e) (now : UInt32) :
    Alike (d.keepConsumedHeader now) (e.keepConsumedHeader now) := by
  obtain ⟨q, rfl, -⟩ := h
  exact of_head (d := d.keepConsumedHeader now) (by simp [FrameDecoder.keepConsumedHeader])

theorem restartFromTrailer (h : Alike d e) (now : UInt32) :
    Alike (d.restartFromTrailer now) (e.restartFromTrailer now) := by
  have htr : e.trailer = d.trailer := by
    obtain ⟨q, rfl, -⟩ := h
    rfl
  have hk := h.keepConsumedHeader now
  simp only [FrameDecoder.restartFromTrailer, htr]
  split_ifs
  · exact hk
  · exact ((hk.touch now).decodeHead _ now).2
  · exact ((((hk.touch now).decodeHead _ now).2.touch now).decodeHead _ now).2
  · obtain ⟨q, rfl, -⟩ := h
    exact of_head (d := d.restartWith _ now) (by simp [restartWith, FrameDecoder.reset])

/-- Storing the next byte of a frame. -/
theorem storeByte (h : Alike d e) (h4 : 4 ≤ d.received) (b : UInt8) :
    Alike ({ d with received := d.received + 1 }.storeByte d.received b)
      ({ e with received := d.received + 1 }.storeByte d.received b) := by
  obtain ⟨q, rfl, hq⟩ := h
  obtain ⟨hexp, hl, hdl, ⟨hb3, hbd⟩, hty, hdata, hcrc⟩ := hq h4
  have hle : d.received ≠ 4 → 4 < d.received := by omega
  -- By the place of the byte: type and data, then the CRC, then the footer.
  rcases Nat.lt_trichotomy d.received (d.packet.length.toNat + 2) with hlt | heq | hgt
  · by_cases he4 : d.received = 4
    · rw [he4, storeByte_type _ (by exact hb3), storeByte_type _ (by simpa [hl] using hb3)]
      refine ⟨_, rfl, fun _ => ⟨hexp, hl, hdl, ⟨hb3, hbd⟩, fun _ => rfl, ?_, ?_⟩⟩
      · intro j hj
        simp at hj
      · intro hn
        simp only at hn
        omega
    · have h4' := hle he4
      rw [storeByte_data _ h4' (by exact hlt), storeByte_data _ h4' (by simpa [hl] using hlt)]
      refine ⟨_, rfl, fun _ => ⟨hexp, hl, hdl, ⟨hb3, hbd⟩, fun _ => hty (by omega), ?_, ?_⟩⟩
      · intro j hj hjd
        simp only [Function.update_apply]
        split
        · rfl
        · simp only at hj hjd
          exact hdata j (by omega) hjd
      · intro hn
        simp only at hn
        omega
  · have h4' : 4 < d.received := by omega
    rw [storeByte_crcHigh _ h4' (by exact heq), storeByte_crcHigh _ h4' (by simpa [hl] using heq)]
    refine ⟨_, rfl, fun _ => ⟨hexp, hl, hdl, ⟨hb3, hbd⟩, fun _ => hty (by omega), ?_,
      fun _ => rfl⟩⟩
    intro j hj hjd
    simp only at hj hjd
    exact hdata j (by omega) hjd
  · have h4' : 4 < d.received := by omega
    have hcrc' := hcrc hgt
    have hdata' : ∀ j, j + 5 < d.received + 1 → j < d.packet.dataLength.toNat →
        q.data j = d.packet.data j := fun j _ hjd => hdata j (by omega) hjd
    by_cases hlow : d.received = d.packet.length.toNat + 3
    · rw [storeByte_crcLow _ h4' (by exact hlow), storeByte_crcLow _ h4' (by simpa [hl] using hlow)]
      refine ⟨_, rfl, fun _ => ⟨hexp, hl, hdl, ⟨hb3, hbd⟩, fun _ => hty (by omega), hdata', ?_⟩⟩
      intro _
      simp only [hcrc']
    · rw [storeByte_footer _ h4' (by simp only; omega),
        storeByte_footer _ h4' (by simp only [hl]; omega)]
      exact ⟨_, rfl, fun _ => ⟨hexp, hl, hdl, ⟨hb3, hbd⟩, fun _ => hty (by omega), hdata',
        fun _ => hcrc'⟩⟩

/-- The last byte of a frame has the same outcome. -/
theorem finishFrame (h : Alike d e) (h4 : 4 ≤ d.received) (hall : d.expected ≤ d.received)
    (position : Nat) (b : UInt8) (now : UInt32) :
    report (e.finishFrame position b now).1 (e.finishFrame position b now).2 =
        report (d.finishFrame position b now).1 (d.finishFrame position b now).2 ∧
      Alike (d.finishFrame position b now).2 (e.finishFrame position b now).2 := by
  have hrestart := h.restartFromTrailer now
  have hreset := h.reset
  obtain ⟨q, rfl, hq⟩ := h
  obtain ⟨hexp, hl, hdl, ⟨hb3, hbd⟩, hty, hdata, hcrc⟩ := hq h4
  have hpay : q.payload = d.packet.payload := by
    simp only [Packet.payload, hdl]
    apply List.map_congr_left
    intro j hj
    rw [List.mem_range] at hj
    exact hdata j (by omega) hj
  simp only [FrameDecoder.finishFrame, hcrc (by omega)]
  split
  · exact ⟨by simp [report], hrestart⟩
  · split
    · exact ⟨by simp [report], hreset⟩
    · refine ⟨?_, hreset⟩
      simp only [report, FrameDecoder.reset, hty (by omega), hpay]

theorem decodeByte (h : Alike d e) (b : UInt8) (now : UInt32) :
    report (e.decodeByte b now).1 (e.decodeByte b now).2 =
        report (d.decodeByte b now).1 (d.decodeByte b now).2 ∧
      Alike (d.decodeByte b now).2 (e.decodeByte b now).2 := by
  have ht := h.touch now
  have hr := ht.received
  by_cases h4 : (d.touch now).received < 4
  · rw [decodeByte_before_length d b now h4, decodeByte_before_length e b now (by omega)]
    obtain ⟨h1, h2⟩ := ht.decodeHead b now
    refine ⟨?_, h2⟩
    obtain hd | hd := decodeHead_result (d.touch now) b now <;> simp [report, h1, hd]
  · have h4' : 4 ≤ (d.touch now).received := Nat.not_lt.mp h4
    rw [decodeByte_store b h4', decodeByte_store b (by omega)]
    simp only [hr]
    have hs := ht.storeByte h4' b
    obtain ⟨q, he, -⟩ := id hs
    have hexp := congrArg expected he
    simp only at hexp
    rw [hexp]
    split
    · exact ⟨by simp [report], hs⟩
    · next hlt =>
      exact hs.finishFrame (by rw [received_storeByte]; simp only; omega)
        (by rw [received_storeByte]; exact Nat.not_lt.mp hlt) _ b now

end Alike

/-- Alike decoders cannot be told apart. -/
theorem Alike.observe {d e : FrameDecoder} (h : Alike d e) (calls : List DecoderCall) :
    Frames.observe e calls = Frames.observe d calls := by
  induction calls generalizing d e with
  | nil => rfl
  | cons c calls ih =>
    cases c with
    | byte b now =>
      obtain ⟨hrep, hnext⟩ := h.decodeByte b now
      simp only [Frames.observe, hrep, ih hnext]
    | mark => exact ih h.markFrame
    | reset => exact ih h.reset

theorem alike_scanFour (p q : Packet) (now : UInt32) (b₁ b₂ b₃ b₄ : UInt8) :
    Alike (scanFour p now b₁ b₂ b₃ b₄) (scanFour q now b₁ b₂ b₃ b₄) := by
  simp only [scanFour]
  split
  · exact Alike.of_head (d := headerFound p now) (by simp [headerFound])
  · split
    · exact Alike.of_head (d := lengthStarted p now b₄) (by simp [lengthStarted])
    · split
      · next h =>
        obtain ⟨h1, -, h3⟩ := h.2.bounds
        refine ⟨_, rfl, fun _ => ⟨rfl, rfl, rfl, ⟨h1, h3⟩, ?_, ?_, ?_⟩⟩
        · intro h5
          simp [lengthFound] at h5
        · intro j hj
          simp only [lengthFound] at hj
          omega
        · intro hn
          simp only [lengthFound] at hn
          omega
      · exact Alike.of_head (d := hunting p now b₄) (by simp [hunting])

/-- A fresh decoder after a history of bytes, the last one first. -/
def freshAfter (hist : History) : FrameDecoder :=
  hist.reverse.foldl (fun d x => (d.decodeByte x.1 x.2).2) {}

/-- After a rejected footer the decoder goes on like a fresh one that was fed the last four bytes. -/
theorem alike_after_invalidFooter {hist : History} {d : FrameDecoder} (h : Tracks hist d)
    {b : UInt8} {now : UInt32} (hr : (d.decodeByte b now).1 = .invalidFooter) :
    4 ≤ ((b, now) :: hist).length ∧
      Alike (d.decodeByte b now).2 (freshAfter (((b, now) :: hist).take 4)) := by
  obtain ht | ⟨ht, hgap⟩ := h.touch now
  · rw [decodeByte_of_reset b ht] at hr
    cases hr
  by_cases h4 : d.received < 4
  · rw [decodeByte_before_length d b now (by rw [ht]; exact h4)] at hr
    obtain hd | hd := decodeHead_result (d.touch now) b now <;> simp [hd] at hr
  have h4' : 4 ≤ d.received := Nat.not_lt.mp h4
  have hg := hgap (inProgress_of_received (by omega))
  have hcl := h.close_next (b := b) (inProgress_of_received (by omega)) hg
  rw [decodeByte_store b (by rw [ht]; exact h4'), ht] at hr ⊢
  simp only at hr ⊢
  obtain ⟨-, -, ee, -⟩ := storeByte_frame { d with
    lastByteUs := now, haveLastByte := true, received := d.received + 1 } d.received b
  rw [ee] at hr ⊢
  by_cases hlt : d.received + 1 < d.expected
  · rw [if_pos hlt] at hr
    cases hr
  rw [if_neg hlt] at hr ⊢
  obtain ⟨r, -, hne, -, hfin⟩ | ⟨x₁, x₂, x₃, rest, rfl, hfin⟩ :=
    h.finishFrame h4' hlt b now
  · rw [hfin] at hr
    exact absurd hr hne
  rw [hfin]
  have hclose := hcl.mono (m := 4) (by omega)
  have hfour : freshAfter (((b, now) :: x₃ :: x₂ :: x₁ :: rest).take 4) =
      scanFour {} now x₁.1 x₂.1 x₃.1 b :=
    decode_four {} (hclose 2 x₂ x₁ (by omega) rfl rfl) (hclose 1 x₃ x₂ (by omega) rfl rfl)
      (hclose 0 (b, now) x₃ (by omega) rfl rfl)
  rw [hfour]
  exact ⟨by simp, alike_scanFour _ _ _ _ _ _ _⟩

end CarveraFirmware.Frames
