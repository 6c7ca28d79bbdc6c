import Mathlib
import CarveraFirmware.Frames.Tracking

/-!
# Where the decoder counts and writes

The length field comes from the wire. In every state a decoder can be in, what is derived from it
stays inside the packet's buffer, and `bytes_wanted` asks for at least one byte.
-/

namespace CarveraFirmware.Frames

open FrameDecoder

/-- Where in `packet_.data` the next byte is stored, if it is a data byte. -/
def FrameDecoder.dataIndex (d : FrameDecoder) (now : UInt32) : Option Nat :=
  let position := (d.touch now).received
  if 4 < position ∧ position < (d.touch now).packet.length.toNat + 2 then some (position - 5)
  else none

/-- Writing one entry of `packet_.data`, or none. -/
def written (data : Nat → UInt8) (byte : UInt8) : Option Nat → Nat → UInt8
  | some i => Function.update data i byte
  | none => data

/-! ## What a byte does to the data and to the expected total -/

section Step

variable (d : FrameDecoder) (b : UInt8) (now : UInt32)

theorem packet_touch : (d.touch now).packet = d.packet := by
  unfold FrameDecoder.touch
  split <;> rfl

theorem data_decodeHead : (d.decodeHead b now).2.packet.data = d.packet.data := by
  simp only [decodeHead, huntHeader, takeLength]
  split_ifs <;> rfl

theorem data_restartFromTrailer : (d.restartFromTrailer now).packet.data = d.packet.data := by
  simp only [restartFromTrailer]
  split_ifs
  · rfl
  · rw [data_decodeHead, packet_touch]
    rfl
  · rw [data_decodeHead, packet_touch, data_decodeHead, packet_touch]
    rfl
  · rfl

theorem data_finishFrame (position : Nat) :
    (d.finishFrame position b now).2.packet.data = d.packet.data := by
  obtain h | h := finishFrame_state d b now position
  · rw [h, data_restartFromTrailer]
  · rw [h]
    rfl

theorem data_storeByte (position : Nat) :
    (d.storeByte position b).packet.data =
      if position ≠ 4 ∧ position < d.packet.length.toNat + 2 then
        Function.update d.packet.data (position - 5) b
      else d.packet.data := by
  simp only [storeByte]
  split_ifs <;> first | rfl | omega

/-- A byte is stored at `dataIndex` and nowhere else. -/
theorem data_decodeByte :
    (d.decodeByte b now).2.packet.data = written d.packet.data b (d.dataIndex now) := by
  by_cases h4 : (d.touch now).received < 4
  · rw [decodeByte_before_length d b now h4, data_decodeHead, packet_touch, dataIndex,
      if_neg (by omega)]
    rfl
  · rw [decodeByte_store b (Nat.not_lt.mp h4), dataIndex]
    have hstored := data_storeByte
      { d.touch now with received := (d.touch now).received + 1 } b (d.touch now).received
    simp only [packet_touch] at hstored ⊢
    have hindex : written d.packet.data b
        (if 4 < (d.touch now).received ∧ (d.touch now).received < d.packet.length.toNat + 2 then
          some ((d.touch now).received - 5) else none) =
        if (d.touch now).received ≠ 4 ∧ (d.touch now).received < d.packet.length.toNat + 2 then
          Function.update d.packet.data ((d.touch now).received - 5) b else d.packet.data := by
      by_cases hin : 4 < (d.touch now).received ∧
          (d.touch now).received < d.packet.length.toNat + 2
      · rw [if_pos hin, if_pos ⟨by omega, hin.2⟩]
        rfl
      · rw [if_neg hin, if_neg (by omega)]
        rfl
    rw [hindex, ← hstored]
    split
    · rfl
    · exact data_finishFrame _ b now _

end Step

/-! ## The expected total -/

theorem expected_decodeHead {d : FrameDecoder} (b : UInt8) (now : UInt32)
    (h : d.expected ≤ maxFrameSize) : (d.decodeHead b now).2.expected ≤ maxFrameSize := by
  simp only [decodeHead, huntHeader, takeLength]
  split_ifs with _ _ _ hbad
  · exact h
  · exact h
  · exact h
  · exact Nat.zero_le _
  · exact Nat.zero_le _
  · obtain ⟨-, hle, -⟩ := GoodLength.bounds hbad
    simp only [maxFrameSize]
    omega

theorem expected_touch {d : FrameDecoder} (now : UInt32) (h : d.expected ≤ maxFrameSize) :
    (d.touch now).expected ≤ maxFrameSize := by
  unfold FrameDecoder.touch
  split
  · exact Nat.zero_le _
  · exact h

theorem expected_restartFromTrailer (d : FrameDecoder) (now : UInt32) :
    (d.restartFromTrailer now).expected ≤ maxFrameSize := by
  have hkeep : (d.keepConsumedHeader now).expected ≤ maxFrameSize := Nat.zero_le _
  simp only [restartFromTrailer]
  split_ifs
  · exact hkeep
  · exact expected_decodeHead _ now (expected_touch now hkeep)
  · exact expected_decodeHead _ now (expected_touch now
      (expected_decodeHead _ now (expected_touch now hkeep)))
  · exact Nat.zero_le _

theorem expected_decodeByte {d : FrameDecoder} (b : UInt8) (now : UInt32)
    (h : d.expected ≤ maxFrameSize) : (d.decodeByte b now).2.expected ≤ maxFrameSize := by
  have ht := expected_touch now h
  by_cases h4 : (d.touch now).received < 4
  · rw [decodeByte_before_length d b now h4]
    exact expected_decodeHead b now ht
  · rw [decodeByte_store b (Nat.not_lt.mp h4)]
    obtain ⟨-, -, hexpected, -⟩ := storeByte_frame
      { d.touch now with received := (d.touch now).received + 1 } (d.touch now).received b
    simp only
    split
    · rw [hexpected]
      exact ht
    · obtain hend | hend := finishFrame_state
        ({ d.touch now with received := (d.touch now).received + 1 }.storeByte (d.touch now).received
          b) b now (d.touch now).received
      · rw [hend]
        exact expected_restartFromTrailer _ now
      · rw [hend]
        exact Nat.zero_le _

theorem Reachable.expected_le {d : FrameDecoder} (h : Reachable d) :
    d.expected ≤ maxFrameSize := by
  obtain ⟨p, calls, rfl⟩ := h
  induction calls using List.reverseRecOn with
  | nil => exact Nat.zero_le _
  | append_singleton calls c ih =>
    rw [List.foldl_append]
    cases c with
    | byte b now => exact expected_decodeByte b now ih
    | mark => exact ih
    | reset => exact Nat.zero_le _

theorem Reachable.tracks {d : FrameDecoder} (h : Reachable d) : ∃ hist, Tracks hist d := by
  obtain ⟨p, calls, rfl⟩ := h
  exact ⟨bytesOf calls, tracks_reachable p calls⟩

/-! ## Bounds -/

/-- In every state of a decoder the bytes received stay below the expected total once it is known,
the total fits the largest frame, `bytes_wanted` is what is missing of the header, the length or
the frame, and never nothing; and the next byte, whatever it is, is written inside the data. -/
theorem decoder_bounds {d : FrameDecoder} (h : Reachable d) :
    (4 ≤ d.received → d.received < d.expected) ∧
    d.expected ≤ maxFrameSize ∧
    0 < d.bytesWanted ∧
    (d.received = 0 → d.bytesWanted + (if d.headerPrefix then 1 else 0) = 2) ∧
    (0 < d.received → d.bytesWanted + d.received = if d.received < 4 then 4 else d.expected) ∧
    ∀ b now, (d.decodeByte b now).2.packet.data = written d.packet.data b (d.dataIndex now) ∧
      ∀ i, d.dataIndex now = some i → i < maxDataSize ∧ i + 5 = (d.touch now).received := by
  obtain ⟨hist, htracks⟩ := h.tracks
  have hbelow : 4 ≤ d.received → d.received < d.expected := fun h4 => (htracks.length h4).2.2.2.2
  refine ⟨hbelow, h.expected_le, ?_, ?_, ?_, fun b now => ⟨data_decodeByte d b now, ?_⟩⟩
  · rw [bytesWanted]
    split_ifs <;> omega
  · intro h0
    rw [bytesWanted, if_pos h0]
    split <;> rfl
  · intro hpos
    rw [bytesWanted, if_neg (by omega)]
    split <;> omega
  · intro i hi
    rw [dataIndex] at hi
    split at hi
    · next hdata =>
      obtain ⟨h4, hin⟩ := hdata
      have hlength : d.packet.length.toNat ≤ 538 := by
        obtain ht | ⟨ht, -⟩ := htracks.touch now
        · rw [ht] at h4
          exact absurd h4 (Nat.not_lt_zero 4)
        · rw [ht] at h4
          exact (htracks.length (Nat.le_of_lt h4)).2.1
      rw [packet_touch] at hin
      obtain rfl := Option.some.inj hi
      simp only [maxDataSize, maxFrameSize, frameOverhead]
      omega
    · cases hi

/-- Inside a frame of five bytes of data, past its type. -/
theorem decoder_bounds_inside :
    0 < (List.foldl DecoderCall.apply ({} : FrameDecoder) [.byte 0x86 0, .byte 0x68 1, .byte 0 2,
      .byte 8 3, .byte 0x71 4]).bytesWanted :=
  (decoder_bounds ⟨{}, _, rfl⟩).2.2.1

end CarveraFirmware.Frames
