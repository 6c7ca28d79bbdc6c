import Mathlib
import CarveraFirmware.Transfers.Upload

/-!
# XMODEM packets

The packet `download_command` builds, and what `upload_command` makes of it. The sum of a packet
with a checksum leaves out its last three bytes on the sending side.
-/

namespace CarveraFirmware.Transfers

open Frames (be16 be16_split be16_toNat)

def ctrlZ : UInt8 := 0x1A

/-- The length of the chunk, in one byte or two. -/
def lengthField (isStx : Bool) (c : Nat) : List UInt8 :=
  if isStx then [UInt8.ofNat (c >>> 8), UInt8.ofNat c] else [UInt8.ofNat c]

/-- The chunk, filled up to the size of the packet. -/
def padded (isStx : Bool) (chunk : List UInt8) : List UInt8 :=
  chunk ++ List.replicate (bufsz isStx - chunk.length) ctrlZ

/-- What the check of a packet is over. -/
def packetBody (isStx : Bool) (chunk : List UInt8) : List UInt8 :=
  lengthField isStx chunk.length ++ padded isStx chunk

def byteSum (bytes : List UInt8) : UInt8 := bytes.foldl (· + ·) 0

def checkBytes (isStx crc : Bool) (body : List UInt8) : List UInt8 :=
  if crc then [(Crc.ccitt body >>> 8).toUInt8, (Crc.ccitt body).toUInt8]
  -- the loop runs up to the end of the body's length, but starts three bytes into `xbuff`
  else [byteSum (body.take (bufsz isStx + 1 + stx isStx - 3))]

/-- The packet at `start_trans`, as sent. -/
def buildPacket (isStx crc : Bool) (packetno : UInt8) (chunk : List UInt8) : List UInt8 :=
  [if isStx then 2 else 1, packetno, ~~~packetno] ++ packetBody isStx chunk
    ++ checkBytes isStx crc (packetBody isStx chunk)

/-! ## Sums -/

theorem foldl_add (a : UInt8) (bytes : List UInt8) : bytes.foldl (· + ·) a = a + byteSum bytes := by
  induction bytes generalizing a with
  | nil => simp [byteSum]
  | cons b bytes ih =>
    rw [byteSum, List.foldl_cons, List.foldl_cons, ih, ih (0 + b)]
    simp only [UInt8.zero_add, UInt8.add_assoc]

theorem byteSum_append (xs ys : List UInt8) : byteSum (xs ++ ys) = byteSum xs + byteSum ys := by
  rw [byteSum, List.foldl_append, foldl_add]
  rfl

/-! ## The check -/

section

variable {isStx : Bool} {chunk : List UInt8}

theorem padded_length (hchunk : chunk.length ≤ bufsz isStx) :
    (padded isStx chunk).length = bufsz isStx := by
  simp only [padded, List.length_append, List.length_replicate]
  omega

theorem lengthField_length (isStx : Bool) (c : Nat) :
    (lengthField isStx c).length = 1 + stx isStx := by
  cases isStx <;> rfl

theorem packetBody_length (hchunk : chunk.length ≤ bufsz isStx) :
    (packetBody isStx chunk).length = bufsz isStx + 1 + stx isStx := by
  rw [packetBody, List.length_append, lengthField_length, padded_length hchunk]
  omega

theorem buildPacket_drop (isStx crc : Bool) (packetno : UInt8) (chunk : List UInt8) :
    (buildPacket isStx crc packetno chunk).drop 3 =
      packetBody isStx chunk ++ checkBytes isStx crc (packetBody isStx chunk) := rfl

/-- What the sum leaves out are the last three bytes of the data. -/
theorem byteSum_packetBody (hchunk : chunk.length ≤ bufsz isStx) :
    byteSum (packetBody isStx chunk) =
      byteSum ((packetBody isStx chunk).take (bufsz isStx + 1 + stx isStx - 3))
        + byteSum ((padded isStx chunk).drop (bufsz isStx - 3)) := by
  have hlast : (packetBody isStx chunk).drop (bufsz isStx + 1 + stx isStx - 3)
      = (padded isStx chunk).drop (bufsz isStx - 3) := by
    have hsize : 3 ≤ bufsz isStx := by cases isStx <;> decide
    rw [packetBody, List.drop_append, lengthField_length,
      List.drop_eq_nil_of_le (by rw [lengthField_length]; omega), List.nil_append]
    congr 1
    omega
  rw [← hlast, ← byteSum_append, List.take_append_drop]

theorem checkCrc_body {crc : Bool} {rest : List UInt8} (hchunk : chunk.length ≤ bufsz isStx) :
    Xmodem.checkCrc crc
      (packetBody isStx chunk ++ checkBytes isStx crc (packetBody isStx chunk) ++ rest)
      (bufsz isStx + 1 + stx isStx) = true ↔
    crc = true ∨ byteSum ((padded isStx chunk).drop (bufsz isStx - 3)) = 0 := by
  have hlen := packetBody_length hchunk
  have hbody : (packetBody isStx chunk ++ checkBytes isStx crc (packetBody isStx chunk) ++ rest).take
      (bufsz isStx + 1 + stx isStx) = packetBody isStx chunk := by
    rw [List.append_assoc, List.take_left' hlen]
  have hcheck (i : Nat) (hi : i < (checkBytes isStx crc (packetBody isStx chunk)).length) :
      (packetBody isStx chunk ++ checkBytes isStx crc (packetBody isStx chunk) ++ rest).getD
        (bufsz isStx + 1 + stx isStx + i) 0 =
      (checkBytes isStx crc (packetBody isStx chunk)).getD i 0 := by
    rw [← hlen, List.append_assoc, List.getD_append_right _ _ _ _ (by omega), Nat.add_sub_cancel_left,
      List.getD_append _ _ _ _ hi]
  rw [Xmodem.checkCrc]
  cases crc with
  | true =>
    have h0 := hcheck 0 (by simp [checkBytes])
    have h1 := hcheck 1 (by simp [checkBytes])
    rw [Nat.add_zero] at h0
    rw [if_pos rfl, hbody, h0, h1]
    simp [checkBytes, be16_split]
  | false =>
    have h0 := hcheck 0 (by simp [checkBytes])
    rw [Nat.add_zero] at h0
    rw [if_neg (by decide), hbody, h0]
    have hsum := byteSum_packetBody hchunk
    simp only [checkBytes, Bool.false_eq_true, if_false, List.getD_cons_zero, false_or, beq_iff_eq]
    change byteSum (packetBody isStx chunk) = _ ↔ _
    rw [hsum]
    exact UInt8.add_eq_left

/-! ## The receiver -/

theorem buildPacket_length (crc : Bool) (packetno : UInt8) (hchunk : chunk.length ≤ bufsz isStx) :
    (buildPacket isStx crc packetno chunk).length =
      1 + (1 + bufsz isStx + (if crc then 1 else 0) + 3 + stx isStx) := by
  have hcheck : (checkBytes isStx crc (packetBody isStx chunk)).length = if crc then 2 else 1 := by
    cases crc <;> rfl
  simp only [buildPacket, List.length_append, packetBody_length hchunk, hcheck, List.length_cons,
    List.length_nil]
  split <;> omega

/-- The length the receiver reads is that of the chunk. -/
theorem lengthField_read (hchunk : chunk.length ≤ bufsz isStx) (rest : List UInt8) :
    (if isStx then
        (be16 ((lengthField isStx chunk.length ++ rest).getD 0 0)
          ((lengthField isStx chunk.length ++ rest).getD 1 0)).toNat
      else ((lengthField isStx chunk.length ++ rest).getD 0 0).toNat) = chunk.length := by
  cases isStx with
  | false =>
    have hsize : chunk.length ≤ 128 := hchunk
    simp only [lengthField, Bool.false_eq_true, if_false, List.cons_append, List.nil_append,
      List.getD_cons_zero, UInt8.toNat_ofNat']
    omega
  | true =>
    have hsize : chunk.length ≤ 8192 := hchunk
    simp only [lengthField, if_true, List.cons_append, List.getD_cons_zero, List.getD_cons_succ]
    rw [Frames.be16_length (by omega), UInt16.toNat_ofNat']
    omega

end

/-- The receiver waits for this packet, with this kind of check. -/
structure Awaits (x : Xmodem) (crc : Bool) (packetno : UInt8) : Prop where
  mode : (x.crc || x.trychar == 67) = crc
  number : x.packetno = packetno

/-- What the receiver stores of an awaited packet: its chunk, as the MD5 or as data. -/
def storeChunk (filename : FilePath) (r : Receiving) (x : Xmodem) (packetno : UInt8)
    (chunk : List UInt8) : Receiving :=
  if !x.md5Received && packetno == 0 && chunk.length == 32 then r.writeMd5 filename chunk none
  else
    { r.writeData filename chunk none with filesize := r.filesize + UInt32.ofNat chunk.length }

theorem round_buildPacket {isStx crc : Bool} {packetno : UInt8} {chunk : List UInt8}
    (hchunk : chunk.length ≤ bufsz isStx)
    (hcheck : crc = true ∨ byteSum ((padded isStx chunk).drop (bufsz isStx - 3)) = 0)
    (filename : FilePath) (r : Receiving) {x : Xmodem} (hx : Awaits x crc packetno) :
    (Xmodem.round filename r x
      (.block isStx (buildPacket isStx crc packetno chunk).tail none)).1
        = storeChunk filename r x packetno chunk := by
  have hlen := buildPacket_length crc packetno hchunk
  have htail : (buildPacket isStx crc packetno chunk).tail.length =
      1 + bufsz isStx + (if crc then 1 else 0) + 3 + stx isStx := by
    rw [List.length_tail, hlen, Nat.add_sub_cancel_left]
  obtain ⟨old, hbuf, hsound⟩ : ∃ old,
      ((if isStx then 2 else 1) :: (buildPacket isStx crc packetno chunk).tail)
        ++ x.xbuff.drop ((if isStx then 2 else 1) :: (buildPacket isStx crc packetno chunk).tail).length
        = (if isStx then 2 else 1) :: packetno :: ~~~packetno :: (lengthField isStx chunk.length
            ++ (chunk ++ old)) ∧
      Xmodem.checkCrc crc (lengthField isStx chunk.length ++ (chunk ++ old))
        (bufsz isStx + 1 + stx isStx) = true := by
    generalize x.xbuff.drop _ = rest
    refine ⟨List.replicate (bufsz isStx - chunk.length) ctrlZ
      ++ checkBytes isStx crc (packetBody isStx chunk) ++ rest, ?_, ?_⟩
    · simp [buildPacket, packetBody, padded]
    · have hok := (@checkCrc_body isStx chunk crc rest hchunk).mpr hcheck
      simpa only [packetBody, padded, List.append_assoc] using hok
  simp only [Xmodem.round, hx.mode]
  rw [List.take_of_length_le htail.le]
  rw [if_neg (Nat.not_lt.mpr htail.ge)]
  simp only [hbuf]
  have hread := lengthField_read hchunk (chunk ++ old)
  have hdata : List.drop (4 + stx isStx) ((if isStx then 2 else 1) :: packetno :: ~~~packetno ::
      (lengthField isStx chunk.length ++ (chunk ++ old))) = chunk ++ old := by
    have hsplit : 4 + stx isStx = 3 + (1 + stx isStx) := by omega
    rw [hsplit, ← List.drop_drop]
    exact List.drop_left' (lengthField_length isStx chunk.length)
  have hthree : List.drop 3 ((if isStx then 2 else 1) :: packetno :: ~~~packetno ::
      (lengthField isStx chunk.length ++ (chunk ++ old)))
        = lengthField isStx chunk.length ++ (chunk ++ old) := rfl
  simp only [List.getD_cons_succ, List.getD_cons_zero, hread, hdata, hthree, hsound, hx.number,
    storeChunk, UInt8.not_not, beq_self_eq_true, Bool.and_true, if_true, List.take_left]
  by_cases hmd5 : (!x.md5Received && packetno == 0 && chunk.length == 32) = true
  · have h32 : chunk.length = 32 := by
      simp only [Bool.and_eq_true, beq_iff_eq] at hmd5
      exact hmd5.2
    rw [if_pos hmd5, if_pos hmd5, ← h32, List.take_left]
  · rw [if_neg hmd5, if_neg hmd5]

/-- The packet passes the check of the receiver, which stores the chunk. -/
def Agrees (isStx crc : Bool) (packetno : UInt8) (chunk : List UInt8) : Prop :=
  Xmodem.checkCrc crc ((buildPacket isStx crc packetno chunk).drop 3)
    (bufsz isStx + 1 + stx isStx) = true ∧
  ∀ filename r x, Awaits x crc packetno →
    (Xmodem.round filename r x
      (.block isStx (buildPacket isStx crc packetno chunk).tail none)).1
        = storeChunk filename r x packetno chunk

/-- Sender and receiver agree exactly if the check is a CRC, or the last three bytes of the data sum
to nothing. -/
theorem xmodem_agrees_iff (isStx crc : Bool) (packetno : UInt8) (chunk : List UInt8)
    (hchunk : chunk.length ≤ bufsz isStx) :
    Agrees isStx crc packetno chunk ↔
      (crc = true ∨ byteSum ((padded isStx chunk).drop (bufsz isStx - 3)) = 0) := by
  have hcheck := @checkCrc_body isStx chunk crc [] hchunk
  rw [List.append_nil, ← buildPacket_drop isStx crc packetno] at hcheck
  constructor
  · exact fun hagrees => hcheck.mp hagrees.1
  · exact fun hsum => ⟨hcheck.mpr hsum, fun filename r x hx =>
      round_buildPacket hchunk hsum filename r hx⟩

theorem xmodem_agrees_iff_byte :
    Agrees false true 1 [65] ↔
      (true = true ∨ byteSum ((padded false [65]).drop (bufsz false - 3)) = 0) :=
  xmodem_agrees_iff false true 1 [65] (by decide)

/-- A chunk of one byte is padded, and its packet fails the checksum. -/
theorem padded_chunk_refused : ¬ Agrees false false 1 [65] := by
  rintro ⟨hcheck, -⟩
  exact absurd hcheck (by decide +kernel)

end CarveraFirmware.Transfers
