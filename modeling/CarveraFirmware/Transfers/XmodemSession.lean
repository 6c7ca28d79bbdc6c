import Mathlib
import CarveraFirmware.Transfers.FramedSession
import CarveraFirmware.Transfers.XmodemPacket

/-!
# XMODEM sessions

A sender that sends its parts one after the other, the MD5 as part 0 and the packets after it. It sends
a part again after a block that was spoiled, or where the answer to it was lost, and goes on to the next
part only behind a part that was taken. Numbers wrap at 256, so a sender that goes back by more could
have an old packet stored again.
-/

namespace CarveraFirmware.Transfers

open Frames (be16)

/-- The MD5 and the packets. -/
def Sending.parts (sending : Sending) : List (List UInt8) := sending.md5 :: sending.packets

/-- `recv_count`. -/
def recvCount (crc isStx : Bool) : Nat := 1 + bufsz isStx + (if crc then 1 else 0) + 3 + stx isStx

/-- The length that a block gives. -/
def blockLength (isStx : Bool) (got : List UInt8) : Nat :=
  if isStx then (be16 (got.getD 2 0) (got.getD 3 0)).toNat else (got.getD 2 0).toNat

/-- A block, from its number on, that is complete and passes the check. -/
structure Sound (crc isStx : Bool) (got : List UInt8) : Prop where
  complete : got.length = recvCount crc isStx
  complement : got.getD 0 0 = ~~~(got.getD 1 0)
  check : Xmodem.checkCrc crc (got.drop 2) (bufsz isStx + 1 + stx isStx) = true

/-- A block with this number and these bytes. -/
structure Carries (crc isStx : Bool) (got : List UInt8) (number : UInt8) (payload : List UInt8) :
    Prop extends Sound crc isStx got where
  number : got.getD 0 0 = number
  length : blockLength isStx got = payload.length
  small : payload.length ≤ bufsz isStx
  bytes : (got.drop (3 + stx isStx)).take payload.length = payload

section

variable (sending : Sending) (crc : Bool) (p : Nat) (isStx : Bool) (received : List UInt8)

/-- What arrived is part `p`. -/
def IsPart : Prop :=
  ∃ payload, sending.parts[p]? = some payload ∧
    Carries crc isStx (received.take (recvCount crc isStx)) (UInt8.ofNat p) payload

/-- What arrived is spoiled, or it is the part before part `p`. -/
def IsRejected : Prop :=
  ¬ Sound crc isStx (received.take (recvCount crc isStx)) ∨
    ∃ q, p = q + 1 ∧ IsPart sending crc q isStx received

end

/-- The inputs of a sender that is asked for part `p`, with blocks that are checked by a CRC or a sum.
Silence before the first block changes the check, and later it ends the session, as a cancel does; the
end is sent after the last part. -/
inductive Follows (sending : Sending) : Bool → Nat → List XmodemInput → Prop
  | nil {crc : Bool} {p : Nat} : Follows sending crc p []
  | silence {crc : Bool} {p : Nat} {inputs : List XmodemInput} (hrest : Follows sending false p inputs) :
      Follows sending crc p (.silence :: inputs)
  | can {crc : Bool} {p : Nat} {inputs : List XmodemInput} : Follows sending crc p (.can :: inputs)
  | eot {crc : Bool} {inputs : List XmodemInput} :
      Follows sending crc sending.parts.length (.eot :: inputs)
  | rejected {crc : Bool} {p : Nat} {isStx : Bool} {received : List UInt8} {stored : Option Nat}
      {inputs : List XmodemInput} (h : IsRejected sending crc p isStx received)
      (hrest : Follows sending crc p inputs) : Follows sending crc p (.block isStx received stored :: inputs)
  | part {crc : Bool} {p : Nat} {isStx : Bool} {received : List UInt8} {inputs : List XmodemInput}
      (h : IsPart sending crc p isStx received) (hrest : Follows sending crc (p + 1) inputs) :
      Follows sending crc p (.block isStx received none :: inputs)

/-- From part `p` on, all parts come in turn and then the end, and fewer blocks are rejected than end the
session: at most `budget` before the next packet, and at most 50 before each one after it. -/
inductive XmodemThrough (sending : Sending) (crc : Bool) : Nat → Nat → List XmodemInput → Prop
  | eot {budget : Nat} {inputs : List XmodemInput} :
      XmodemThrough sending crc sending.parts.length budget (.eot :: inputs)
  | rejected {p budget : Nat} {isStx : Bool} {received : List UInt8} {stored : Option Nat}
      {inputs : List XmodemInput} (h : IsRejected sending crc p isStx received)
      (hrest : XmodemThrough sending crc p budget inputs) :
      XmodemThrough sending crc p (budget + 1) (.block isStx received stored :: inputs)
  | md5 {budget : Nat} {isStx : Bool} {received : List UInt8} {inputs : List XmodemInput}
      (h : IsPart sending crc 0 isStx received) (hrest : XmodemThrough sending crc 1 budget inputs) :
      XmodemThrough sending crc 0 budget (.block isStx received none :: inputs)
  | packet {p budget : Nat} {isStx : Bool} {received : List UInt8} {inputs : List XmodemInput}
      (h : IsPart sending crc (p + 1) isStx received)
      (hrest : XmodemThrough sending crc (p + 2) maxRetrans inputs) :
      XmodemThrough sending crc (p + 1) budget (.block isStx received none :: inputs)

/-- The bytes of the part are stored, whatever stood in the buffer behind them. -/
theorem Carries.take_append {crc isStx : Bool} {got : List UInt8} {number : UInt8}
    {payload : List UInt8} (h : Carries crc isStx got number payload) (old : List UInt8) :
    (got.drop (3 + stx isStx) ++ old).take payload.length = payload := by
  have hle : payload.length ≤ (got.drop (3 + stx isStx)).length := by
    conv_lhs => rw [← h.bytes]
    exact List.length_take_le' ..
  rw [List.take_append_of_le_length hle, h.bytes]

/-- A packet as `download_command` builds it carries its chunk. -/
theorem carries_buildPacket {isStx crc : Bool} (number : UInt8) {chunk : List UInt8}
    (hchunk : chunk.length ≤ bufsz isStx)
    (hcheck : crc = true ∨ byteSum ((padded isStx chunk).drop (bufsz isStx - 3)) = 0) :
    Carries crc isStx ((buildPacket isStx crc number chunk).tail.take (recvCount crc isStx)) number chunk := by
  have hlength : (buildPacket isStx crc number chunk).tail.length = recvCount crc isStx := by
    rw [List.length_tail, buildPacket_length crc number hchunk, Nat.add_sub_cancel_left]
    rfl
  rw [List.take_of_length_le hlength.le]
  have htail : (buildPacket isStx crc number chunk).tail = number :: ~~~number ::
      (lengthField isStx chunk.length ++
        (padded isStx chunk ++ checkBytes isStx crc (packetBody isStx chunk))) := by
    simp [buildPacket, packetBody]
  refine ⟨⟨hlength, ?_, ?_⟩, ?_, ?_, hchunk, ?_⟩
  · rw [htail]
    exact (UInt8.not_not).symm
  · have hsound := (@checkCrc_body isStx chunk crc [] hchunk).mpr hcheck
    rwa [List.append_nil] at hsound
  · rw [htail]
    rfl
  · rw [htail]
    exact lengthField_read hchunk _
  · have hdrop : 3 + stx isStx = (1 + stx isStx) + 2 := by omega
    rw [htail, hdrop, List.drop_succ_cons, List.drop_succ_cons,
      List.drop_left' (lengthField_length isStx chunk.length), padded, List.append_assoc, List.take_left]

namespace Xmodem

/-! ## One block -/

theorem checkCrc_append (crc : Bool) {a : List UInt8} (rest : List UInt8) {n : Nat}
    (h : n + (if crc then 2 else 1) ≤ a.length) : checkCrc crc (a ++ rest) n = checkCrc crc a n := by
  rw [checkCrc, checkCrc]
  cases crc with
  | true =>
    have h : n + 2 ≤ a.length := h
    rw [if_pos rfl, if_pos rfl, List.take_append_of_le_length (by omega),
      List.getD_append _ _ _ _ (by omega), List.getD_append _ _ _ _ (by omega)]
  | false =>
    have h : n + 1 ≤ a.length := h
    rw [if_neg (by decide), if_neg (by decide), List.take_append_of_le_length (by omega),
      List.getD_append _ _ _ _ (by omega)]

section

variable {filename : FilePath} {r : Receiving} {x : Xmodem} {crc isStx : Bool}
  {received : List UInt8} {stored : Option Nat}

/-- A block that is not complete is rejected. -/
theorem round_incomplete (hmode : (x.crc || x.trychar == 67) = crc)
    (hshort : received.length < recvCount crc isStx) :
    ∃ xbuff, round filename r x (.block isStx received stored) =
      (r, ({ x with crc := crc, trychar := 0, xbuff := xbuff } : Xmodem).reject) := by
  simp only [round, hmode]
  rw [← recvCount, if_pos hshort]
  exact ⟨_, rfl⟩

/-- What the receiver makes of a complete block. -/
theorem round_complete (hmode : (x.crc || x.trychar == 67) = crc) {got : List UInt8}
    (hgot : received.take (recvCount crc isStx) = got) (hlength : got.length = recvCount crc isStx) :
    ∃ old xbuff, round filename r x (.block isStx received stored) =
      if !x.md5Received && got.getD 0 0 == 0 && got.getD 0 0 == ~~~(got.getD 1 0)
          && checkCrc crc (got.drop 2) (bufsz isStx + 1 + stx isStx) && blockLength isStx got == 32 then
        (r.writeMd5 filename ((got.drop (3 + stx isStx) ++ old).take 32) stored,
          { x with crc := crc, trychar := 0, xbuff := xbuff, md5Received := true }, .goesOn)
      else if got.getD 0 0 == ~~~(got.getD 1 0) && got.getD 0 0 == x.packetno
          && checkCrc crc (got.drop 2) (bufsz isStx + 1 + stx isStx) then
        ({ r.writeData filename ((got.drop (3 + stx isStx) ++ old).take (blockLength isStx got)) stored with
            filesize := r.filesize + UInt32.ofNat (blockLength isStx got) },
          { x with
            crc := crc
            trychar := 0
            xbuff := xbuff
            packetno := x.packetno + 1
            retrans := maxRetrans + 1 }, .goesOn)
      else (r, ({ x with crc := crc, trychar := 0, xbuff := xbuff } : Xmodem).reject) := by
  have hfull : ¬ received.length < recvCount crc isStx := by
    have hle := hlength ▸ hgot ▸ List.length_take_le' (recvCount crc isStx) received
    omega
  have hsize : bufsz isStx + 1 + stx isStx + (if crc then 2 else 1) ≤ (got.drop 2).length := by
    rw [List.length_drop, hlength, recvCount]
    cases crc <;> simp <;> omega
  have hfive : 5 ≤ got.length := by
    have hbig : 128 ≤ bufsz isStx := by cases isStx <;> decide
    rw [hlength, recvCount]
    omega
  simp only [round, hmode]
  rw [← recvCount, if_neg hfull, hgot]
  -- Behind the block are the bytes of an earlier one; the checks do not reach them.
  generalize x.xbuff.drop _ = old
  refine ⟨old, (if isStx then 2 else 1) :: got ++ old, ?_⟩
  have hat (i : Nat) (hi : i < got.length) :
      ((if isStx then 2 else 1) :: got ++ old).getD (i + 1) 0 = got.getD i 0 := by
    rw [List.cons_append, List.getD_cons_succ, List.getD_append _ _ _ _ hi]
  have hthree : ((if isStx then 2 else 1) :: got ++ old).drop 3 = got.drop 2 ++ old := by
    rw [List.cons_append, List.drop_succ_cons, List.drop_append_of_le_length (by omega)]
  have hdata : ((if isStx then 2 else 1) :: got ++ old).drop (4 + stx isStx) =
      got.drop (3 + stx isStx) ++ old := by
    have hstx : stx isStx ≤ 1 := by cases isStx <;> decide
    have hsplit : 4 + stx isStx = (3 + stx isStx) + 1 := by omega
    rw [hsplit, List.cons_append, List.drop_succ_cons, List.drop_append_of_le_length (by omega)]
  rw [hat 0 (by omega), hat 1 (by omega), hat 2 (by omega), hat 3 (by omega), hthree, hdata,
    checkCrc_append crc old hsize]
  rfl

end

/-! ## One block of a session -/

/-- The loop asks for part `p`. -/
structure Stage (sending : Sending) (filename : FilePath) (crc : Bool) (p : Nat) (r : Receiving)
    (x : Xmodem) : Prop where
  stored : Stored filename r (sending.packets.take (p - 1)).flatten (if p = 0 then [] else sending.md5)
  mode : (x.crc || x.trychar == 67) = crc
  first : x.trychar = 67 → x.crc = false
  md5Received : x.md5Received = decide (p ≠ 0)
  packetno : x.packetno = UInt8.ofNat (max 1 p)

section

variable {sending : Sending} {filename : FilePath} {crc : Bool} {p : Nat} {r : Receiving} {x : Xmodem}
  {isStx : Bool} {received : List UInt8}

theorem zero_ne_trychar : (0 : UInt8) ≠ 67 := by decide

theorem ofNat_ne_succ (q : Nat) : UInt8.ofNat q ≠ UInt8.ofNat (q + 1) := by
  intro heq
  have hmod := congrArg UInt8.toNat heq
  rw [UInt8.toNat_ofNat', UInt8.toNat_ofNat'] at hmod
  omega

theorem Stage.reject (h : Stage sending filename crc p r x) (xbuff : List UInt8) :
    ∃ x', ({ x with crc := crc, trychar := 0, xbuff := xbuff } : Xmodem).reject =
        (x', if x.retrans - 1 ≤ 0 then .uploadError else .goesOn) ∧
      Stage sending filename crc p r x' ∧ x'.retrans = x.retrans - 1 :=
  ⟨_, rfl, ⟨h.stored, Bool.or_false crc, fun hfirst => absurd hfirst zero_ne_trychar, h.md5Received,
    h.packetno⟩, rfl⟩

/-- A rejected block costs one of the retries. -/
theorem round_rejected (h : Stage sending filename crc p r x)
    (hrejected : IsRejected sending crc p isStx received) (stored : Option Nat) :
    ∃ x', round filename r x (.block isStx received stored) =
        (r, x', if x.retrans - 1 ≤ 0 then .uploadError else .goesOn) ∧
      Stage sending filename crc p r x' ∧ x'.retrans = x.retrans - 1 := by
  by_cases hshort : received.length < recvCount crc isStx
  · obtain ⟨xbuff, hround⟩ := @round_incomplete filename r x crc isStx received stored h.mode hshort
    obtain ⟨x', hreject, hstage⟩ := h.reject xbuff
    exact ⟨x', by rw [hround, hreject], hstage⟩
  have hlength : (received.take (recvCount crc isStx)).length = recvCount crc isStx :=
    List.length_take_of_le (not_lt.mp hshort)
  obtain ⟨old, xbuff, hround⟩ := @round_complete filename r x crc isStx received stored h.mode _ rfl hlength
  obtain ⟨x', hreject, hstage⟩ := h.reject xbuff
  refine ⟨x', ?_, hstage⟩
  rw [hround]
  -- Rejected for a check that fails, or for a number that is not the one awaited.
  obtain hspoiled | ⟨q, rfl, payload, -, hcarries⟩ := hrejected
  · have hcheck : ¬ ((received.take (recvCount crc isStx)).getD 0 0 ==
        ~~~((received.take (recvCount crc isStx)).getD 1 0) &&
        checkCrc crc ((received.take (recvCount crc isStx)).drop 2) (bufsz isStx + 1 + stx isStx)) =
          true := by
      intro hsound
      rw [Bool.and_eq_true, beq_iff_eq] at hsound
      exact hspoiled ⟨hlength, hsound.1, hsound.2⟩
    rw [if_neg, if_neg, hreject]
    · simp only [Bool.and_eq_true] at hcheck ⊢
      tauto
    · simp only [Bool.and_eq_true] at hcheck ⊢
      tauto
  · have hreceived : x.md5Received = true := by
      rw [h.md5Received]
      exact decide_eq_true (Nat.succ_ne_zero q)
    have hnumber : ((received.take (recvCount crc isStx)).getD 0 0 == x.packetno) = false := by
      rw [hcarries.number, h.packetno, Nat.max_eq_right (Nat.succ_pos q)]
      exact beq_eq_false_iff_ne.mpr (ofNat_ne_succ q)
    rw [hnumber, Bool.and_false, Bool.false_and, if_neg (by simp [hreceived]), if_neg (by decide), hreject]

/-- The part that is asked for is stored. -/
theorem round_part (hne : dataPath filename ≠ md5Filename filename)
    (h : Stage sending filename crc p r x) (hpart : IsPart sending crc p isStx received) :
    ∃ r' x', round filename r x (.block isStx received none) = (r', x', .goesOn) ∧
      Stage sending filename crc (p + 1) r' x' ∧
      x'.retrans = if p = 0 then x.retrans else maxRetrans + 1 := by
  obtain ⟨payload, hpayload, hcarries⟩ := hpart
  obtain ⟨old, xbuff, hround⟩ :=
    @round_complete filename r x crc isStx received none h.mode _ rfl hcarries.complete
  have hbytes := hcarries.take_append old
  have hcomplement : ((received.take (recvCount crc isStx)).getD 0 0 ==
      ~~~((received.take (recvCount crc isStx)).getD 1 0)) = true := beq_iff_eq.mpr hcarries.complement
  rw [hround, hcomplement, hcarries.check, hcarries.number, hcarries.length]
  have hmode : (crc || (0 : UInt8) == 67) = crc := Bool.or_false crc
  have hfirst : (0 : UInt8) = 67 → crc = false := fun hfirst => absurd hfirst zero_ne_trychar
  -- The first part is the MD5, and the others are the packets of the file.
  obtain _ | p := p
  · obtain rfl : sending.md5 = payload := Option.some.inj hpayload
    rw [sending.md5_length] at hbytes ⊢
    rw [if_pos (by simp [h.md5Received]), hbytes]
    exact ⟨_, _, rfl, ⟨h.stored.writeMd5 hne sending.md5, hmode, hfirst, rfl, h.packetno⟩, rfl⟩
  · have hpacket : sending.packets[p]? = some payload := hpayload
    have hreceived : x.md5Received = true := by
      rw [h.md5Received]
      exact decide_eq_true (Nat.succ_ne_zero p)
    have hnumber : x.packetno = UInt8.ofNat (p + 1) := by
      rw [h.packetno, Nat.max_eq_right (Nat.succ_pos p)]
    rw [if_neg (by simp [hreceived]), if_pos (by simp [hnumber]), hbytes]
    refine ⟨_, _, rfl, ⟨?_, hmode, hfirst, ?_, ?_⟩, rfl⟩
    · have hstored := h.stored.writeData hne payload
      have hmore : (sending.packets.take (p + 1 - 1)).flatten ++ payload =
          (sending.packets.take (p + 1)).flatten := by
        rw [Nat.add_sub_cancel, List.take_add_one, hpacket, List.flatten_append]
        simp
      rwa [if_neg (Nat.succ_ne_zero p), hmore] at hstored
    · rw [hreceived]
      rfl
    · show x.packetno + 1 = _
      rw [hnumber, Nat.max_eq_right (by omega)]
      exact (UInt8.ofNat_add (p + 1) 1).symm

/-! ## The session -/

theorem stage_zero (h : Stored filename r [] []) (xbuff : List UInt8) :
    Stage sending filename true 0 r { xbuff := xbuff } :=
  ⟨h, rfl, fun _ => rfl, rfl, rfl⟩

/-- At the end of the parts, everything is stored. -/
theorem Stage.stored_all (h : Stage sending filename crc sending.parts.length r x) :
    Stored filename r sending.packets.flatten sending.md5 := by
  have hlength : sending.parts.length = sending.packets.length + 1 := rfl
  have hstored := h.stored
  rwa [hlength, if_neg (Nat.succ_ne_zero _), Nat.add_sub_cancel, List.take_length] at hstored

/-- The first silence changes the check. -/
theorem round_silence (h : Stage sending filename crc p r x) :
    (round filename r x .silence).2.2 = .uploadError ∨
      ((round filename r x .silence).2.2 = .goesOn ∧ (round filename r x .silence).1 = r ∧
        Stage sending filename false p r (round filename r x .silence).2.1) := by
  simp only [round]
  split
  · rename_i hfirst
    have hnak : (0x15 : UInt8) ≠ 67 := by decide
    refine .inr ⟨rfl, rfl, h.stored, ?_, fun htry => absurd htry hnak, h.md5Received, h.packetno⟩
    show (x.crc || (0x15 : UInt8) == 67) = false
    rw [h.first hfirst]
    rfl
  · exact .inl rfl

/-- A step of a sender that follows the protocol. -/
theorem Stage.step (hne : dataPath filename ≠ md5Filename filename) (h : Stage sending filename crc p r x)
    {input : XmodemInput} {inputs : List XmodemInput} (hfollows : Follows sending crc p (input :: inputs)) :
    ((round filename r x input).2.2 = .goesOn → ∃ crc' p', Follows sending crc' p' inputs ∧
      Stage sending filename crc' p' (round filename r x input).1 (round filename r x input).2.1) ∧
    ((round filename r x input).2.2 = .uploadSuccess →
      Stored filename (round filename r x input).1 sending.packets.flatten sending.md5) := by
  cases hfollows with
  | silence hrest =>
    obtain herror | ⟨hgoes, hsame, hstage⟩ := round_silence h
    · rw [herror]
      exact ⟨nofun, nofun⟩
    · rw [hgoes, hsame]
      exact ⟨fun _ => ⟨false, p, hrest, hstage⟩, nofun⟩
  | can => exact ⟨nofun, nofun⟩
  | eot => exact ⟨nofun, fun _ => h.stored_all⟩
  | @rejected _ _ _ _ stored _ hrejected hrest =>
    obtain ⟨x', hround, hstage, -⟩ := round_rejected h hrejected stored
    rw [hround]
    refine ⟨fun _ => ⟨crc, p, hrest, hstage⟩, fun hsuccess => ?_⟩
    simp only at hsuccess
    split at hsuccess
    · exact Turn.noConfusion hsuccess
    · exact Turn.noConfusion hsuccess
  | part hpart hrest =>
    obtain ⟨r', x', hround, hstage, -⟩ := round_part hne h hpart
    rw [hround]
    exact ⟨fun _ => ⟨crc, p + 1, hrest, hstage⟩, nofun⟩

variable (success : Xmodem → Receiving → UploadEnd × Card) {inputs : List XmodemInput}

/-- However a session of a sender ends, a success comes with everything stored. -/
theorem rounds_stored (hne : dataPath filename ≠ md5Filename filename) (hr : Stored filename r [] [])
    (hfollows : Follows sending true 0 inputs) (xbuff : List UInt8) :
    (∃ r', SameFiles filename r r' ∧
      rounds (round filename) success filename r { xbuff := xbuff } inputs = (.running, r'.card)) ∨
    (∃ r', SameFiles filename r r' ∧
      rounds (round filename) success filename r { xbuff := xbuff } inputs = uploadError filename r') ∨
    ∃ x' r', (SameFiles filename r r' ∧ Stored filename r' sending.packets.flatten sending.md5) ∧
      rounds (round filename) success filename r { xbuff := xbuff } inputs = success x' r' := by
  refine @rounds_rule Xmodem XmodemInput (round filename)
    (fun r' x' rest => SameFiles filename r r' ∧
      ∃ crc p, Follows sending crc p rest ∧ Stage sending filename crc p r' x')
    _ _ _ filename success (fun _ _ h => h.1) ?_ ?_ ?_ r _ inputs
    ⟨SameFiles.refl filename r, true, 0, hfollows, stage_zero hr xbuff⟩
  · rintro r' x' input rest ⟨hsame, crc, p, hrest, hstage⟩ hgoes
    exact ⟨hsame.trans (sameFiles_xmodem ..), (hstage.step hne hrest).1 hgoes⟩
  · exact fun _ _ _ _ h _ => h.1.trans (sameFiles_xmodem ..)
  · rintro r' x' input rest ⟨hsame, crc, p, hrest, hstage⟩ hsuccess
    exact ⟨hsame.trans (sameFiles_xmodem ..), (hstage.step hne hrest).2 hsuccess⟩

/-- A step of a sender that gets through. -/
theorem Stage.through (hne : dataPath filename ≠ md5Filename filename)
    (h : Stage sending filename crc p r x) {budget : Nat} (hbudget : (budget : Int) < x.retrans)
    {input : XmodemInput} {inputs : List XmodemInput}
    (hthrough : XmodemThrough sending crc p budget (input :: inputs)) :
    ((round filename r x input).2.2 = .goesOn ∧ ∃ p' budget', XmodemThrough sending crc p' budget' inputs ∧
      Stage sending filename crc p' (round filename r x input).1 (round filename r x input).2.1 ∧
      (budget' : Int) < (round filename r x input).2.1.retrans) ∨
    ((round filename r x input).2.2 = .uploadSuccess ∧
      Stored filename (round filename r x input).1 sending.packets.flatten sending.md5) := by
  -- By what comes next; the patience is what is left of the retransmissions.
  cases hthrough with
  | eot => exact .inr ⟨rfl, h.stored_all⟩
  | @rejected _ budget _ _ stored _ hrejected hrest =>
    obtain ⟨x', hround, hstage, hretrans⟩ := round_rejected h hrejected stored
    rw [hround]
    rw [Nat.cast_add] at hbudget
    refine .inl ⟨if_neg ?_, p, budget, hrest, hstage, ?_⟩
    · omega
    · show (budget : Int) < x'.retrans
      omega
  | md5 hpart hrest =>
    obtain ⟨r', x', hround, hstage, hretrans⟩ := round_part hne h hpart
    rw [hround]
    rw [if_pos rfl] at hretrans
    exact .inl ⟨rfl, 1, budget, hrest, hstage, hretrans ▸ hbudget⟩
  | packet hpart hrest =>
    obtain ⟨r', x', hround, hstage, hretrans⟩ := round_part hne h hpart
    rw [hround]
    rw [if_neg (Nat.succ_ne_zero _)] at hretrans
    refine .inl ⟨rfl, _, maxRetrans, hrest, hstage, ?_⟩
    show (maxRetrans : Int) < x'.retrans
    omega

/-- A session that gets through, with a CRC or after a first silence with a sum, ends in success. -/
theorem rounds_through (hne : dataPath filename ≠ md5Filename filename) (hr : Stage sending filename crc 0 r x)
    (hretrans : x.retrans = maxRetrans)
    (hthrough : XmodemThrough sending crc 0 (maxRetrans - 1) inputs) :
    ∃ x' r', (SameFiles filename r r' ∧ Stored filename r' sending.packets.flatten sending.md5) ∧
      rounds (round filename) success filename r x inputs = success x' r' := by
  have hstart : ((maxRetrans - 1 : Nat) : Int) < x.retrans := by
    rw [hretrans]
    decide
  refine @rounds_total Xmodem XmodemInput (round filename)
    (fun r' x' rest => SameFiles filename r r' ∧ ∃ p budget, XmodemThrough sending crc p budget rest ∧
      Stage sending filename crc p r' x' ∧ (budget : Int) < x'.retrans)
    (fun r' => SameFiles filename r r' ∧ Stored filename r' sending.packets.flatten sending.md5)
    filename success ?_ ?_ r x inputs
    ⟨SameFiles.refl filename r, 0, maxRetrans - 1, hthrough, hr, hstart⟩
  · rintro r' x' ⟨-, p, budget, hnone, -⟩
    cases hnone
  · rintro r' x' input rest ⟨hsame, p, budget, hthrough, hstage, hbudget⟩
    have hsame := hsame.trans (sameFiles_xmodem filename r' x' input)
    obtain ⟨hgoes, hnext⟩ | ⟨hsuccess, hstored⟩ := hstage.through hne hbudget hthrough
    · exact .inl ⟨hgoes, hsame, hnext⟩
    · exact .inr ⟨hsuccess, hsame, hstored⟩

end

end Xmodem

end CarveraFirmware.Transfers
