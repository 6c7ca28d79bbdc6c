import Mathlib
import CarveraFirmware.Library.BitPoly
import CarveraFirmware.Frames.Crc

/-!
# The checksum as a division

`ccitt_update` takes a byte at a time from its table. Each byte comes to eight turns of the shift
register of the CCITT polynomial, so the checksum is the remainder of a polynomial division, and a
burst of up to 16 bits cannot hide.
-/

namespace CarveraFirmware.Crc

open Polynomial BitPoly

/-- The CCITT polynomial without its leading term, as `table_entry` folds it in. -/
def ccittPolynomial : BitVec 16 := 0x1021

/-- The bits of a message, each byte from its highest bit down. -/
def messageBits (data : List UInt8) : List Bool := data.flatMap fun b => bitsOf b.toBitVec

theorem generator_ccitt : generator ccittPolynomial = X ^ 16 + X ^ 12 + X ^ 5 + 1 := by
  have hword : ofWord ccittPolynomial = X ^ 12 + X ^ 5 + 1 := by
    ext i
    rw [coeff_ofWord, coeff_add, coeff_add, coeff_X_pow, coeff_X_pow, coeff_one]
    by_cases hi : i < 16
    · interval_cases i <;> decide
    · rw [BitVec.getLsbD_of_ge _ i (not_lt.mp hi), coeffOf_false, if_neg (by omega),
        if_neg (by omega), if_neg (by omega)]
      rfl
  rw [generator, hword]
  ring

/-! ## A byte from the table -/

theorem top_bit_iff (v : UInt16) : v &&& 0x8000 ≠ 0 ↔ v.toBitVec.msb = true := by
  have hbit (i : Nat) (hi : i < 16) : (UInt16.toBitVec 0x8000).getLsbD i = decide (i = 15) := by
    interval_cases i <;> rfl
  rw [Ne, ← UInt16.toBitVec_inj, UInt16.toBitVec_and, BitVec.msb_eq_getLsbD_last]
  constructor
  · intro h
    by_contra htop
    apply h
    apply BitVec.eq_of_getLsbD_eq
    intro i hi
    rw [BitVec.getLsbD_and, hbit i hi]
    by_cases h15 : i = 15
    · subst h15
      simpa using htop
    · simp [h15]
  · intro htop h
    have hbit15 := congrArg (·.getLsbD 15) h
    simp only [BitVec.getLsbD_and, hbit 15 (by decide), htop, decide_true, Bool.and_true] at hbit15
    exact absurd hbit15 (by decide)

/-- A round of the table is a turn of the register that is fed a zero. -/
theorem toBitVec_tableRound (v : UInt16) :
    (tableRound v).toBitVec = divideBit ccittPolynomial v.toBitVec false := by
  rw [tableRound, divideBit, Bool.xor_false]
  by_cases htop : v &&& 0x8000 ≠ 0
  · rw [if_pos htop, if_pos ((top_bit_iff v).mp htop), UInt16.toBitVec_xor]
    simp [ccittPolynomial]
  · rw [if_neg htop, if_neg (mt (top_bit_iff v).mpr htop)]
    simp

theorem toBitVec_tableEntry (v : UInt16) :
    (tableEntry v).toBitVec =
      divide ccittPolynomial (v <<< 8).toBitVec (List.replicate 8 false) := by
  simp [tableEntry, divide, List.range_succ, List.replicate_succ, toBitVec_tableRound]

/-- The bits of the table's index: the top byte of the checksum and the next one of the message. -/
theorem getLsbD_index (crc : UInt16) (b : UInt8) (i : Nat) :
    ((((crc >>> 8) ^^^ b.toUInt16).toUInt8.toUInt16) <<< 8).toBitVec.getLsbD i =
      (decide (8 ≤ i ∧ i < 16) && (crc.toBitVec.getLsbD i ^^ b.toBitVec.getLsbD (i - 8))) := by
  have hword : ((((crc >>> 8) ^^^ b.toUInt16).toUInt8.toUInt16) <<< 8).toBitVec =
      (((crc.toBitVec >>> 8) ^^^ b.toBitVec.setWidth 16).setWidth 8).setWidth 16 <<< 8 := by
    simp only [UInt16.toBitVec_shiftLeft, UInt8.toBitVec_toUInt16, UInt16.toBitVec_toUInt8,
      UInt16.toBitVec_xor, UInt16.toBitVec_shiftRight]
    rfl
  simp only [hword, BitVec.getLsbD_shiftLeft, BitVec.getLsbD_setWidth, BitVec.getLsbD_xor,
    BitVec.getLsbD_ushiftRight]
  by_cases h8 : 8 ≤ i
  · by_cases h16 : i < 16
    · have hlow : i - 8 < 8 := by omega
      have hback : 8 + (i - 8) = i := by omega
      have hin : i - 8 < 16 := by omega
      simp only [h8, h16, hlow, hback, hin, Nat.not_lt.mpr h8, decide_true, decide_false,
        Bool.not_false, Bool.true_and, and_self]
    · simp [h16]
  · simp [h8, Nat.not_le.mp h8]

theorem getLsbD_shifted (crc : UInt16) (i : Nat) :
    (crc <<< 8).toBitVec.getLsbD i =
      (decide (8 ≤ i ∧ i < 16) && crc.toBitVec.getLsbD (i - 8)) := by
  have hword : (crc <<< 8).toBitVec = crc.toBitVec <<< 8 := by
    rw [UInt16.toBitVec_shiftLeft]
    rfl
  rw [hword, BitVec.getLsbD_shiftLeft]
  by_cases h8 : 8 ≤ i
  · by_cases h16 : i < 16 <;> simp only [h8, h16, Nat.not_lt.mpr h8] <;> rfl
  · simp [h8, Nat.not_le.mp h8]

/-- The register takes in the byte at its top, with what is there already. -/
theorem ofWord_byte (crc : UInt16) (b : UInt8) :
    ofWord (crc <<< 8).toBitVec +
        ofWord ((((crc >>> 8) ^^^ b.toUInt16).toUInt8.toUInt16) <<< 8).toBitVec * X ^ 8 =
      ofWord crc.toBitVec * X ^ 8 + ofWord b.toBitVec * X ^ 16 := by
  ext i
  simp only [coeff_add, coeff_mul_X_pow', coeff_ofWord, getLsbD_index]
  rw [getLsbD_shifted]
  rcases Nat.lt_or_ge i 8 with h8 | h8
  · simp [Nat.not_le.mpr h8, show ¬ 16 ≤ i by omega]
  rcases Nat.lt_or_ge i 16 with h16 | h16
  · simp [h8, h16, Nat.not_le.mpr h16, show ¬ 8 ≤ i - 8 by omega]
  have hlow : 8 ≤ i - 8 := by omega
  rcases Nat.lt_or_ge i 24 with h24 | h24
  · have hin : i - 8 < 16 := by omega
    simp only [h8, h16, hlow, hin, Nat.not_lt.mpr h16, and_self, and_false, decide_true,
      decide_false, Bool.true_and, Bool.false_and, coeffOf_false, coeffOf_xor, if_true, zero_add,
      Nat.sub_sub]
  · have hb : b.toBitVec.getLsbD (i - 16) = false := BitVec.getLsbD_of_ge _ _ (by omega)
    have hcrc : crc.toBitVec.getLsbD (i - 8) = false := BitVec.getLsbD_of_ge _ _ (by omega)
    simp [h8, h16, Nat.not_lt.mpr h16, show ¬ i - 8 < 16 by omega, hb, hcrc]

/-- One byte is eight turns of the register. -/
theorem toBitVec_ccittByte (crc : UInt16) (b : UInt8) :
    (ccittByte crc b).toBitVec = divide ccittPolynomial crc.toBitVec (bitsOf b.toBitVec) := by
  apply ofWord_injective
  have hfed := ofWord_divide ccittPolynomial
    ((((crc >>> 8) ^^^ b.toUInt16).toUInt8.toUInt16) <<< 8).toBitVec (List.replicate 8 false)
  rw [List.length_replicate, ofBits_replicate_false, zero_mul, add_zero] at hfed
  rw [ofWord_divide, ofBits_bitsOf, length_bitsOf, ← ofWord_byte, add_modByMonic, ofWord_mod,
    ccittByte, UInt16.toBitVec_xor, ofWord_xor, table, toBitVec_tableEntry, hfed]

/-- The bytes of a message are the bits of the message. -/
theorem toBitVec_ccittUpdate (crc : UInt16) (data : List UInt8) :
    (ccittUpdate crc data).toBitVec =
      divide ccittPolynomial crc.toBitVec (messageBits data) := by
  induction data generalizing crc with
  | nil => rfl
  | cons b data ih =>
    have hbits : messageBits (b :: data) = bitsOf b.toBitVec ++ messageBits data :=
      List.flatMap_cons
    rw [ccittUpdate_cons, ih, toBitVec_ccittByte, hbits, divide, divide, divide,
      List.foldl_append]

theorem length_messageBits (data : List UInt8) : (messageBits data).length = 8 * data.length := by
  induction data with
  | nil => rfl
  | cons b data ih =>
    rw [messageBits, List.flatMap_cons, List.length_append, length_bitsOf, ← messageBits, ih,
      List.length_cons]
    omega

theorem messageBits_injective {xs ys : List UInt8} (hlen : xs.length = ys.length)
    (h : messageBits xs = messageBits ys) : xs = ys := by
  induction xs generalizing ys with
  | nil => exact (List.length_eq_zero_iff.mp hlen.symm).symm
  | cons x xs ih =>
    obtain ⟨y, ys, rfl⟩ := List.exists_cons_of_length_eq_add_one hlen.symm
    obtain ⟨hhead, htail⟩ := List.append_inj h (by simp)
    rw [UInt8.toBitVec_inj.mp (bitsOf_injective hhead), ih (by simpa using hlen) htail]

/-- The checksum is the remainder of the message, after the initial value and with 16 zero bits
behind it, by the CCITT polynomial; it can be computed in parts; and messages of one length that
differ in one window of 16 bits differ in it. -/
theorem ccitt_division (crc : UInt16) (data : List UInt8) :
    (ccittUpdate crc data).toBitVec = divide ccittPolynomial crc.toBitVec (messageBits data) ∧
    ofWord (ccittUpdate crc data).toBitVec =
      (ofWord crc.toBitVec * X ^ (8 * data.length) + ofBits (messageBits data) * X ^ 16) %ₘ
        (X ^ 16 + X ^ 12 + X ^ 5 + 1) ∧
    (∀ more, ccittUpdate crc (data ++ more) = ccittUpdate (ccittUpdate crc data) more) ∧
    ∀ other : List UInt8, data.length = other.length → data ≠ other →
      ∀ start, (∀ i, i < start ∨ start + 16 ≤ i →
        (messageBits data)[i]? = (messageBits other)[i]?) →
      ccittUpdate crc data ≠ ccittUpdate crc other := by
  refine ⟨toBitVec_ccittUpdate crc data, ?_, ccittUpdate_append crc data, ?_⟩
  · rw [toBitVec_ccittUpdate, ofWord_divide, generator_ccitt, length_messageBits]
  · intro other hlen hne start hwindow heq
    have hbits : (messageBits data).length = (messageBits other).length := by
      rw [length_messageBits, length_messageBits, hlen]
    refine divide_ne_of_window ccittPolynomial rfl crc.toBitVec hbits
      (fun h => hne (messageBits_injective hlen h)) hwindow ?_
    rw [← toBitVec_ccittUpdate, ← toBitVec_ccittUpdate, heq]

/-- The last bit of the first byte and the first one of the second are one burst. -/
theorem ccitt_division_two :
    ccittUpdate 0 [0x31, 0x32, 0x33] ≠ ccittUpdate 0 [0x30, 0xB2, 0x33] := by
  refine (ccitt_division 0 [0x31, 0x32, 0x33]).2.2.2 [0x30, 0xB2, 0x33] rfl (by decide) 7 ?_
  intro i hi
  by_cases hlt : i < 24
  · interval_cases i <;> first | rfl | omega
  · rw [List.getElem?_eq_none (by rw [length_messageBits]; simpa using hlt),
      List.getElem?_eq_none (by rw [length_messageBits]; simpa using hlt)]

end CarveraFirmware.Crc
