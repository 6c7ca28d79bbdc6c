import Mathlib

/-!
# A free-running 32-bit microsecond counter

True times are unbounded natural numbers; a program only sees `stamp t`, the
counter's reading at true time `t`. Unsigned differences of two readings are the
true gap while that gap stays under `2 ^ 32`, signed ones while it stays under
`2 ^ 31`.
-/

namespace CarveraFirmware.WrapClock

/-- The reading of the counter at true time `t`. -/
def stamp (t : Nat) : UInt32 := UInt32.ofNat t

@[simp] theorem stamp_toNat (t : Nat) : (stamp t).toNat = t % 2 ^ 32 := by simp [stamp]

/-- The unsigned difference of two readings is the true gap modulo the counter's range. -/
theorem stamp_sub_toNat {s t : Nat} (hst : s ≤ t) :
    (stamp t - stamp s).toNat = (t - s) % 2 ^ 32 := by
  rw [UInt32.toNat_sub, stamp_toNat, stamp_toNat]
  omega

/-- A gap shorter than one turn of the counter is read off exactly. -/
theorem stamp_sub_of_lt {s t : Nat} (hst : s ≤ t) (hgap : t - s < 2 ^ 32) :
    (stamp t - stamp s).toNat = t - s := by
  rw [stamp_sub_toNat hst, Nat.mod_eq_of_lt hgap]

/-- The difference of two readings as a signed number. -/
def signedSub (a b : UInt32) : Int := (a - b).toInt32.toInt

/-- Read as a signed number, a difference stands for itself or for itself less one turn. -/
theorem signedSub_eq (a b : UInt32) : signedSub a b =
    if 2 * (a - b).toNat < 2 ^ 32 then ((a - b).toNat : Int) else (a - b).toNat - 2 ^ 32 := by
  unfold signedSub
  rw [← Int32.toInt_toBitVec, UInt32.toBitVec_toInt32, BitVec.toInt_eq_toNat_cond]
  rfl

/-- A reading taken less than half a turn later is ahead by the true gap. -/
theorem signedSub_stamp {s t : Nat} (hst : s ≤ t) (hgap : t - s < 2 ^ 31) :
    signedSub (stamp t) (stamp s) = t - s := by
  rw [signedSub_eq, stamp_sub_of_lt hst (by omega), if_pos (by omega)]
  omega

/-- A reading taken at most half a turn earlier is behind by the true gap. -/
theorem signedSub_stamp_neg {s t : Nat} (hst : s < t) (hgap : t - s ≤ 2 ^ 31) :
    signedSub (stamp s) (stamp t) = (s : Int) - t := by
  have hsub : (stamp s - stamp t).toNat = 2 ^ 32 - (t - s) := by
    rw [UInt32.toNat_sub, stamp_toNat, stamp_toNat]
    omega
  rw [signedSub_eq, hsub, if_neg (by omega)]
  omega

end CarveraFirmware.WrapClock
