import Mathlib

/-!
# Numbers as bytes, the high one first

A number of a fixed width is written as its low bytes, and read back by shifting each byte in.
-/

namespace CarveraFirmware.BigEndian

/-- The low `n` bytes of a number, the high one first. -/
def bytes : Nat → Nat → List UInt8
  | 0, _ => []
  | n + 1, w => UInt8.ofNat (w / 256 ^ n) :: bytes n w

/-- The number that a sequence of bytes stands for. -/
def value (l : List UInt8) : Nat := l.foldl (fun n b => n * 256 + b.toNat) 0

@[simp] theorem length_bytes (n w : Nat) : (bytes n w).length = n := by
  induction n with
  | zero => rfl
  | succ n ih => rw [bytes, List.length_cons, ih]

theorem foldl_bytes (n w a : Nat) :
    (bytes n w).foldl (fun n b => n * 256 + b.toNat) a = a * 256 ^ n + w % 256 ^ n := by
  induction n generalizing a with
  | zero => simp [bytes, Nat.mod_one]
  | succ n ih =>
    have hsplit : w % 256 ^ (n + 1) = w % 256 ^ n + 256 ^ n * (w / 256 ^ n % 256) := by
      rw [pow_succ, Nat.mod_mul]
    rw [bytes, List.foldl_cons, ih, UInt8.toNat_ofNat', hsplit, pow_succ]
    simp only [Nat.reducePow]
    generalize w / 256 ^ n % 256 = high
    ring

theorem value_bytes {n w : Nat} (h : w < 256 ^ n) : value (bytes n w) = w := by
  rw [value, foldl_bytes, Nat.zero_mul, Nat.zero_add, Nat.mod_eq_of_lt h]

theorem bytes_injective {n v w : Nat} (hv : v < 256 ^ n) (hw : w < 256 ^ n)
    (h : bytes n v = bytes n w) : v = w := by
  rw [← value_bytes hv, h, value_bytes hw]

/-- Numbers of one width are told apart, and so is what follows them. -/
theorem bytes_append_inj {n v w : Nat} {r r' : List UInt8} (hv : v < 256 ^ n) (hw : w < 256 ^ n)
    (h : bytes n v ++ r = bytes n w ++ r') : v = w ∧ r = r' := by
  obtain ⟨hbytes, hrest⟩ := List.append_inj h (by rw [length_bytes, length_bytes])
  exact ⟨bytes_injective hv hw hbytes, hrest⟩

/-- Shifting a byte into a 64-bit word. -/
theorem shift_in (n : Nat) (b : UInt8) :
    (UInt64.ofNat n <<< 8) ||| b.toUInt64 = UInt64.ofNat (n * 256 + b.toNat) := by
  have hb := b.toNat_lt
  apply UInt64.toNat_inj.mp
  rw [UInt64.toNat_or, UInt64.toNat_shiftLeft]
  simp only [UInt64.toNat_ofNat', UInt8.toNat_toUInt64, UInt64.reduceToNat, Nat.reduceMod]
  have hshift : (n % 2 ^ 64) <<< 8 % 2 ^ 64 = (n % 2 ^ 56) <<< 8 := by
    rw [Nat.shiftLeft_eq, Nat.shiftLeft_eq]
    omega
  rw [hshift, ← Nat.shiftLeft_add_eq_or_of_lt (by omega), Nat.shiftLeft_eq]
  omega

theorem foldl_shift_in (l : List UInt8) (n : Nat) :
    l.foldl (fun (id : UInt64) b => (id <<< 8) ||| b.toUInt64) (UInt64.ofNat n) =
      UInt64.ofNat (l.foldl (fun n b => n * 256 + b.toNat) n) := by
  induction l generalizing n with
  | nil => rfl
  | cons b l ih => rw [List.foldl_cons, shift_in, ih, List.foldl_cons]

end CarveraFirmware.BigEndian
