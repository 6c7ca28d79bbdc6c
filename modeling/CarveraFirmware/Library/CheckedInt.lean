import Mathlib

/-!
# Signed 32-bit arithmetic that is checked

Results of `int` operations as optional integers, with nothing where the operation is undefined: on
overflow, on a division by zero, and where a number is too large to be converted. Division and
conversion truncate towards zero.
-/

namespace CarveraFirmware

/-- The values of a signed 32-bit integer. -/
def IsInt (z : ℤ) : Prop := -2 ^ 31 ≤ z ∧ z < 2 ^ 31

instance : DecidablePred IsInt := fun z => inferInstanceAs (Decidable (-2 ^ 31 ≤ z ∧ z < 2 ^ 31))

/-- The result of an operation, where it fits. -/
def checkInt (z : ℤ) : Option ℤ := if IsInt z then some z else none

def divInt (a b : ℤ) : Option ℤ := if b = 0 then none else checkInt (a.tdiv b)

/-- A number without its fraction. -/
def truncate (x : ℚ) : ℤ := if 0 ≤ x then ⌊x⌋ else ⌈x⌉

def toInt (x : ℚ) : Option ℤ := checkInt (truncate x)

variable {α : Type*} {a : α} {f : ℤ → Option α} {x y : ℚ} {z z' : ℤ}

theorem isInt_of_between (hz : IsInt z) (hz' : IsInt z') {w : ℤ} (hle : z ≤ w) (hle' : w ≤ z') :
    IsInt w :=
  ⟨hz.1.trans hle, hle'.trans_lt hz'.2⟩

theorem isInt_of_le (hz : IsInt z) {w : ℤ} (hw : 0 ≤ w) (hle : w ≤ z) : IsInt w :=
  isInt_of_between ⟨by norm_num, by norm_num⟩ hz hw hle

@[simp] theorem checkInt_bind_eq_some :
    (checkInt z).bind f = some a ↔ IsInt z ∧ f z = some a := by
  by_cases hz : IsInt z <;> simp [checkInt, hz]

@[simp] theorem toInt_bind_eq_some :
    (toInt x).bind f = some a ↔ IsInt (truncate x) ∧ f (truncate x) = some a :=
  checkInt_bind_eq_some

@[simp] theorem divInt_bind_eq_some :
    (divInt z z').bind f = some a ↔ z' ≠ 0 ∧ IsInt (z.tdiv z') ∧ f (z.tdiv z') = some a := by
  by_cases hz : z' = 0 <;> simp [divInt, hz]

theorem truncate_of_nonneg (hx : 0 ≤ x) : truncate x = ⌊x⌋ := if_pos hx

theorem truncate_mono (h : x ≤ y) : truncate x ≤ truncate y := by
  unfold truncate
  split
  · rename_i hx
    rw [if_pos (hx.trans h)]
    exact Int.floor_le_floor h
  · rename_i hx
    split
    · rename_i hy
      exact (Int.ceil_le.mpr (by push_cast; exact le_of_not_ge hx)).trans (Int.floor_nonneg.mpr hy)
    · exact Int.ceil_le_ceil h

/-- Of two numbers in order, the truncated ones are less than one further apart, and less than two
nearer. -/
theorem truncate_sub_lt (h : x ≤ y) : ((truncate y - truncate x : ℤ) : ℚ) < y - x + 1 := by
  have hfloor := Int.floor_le y
  have hfloor' := Int.lt_floor_add_one x
  have hceil := Int.ceil_lt_add_one y
  have hceil' := Int.le_ceil x
  unfold truncate
  push_cast
  split <;> split <;> linarith

theorem lt_truncate_sub (h : x ≤ y) : y - x - 2 < ((truncate y - truncate x : ℤ) : ℚ) := by
  have hfloor := Int.floor_le x
  have hfloor' := Int.lt_floor_add_one y
  have hceil := Int.ceil_lt_add_one x
  have hceil' := Int.le_ceil y
  unfold truncate
  push_cast
  split <;> split <;> linarith

theorem floor_intCast_div (a : ℤ) {b : ℤ} (hb : 0 < b) : ⌊(a / b : ℚ)⌋ = a / b := by
  have hb' : (0 : ℚ) < b := by exact_mod_cast hb
  rw [Int.floor_eq_iff]
  constructor
  · rw [le_div_iff₀ hb']
    exact_mod_cast Int.ediv_mul_le a hb.ne'
  · rw [div_lt_iff₀ hb']
    exact_mod_cast Int.lt_ediv_add_one_mul_self a hb

/-- How far a number may be past another for its whole part to be at most one off. -/
theorem abs_floor_add_sub_le_one_iff (a : ℚ) {e : ℚ} (he : 0 ≤ e) :
    |(⌊a + e⌋ - a : ℚ)| ≤ 1 ↔ e < 2 - Int.fract a := by
  have hlt := Int.lt_floor_add_one (a + e)
  have hself := Int.self_sub_floor a
  have hbelow : -1 ≤ (⌊a + e⌋ - a : ℚ) := by linarith
  rw [abs_le, and_iff_right hbelow]
  constructor
  · intro h
    have hfloor : ⌊a + e⌋ ≤ ⌊a⌋ + 1 := by
      rw [← Int.floor_add_one]
      exact Int.le_floor.mpr (by linarith)
    have hfloor' : (⌊a + e⌋ : ℚ) ≤ ⌊a⌋ + 1 := by exact_mod_cast hfloor
    linarith
  · intro h
    have hfloor : ⌊a + e⌋ < ⌊a⌋ + 2 := by
      rw [Int.floor_lt]
      push_cast
      linarith
    have hfloor' : (⌊a + e⌋ : ℚ) ≤ ⌊a⌋ + 1 := by exact_mod_cast (by omega : ⌊a + e⌋ ≤ ⌊a⌋ + 1)
    linarith [Int.floor_le a]

end CarveraFirmware
