import Mathlib

/-!
# Words and bit strings as polynomials over two elements

Bit `i` of a word is the coefficient of `X ^ i`; a bit string has its highest power first. A shift
register that folds a generator in whenever a bit leaves its top divides the string it is fed by
that generator, and a generator with a constant term tells apart two strings that differ in one
window as wide as the register.
-/

namespace CarveraFirmware.BitPoly

open Polynomial

/-- A bit as a coefficient. -/
def coeffOf (b : Bool) : ZMod 2 := if b then 1 else 0

@[simp] theorem coeffOf_false : coeffOf false = 0 := rfl

@[simp] theorem coeffOf_true : coeffOf true = 1 := rfl

theorem coeffOf_xor (a b : Bool) : coeffOf (a ^^ b) = coeffOf a + coeffOf b := by
  cases a <;> cases b <;> decide

theorem coeffOf_inj {a b : Bool} (h : coeffOf a = coeffOf b) : a = b := by
  revert h
  cases a <;> cases b <;> decide

/-! ## Words -/

noncomputable def ofWord {w : Nat} (x : BitVec w) : (ZMod 2)[X] :=
  ∑ i ∈ Finset.range w, monomial i (coeffOf (x.getLsbD i))

section Words

variable {w : Nat}

theorem coeff_ofWord (x : BitVec w) (i : Nat) : (ofWord x).coeff i = coeffOf (x.getLsbD i) := by
  simp only [ofWord, finsetSum_coeff, coeff_monomial, Finset.sum_ite_eq', Finset.mem_range]
  split
  · rfl
  · next h => rw [BitVec.getLsbD_of_ge x i (not_lt.mp h), coeffOf_false]

theorem ofWord_xor (x y : BitVec w) : ofWord (x ^^^ y) = ofWord x + ofWord y := by
  ext i
  rw [coeff_add, coeff_ofWord, coeff_ofWord, coeff_ofWord, BitVec.getLsbD_xor, coeffOf_xor]

theorem ofWord_injective {x y : BitVec w} (h : ofWord x = ofWord y) : x = y := by
  apply BitVec.eq_of_getLsbD_eq
  intro i _
  apply coeffOf_inj
  rw [← coeff_ofWord, ← coeff_ofWord, h]

theorem degree_ofWord_lt (x : BitVec w) : (ofWord x).degree < w := by
  rw [degree_lt_iff_coeff_zero]
  intro i hi
  rw [coeff_ofWord, BitVec.getLsbD_of_ge x i hi, coeffOf_false]

end Words

/-! ## Bit strings -/

noncomputable def ofBits (bits : List Bool) : (ZMod 2)[X] :=
  bits.foldl (fun p b => X * p + C (coeffOf b)) 0

theorem ofBits_concat (bits : List Bool) (b : Bool) :
    ofBits (bits ++ [b]) = X * ofBits bits + C (coeffOf b) := by
  simp only [ofBits, List.foldl_append, List.foldl_cons, List.foldl_nil]

theorem coeff_ofBits (bits : List Bool) (i : Nat) :
    (ofBits bits).coeff i = coeffOf (bits.reverse.getD i false) := by
  induction bits using List.reverseRecOn generalizing i with
  | nil => simp [ofBits]
  | append_singleton bits b ih =>
    rw [ofBits_concat, List.reverse_append, List.reverse_singleton, List.singleton_append]
    cases i with
    | zero => simp
    | succ i =>
      rw [coeff_add, coeff_X_mul, coeff_C_succ, add_zero, ih, List.getD_cons_succ]

theorem ofBits_replicate_false (n : Nat) : ofBits (List.replicate n false) = 0 := by
  ext i
  rw [coeff_ofBits, List.reverse_replicate, coeff_zero]
  by_cases h : i < n <;> simp [List.getD_eq_getElem?_getD, h]

/-- The bits of a word, the highest first. -/
def bitsOf {w : Nat} (x : BitVec w) : List Bool := (List.range w).reverse.map x.getLsbD

@[simp] theorem length_bitsOf {w : Nat} (x : BitVec w) : (bitsOf x).length = w := by
  simp [bitsOf]

theorem ofBits_bitsOf {w : Nat} (x : BitVec w) : ofBits (bitsOf x) = ofWord x := by
  ext i
  rw [coeff_ofBits, coeff_ofWord, bitsOf, ← List.map_reverse, List.reverse_reverse]
  by_cases h : i < w
  · simp [List.getD_eq_getElem?_getD, h]
  · simp [List.getD_eq_getElem?_getD, h, BitVec.getLsbD_of_ge x i (not_lt.mp h)]

theorem bitsOf_injective {w : Nat} {x y : BitVec w} (h : bitsOf x = bitsOf y) : x = y := by
  apply ofWord_injective
  rw [← ofBits_bitsOf, ← ofBits_bitsOf, h]

/-! ## Division by a shift register -/

/-- One turn of the register: `bit` meets the bit that leaves the top, and when they differ the
generator's lower part is folded in. -/
def divideBit {w : Nat} (g : BitVec w) (r : BitVec w) (bit : Bool) : BitVec w :=
  if r.msb ^^ bit then (r <<< 1) ^^^ g else r <<< 1

/-- The register after a bit string. -/
def divide {w : Nat} (g : BitVec w) (r : BitVec w) (bits : List Bool) : BitVec w :=
  bits.foldl (divideBit g) r

/-- The generator a register of `w` bits divides by; `g` is all of it but the leading term. -/
noncomputable def generator {w : Nat} (g : BitVec w) : (ZMod 2)[X] := X ^ w + ofWord g

section Division

variable {w : Nat} (g : BitVec w)

theorem monic_generator : (generator g).Monic := monic_X_pow_add (degree_ofWord_lt g)

theorem degree_generator : (generator g).degree = w :=
  (degree_add_eq_left_of_degree_lt (by rw [degree_X_pow]; exact degree_ofWord_lt g)).trans
    (degree_X_pow w)

/-- Shifting left multiplies by `X`; the bit that leaves the top is the coefficient of `X ^ w`. -/
theorem ofWord_shiftLeft_one (r : BitVec w) :
    ofWord (r <<< 1) + C (coeffOf r.msb) * X ^ w = ofWord r * X := by
  ext i
  rw [coeff_add, coeff_C_mul, coeff_X_pow, coeff_ofWord, BitVec.getLsbD_shiftLeft]
  cases i with
  | zero =>
    cases w with
    | zero => simp [BitVec.msb, BitVec.eq_nil r]
    | succ w => simp
  | succ i =>
    rw [coeff_mul_X, coeff_ofWord, Nat.add_sub_cancel]
    rcases Nat.lt_trichotomy (i + 1) w with hlt | heq | hgt
    · simp [hlt, hlt.ne]
    · subst heq
      simp [BitVec.msb_eq_getLsbD_last]
    · rw [BitVec.getLsbD_of_ge r i (by omega)]
      simp [hgt.ne', hgt.not_gt]

theorem ofWord_mod (x : BitVec w) : ofWord x %ₘ generator g = ofWord x := by
  rw [modByMonic_eq_self_iff (monic_generator g), degree_generator]
  exact degree_ofWord_lt x

/-- One turn multiplies by `X` and adds the bit at `X ^ w`, up to a multiple of the generator. -/
theorem ofWord_divideBit (r : BitVec w) (bit : Bool) :
    ofWord (divideBit g r bit) + C (coeffOf (r.msb ^^ bit)) * generator g =
      ofWord r * X + C (coeffOf bit) * X ^ w := by
  have hshift := ofWord_shiftLeft_one r
  have htwo : (2 : (ZMod 2)[X]) = 0 := CharTwo.two_eq_zero
  rw [← hshift, coeffOf_xor, C_add]
  cases hx : r.msb ^^ bit with
  | false =>
    have hsum : C (coeffOf r.msb) + C (coeffOf bit) = 0 := by
      rw [← C_add, ← coeffOf_xor, hx, coeffOf_false, C_0]
    simp only [divideBit, hx, Bool.false_eq_true, if_false]
    linear_combination generator g * hsum - X ^ w * hsum
  | true =>
    have hsum : C (coeffOf r.msb) + C (coeffOf bit) = 1 := by
      rw [← C_add, ← coeffOf_xor, hx, coeffOf_true, C_1]
    simp only [divideBit, hx, if_true, ofWord_xor, generator]
    linear_combination (ofWord g) * hsum + ofWord g * htwo

/-- The register holds the remainder of all it was fed, its first contents in front. -/
theorem ofWord_divide (r : BitVec w) (bits : List Bool) :
    ofWord (divide g r bits) =
      (ofWord r * X ^ bits.length + ofBits bits * X ^ w) %ₘ generator g := by
  induction bits using List.reverseRecOn with
  | nil => simp [divide, ofBits, ofWord_mod]
  | append_singleton bits b ih =>
    have hturn := ofWord_divideBit g (divide g r bits) b
    set p := ofWord r * X ^ bits.length + ofBits bits * X ^ w with hp
    have hdiv := modByMonic_add_div p (generator g)
    rw [← ih] at hdiv
    rw [divide, List.foldl_append, List.foldl_cons, List.foldl_nil, ← divide, ofBits_concat,
      List.length_append, List.length_singleton]
    refine ((div_modByMonic_unique (C (coeffOf ((divide g r bits).msb ^^ b)) +
      X * (p /ₘ generator g)) _ (monic_generator g) ⟨?_, ?_⟩).2).symm
    · rw [pow_succ]
      linear_combination hturn + X * hdiv + X * hp
    · rw [degree_generator]
      exact degree_ofWord_lt _

/-! ## Bursts -/

/-- A generator with a constant term has no factor `X`. -/
theorem isCoprime_X_generator (hg : g.getLsbD 0 = true) :
    IsCoprime (X : (ZMod 2)[X]) (generator g) := by
  have hw : w ≠ 0 := by
    rintro rfl
    simp at hg
  have hconst : (generator g).coeff 0 = 1 := by
    rw [generator, coeff_add, coeff_X_pow, if_neg (Ne.symm hw), coeff_ofWord, hg, coeffOf_true,
      zero_add]
  refine ⟨-(generator g).divX, 1, ?_⟩
  have hdiv := divX_mul_X_add (generator g)
  rw [hconst, C_1] at hdiv
  linear_combination -hdiv

/-- A polynomial that only has coefficients in one window of `w` is no multiple of the generator. -/
theorem eq_zero_of_generator_dvd (hg : g.getLsbD 0 = true) {p : (ZMod 2)[X]} {low : Nat}
    (hlow : ∀ i < low, p.coeff i = 0) (hhigh : ∀ i, low + w ≤ i → p.coeff i = 0)
    (hdvd : generator g ∣ p) : p = 0 := by
  obtain ⟨e, rfl⟩ := X_pow_dvd_iff.mpr hlow
  have hcop : IsCoprime (generator g) (X ^ low) := (isCoprime_X_generator g hg).symm.pow_right
  have he : generator g ∣ e := hcop.dvd_of_dvd_mul_left hdvd
  have hdeg : e.degree < (generator g).degree := by
    rw [degree_generator, degree_lt_iff_coeff_zero]
    intro i hi
    have := hhigh (i + low) (by omega)
    rwa [coeff_X_pow_mul] at this
  rw [eq_zero_of_dvd_of_degree_lt he hdeg, mul_zero]

/-- Two strings that differ in one window as wide as the register leave different remainders. -/
theorem divide_ne_of_window (hg : g.getLsbD 0 = true) (r : BitVec w) {xs ys : List Bool}
    (hlen : xs.length = ys.length) (hne : xs ≠ ys) {start : Nat}
    (hwindow : ∀ i, i < start ∨ start + w ≤ i → xs[i]? = ys[i]?) :
    divide g r xs ≠ divide g r ys := by
  intro heq
  -- what the two dividends differ by is a multiple of the generator
  have hmod := congrArg ofWord heq
  rw [ofWord_divide, ofWord_divide, hlen, ← sub_eq_zero, ← sub_modByMonic,
    modByMonic_eq_zero_iff_dvd (monic_generator g), add_sub_add_left_eq_sub, ← sub_mul] at hmod
  have hcop : IsCoprime (generator g) (X ^ w) := (isCoprime_X_generator g hg).symm.pow_right
  have hdvd : generator g ∣ ofBits xs - ofBits ys := hcop.dvd_of_dvd_mul_right hmod
  have hcoeff {i : Nat} (hi : i < xs.length → xs.length - 1 - i < start ∨
      start + w ≤ xs.length - 1 - i) : (ofBits xs - ofBits ys).coeff i = 0 := by
    rw [coeff_sub, coeff_ofBits, coeff_ofBits, List.getD_eq_getElem?_getD,
      List.getD_eq_getElem?_getD]
    by_cases hlt : i < xs.length
    · rw [List.getElem?_reverse hlt, List.getElem?_reverse (hlen ▸ hlt), ← hlen,
        hwindow _ (hi hlt), sub_self]
    · rw [List.getElem?_eq_none (by simpa using hlt),
        List.getElem?_eq_none (by simpa [← hlen] using hlt), sub_self]
  have hlow : ∀ i < xs.length - (start + w), (ofBits xs - ofBits ys).coeff i = 0 :=
    fun i hi => hcoeff fun _ => by omega
  have hzero := eq_zero_of_generator_dvd g hg hlow (fun i hi => hcoeff fun _ => by omega) hdvd
  apply hne
  apply List.reverse_injective
  apply List.ext_getElem (by simpa using hlen)
  intro i h1 h2
  have hbit := congrArg (coeff · i) (sub_eq_zero.mp hzero)
  simp only [coeff_ofBits] at hbit
  have := coeffOf_inj hbit
  rwa [List.getD_eq_getElem _ _ h1, List.getD_eq_getElem _ _ h2] at this

end Division

end CarveraFirmware.BitPoly
