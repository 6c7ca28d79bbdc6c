import Mathlib
import CarveraFirmware.Probe.FlexCompensation

/-!
# Compensation and its inverse

`CartGridStrategy::doCompensation` with both of its parts: the flex part and, at the position that
it gives, the grid. The inverse takes the parts in the same order, each at the position it has got to
by then. The functions on floats are left open, but for the two exact values that the flex part makes
of them.
-/

namespace CarveraFirmware.Probe

/-- `sqrt(a² + t²)` times the cosine and the sine of `atan(a / t)` are `|t|` and `a`, with the sign of
`t`; here `a` is 90 and `t` is in ten-thousandths. -/
structure ExactFloats extends FloatFunctions where
  y_rot : ∀ h : ℤ, h ≠ 0 → cos (triangleAngle toFloatFunctions h) *
    triangleLengthFloat toFloatFunctions h = |(h : ℚ)| / 10000
  z_rot : ∀ h : ℤ, h ≠ 0 → sin (triangleAngle toFloatFunctions h) *
    triangleLengthFloat toFloatFunctions h = 90 * (h.sign : ℚ)

section real

variable {t : ℝ}

theorem sqrt_triangle (ht : t ≠ 0) : √(90 * 90 + t * t) = |t| * √(1 + (90 / t) ^ 2) := by
  rw [← Real.sqrt_sq_eq_abs, ← Real.sqrt_mul (sq_nonneg t)]
  congr 1
  field_simp
  ring

/-- The functions on real numbers have the first value. -/
theorem real_y_rot (ht : t ≠ 0) : Real.cos (Real.arctan (90 / t)) * √(90 * 90 + t * t) = |t| := by
  have hpos : 0 < √(1 + (90 / t) ^ 2) := Real.sqrt_pos.2 (by positivity)
  rw [sqrt_triangle ht, Real.cos_arctan, mul_left_comm, one_div_mul_cancel hpos.ne', mul_one]

/-- And the second. -/
theorem real_z_rot (ht : t ≠ 0) :
    Real.sin (Real.arctan (90 / t)) * √(90 * 90 + t * t) = 90 * (|t| / t) := by
  have hpos : 0 < √(1 + (90 / t) ^ 2) := Real.sqrt_pos.2 (by positivity)
  rw [sqrt_triangle ht, Real.sin_arctan, mul_left_comm, div_mul_cancel₀ _ hpos.ne']
  ring

end real

/-- Functions with these values, for which every length is one. -/
def exactFloats : ExactFloats where
  sqrtf := fun _ => 1
  cos := fun angle => |90 / angle|
  sin := fun angle => if 0 < angle then 90 else -90
  atan := id
  y_rot := by
    intro h _
    have hback : (900000 : ℚ) / 10000 = 90 := by norm_num
    simp only [triangleAngle, triangleLengthFloat, triangleYInt, id_eq, mul_one]
    push_cast
    rw [hback, div_div_cancel₀ (by norm_num), abs_div, abs_of_pos (by norm_num : (0 : ℚ) < 10000)]
  z_rot := by
    intro h hne
    simp only [triangleAngle, triangleLengthFloat, triangleYInt, id_eq, mul_one]
    push_cast
    obtain hneg | hpos := lt_or_gt_of_ne hne
    · have hcast : (h : ℚ) < 0 := by exact_mod_cast hneg
      have hangle : (900000 : ℚ) / 10000 / (h / 10000) ≤ 0 :=
        div_nonpos_of_nonneg_of_nonpos (by norm_num) (by linarith)
      rw [if_neg hangle.not_gt, Int.sign_eq_neg_one_of_neg hneg]
      norm_num
    · have hcast : (0 : ℚ) < h := by exact_mod_cast hpos
      have hangle : (0 : ℚ) < 900000 / 10000 / (h / 10000) := by positivity
      rw [if_pos hangle, Int.sign_eq_one_of_pos hpos]
      norm_num

/-- The heights above which nothing is corrected, and up to which everything is. -/
structure Damping where
  heightLimit : ℚ
  dampeningStart : ℚ
  interval_pos : dampeningStart < heightLimit

def Damping.dampingInterval (d : Damping) : ℚ := d.heightLimit - d.dampeningStart

/-- The grid that was probed, its cells row by row; `NAN` is none. -/
structure CartGrid where
  xStart : ℚ := 0
  yStart : ℚ := 0
  xSize : ℚ
  ySize : ℚ
  currentGridXSize : UInt8
  currentGridYSize : UInt8
  grid : ℕ → Option ℚ
  /-- None if one of the two settings is missing. -/
  damping : Option Damping

structure CartGridStrategy extends CartGrid where
  flex : Option FlexCompensation
  refmz : ℚ := 0
  tlo : ℚ := 0
  cartesianGridActive : Bool

namespace Damping

variable {d : Damping} {z z' : ℚ}

/-- The part of the offset that is taken at a height. -/
def fade (d : Damping) (z : ℚ) : ℚ :=
  if z ≤ d.dampeningStart then 1
  else if z ≤ d.heightLimit then (d.heightLimit - z) / d.dampingInterval else 0

theorem dampingInterval_pos : 0 < d.dampingInterval := sub_pos.2 d.interval_pos

theorem fade_between (hstart : d.dampeningStart < z) (hlimit : z ≤ d.heightLimit) :
    d.fade z = (d.heightLimit - z) / d.dampingInterval := by
  rw [fade, if_neg hstart.not_ge, if_pos hlimit]

theorem fade_eq_one_iff : d.fade z = 1 ↔ z ≤ d.dampeningStart := by
  refine ⟨fun h => ?_, fun h => if_pos h⟩
  by_contra hstart
  rw [not_le] at hstart
  by_cases hlimit : z ≤ d.heightLimit
  · rw [fade_between hstart hlimit, div_eq_one_iff_eq dampingInterval_pos.ne', dampingInterval] at h
    linarith
  · rw [fade, if_neg hstart.not_ge, if_neg hlimit] at h
    exact zero_ne_one h

theorem fade_eq_zero_iff : d.fade z = 0 ↔ d.heightLimit ≤ z := by
  have hpos := d.interval_pos
  constructor
  · intro h
    by_contra hlimit
    rw [not_le] at hlimit
    by_cases hstart : z ≤ d.dampeningStart
    · rw [fade_eq_one_iff.2 hstart] at h
      exact one_ne_zero h
    · rw [fade_between (not_le.1 hstart) hlimit.le, div_eq_zero_iff] at h
      exact h.elim (fun h => by linarith) dampingInterval_pos.ne'
  · intro hlimit
    rw [fade, if_neg (by linarith)]
    split
    · rename_i hle
      rw [le_antisymm hle hlimit, sub_self, zero_div]
    · rfl

/-- Where it fades, every height takes another part. -/
theorem fade_inj (hstart : d.dampeningStart < z) (hlimit : z < d.heightLimit)
    (h : d.fade z' = d.fade z) : z' = z := by
  have hone : d.fade z' ≠ 1 := h ▸ fun h => hstart.not_ge (fade_eq_one_iff.1 h)
  have hzero : d.fade z' ≠ 0 := h ▸ fun h => hlimit.not_ge (fade_eq_zero_iff.1 h)
  have hstart' : d.dampeningStart < z' := not_le.1 fun hle => hone (fade_eq_one_iff.2 hle)
  have hlimit' : z' < d.heightLimit := not_le.1 fun hle => hzero (fade_eq_zero_iff.2 hle)
  rw [fade_between hstart hlimit.le, fade_between hstart' hlimit'.le,
    div_left_inj' dampingInterval_pos.ne'] at h
  linarith

end Damping

namespace CartGrid

variable (g : CartGrid)

/-- `scale`, or none above the height limit. -/
def scale (z : ℚ) : Option ℚ :=
  match g.damping with
  | none => some 1
  | some d =>
    if z ≤ d.heightLimit then
      some (if d.dampeningStart ≤ z then 1 - (z - d.dampeningStart) / d.dampingInterval else 1)
    else none

/-- `grid_x` and `grid_y`. A spacing of zero gives an infinity, or no number where 0 is divided. -/
def gridCoordinate (currentSize : UInt8) (start size target : ℚ) : ℚ :=
  let spacing := size / (currentSize.toNat - 1)
  let last := currentSize.toNat - 1001 / 1000
  max (1 / 1000)
    (if spacing = 0 ∧ start ≤ target then last else min last ((target - start) / spacing))

def isOutside (x y : ℚ) : Bool :=
  let minX := min g.xStart (g.xStart + g.xSize)
  let maxX := max g.xStart (g.xStart + g.xSize)
  let minY := min g.yStart (g.yStart + g.ySize)
  let maxY := max g.yStart (g.yStart + g.ySize)
  x < minX - 1 / 1000 || maxX + 1 / 1000 < x || y < minY - 1 / 1000 || maxY + 1 / 1000 < y

/-- `offset`. -/
def offset (x y : ℚ) : Option ℚ := do
  let gridX := gridCoordinate g.currentGridXSize g.xStart g.xSize x
  let gridY := gridCoordinate g.currentGridYSize g.yStart g.ySize y
  let floorX := ⌊gridX⌋.toNat
  let floorY := ⌊gridY⌋.toNat
  let ratioX := gridX - ⌊gridX⌋
  let ratioY := gridY - ⌊gridY⌋
  let width := g.currentGridXSize.toNat
  let z1 ← g.grid (floorX + floorY * width)
  let z2 ← g.grid (floorX + (floorY + 1) * width)
  let z3 ← g.grid (floorX + 1 + floorY * width)
  let z4 ← g.grid (floorX + 1 + (floorY + 1) * width)
  let left := (1 - ratioY) * z1 + ratioY * z2
  let right := (1 - ratioY) * z3 + ratioY * z4
  some ((1 - ratioX) * left + ratioX * right)

/-- The grid part of `doCompensation`. -/
def doCompensation (target : Target) (inverse : Bool) : Target :=
  match g.scale target.z with
  | none => target
  | some scale =>
    if g.isOutside target.x target.y then target
    else
      match g.offset target.x target.y with
      | none => target
      | some offset =>
        { target with
          z := if inverse then target.z - offset * scale else target.z + offset * scale }

end CartGrid

namespace CartGridStrategy

variable (floats : FloatFunctions) (s : CartGridStrategy)

/-- `CartGridStrategy::doCompensation`. -/
def doCompensation (target : Target) (inverse : Bool) : Option Target := do
  let target ←
    match s.flex with
    | none => some target
    | some f => f.doCompensation floats s.xStart s.refmz s.tlo target inverse
  some (if s.cartesianGridActive && (s.grid 0).isSome then s.toCartGrid.doCompensation target inverse
    else target)

/-- The compensation and its inverse after it give back the position. -/
def GivesBack (target : Target) : Prop :=
  ((s.doCompensation floats target false).bind fun t => s.doCompensation floats t true) = some target

/-! ## The grid part as a sum -/

/-- The offset at a position, and zero where there is none. -/
def offsetAt (x y : ℚ) : ℚ :=
  if s.cartesianGridActive && (s.grid 0).isSome && !s.isOutside x y then (s.offset x y).getD 0 else 0

/-- What the grid part adds to Z. -/
def correction (x y z : ℚ) : ℚ := s.offsetAt x y * (s.scale z).getD 0

variable {floats s} {target : Target} {x y z : ℚ}

theorem gridPart_eq {inverse : Bool} :
    (if s.cartesianGridActive && (s.grid 0).isSome then s.toCartGrid.doCompensation target inverse
      else target) =
      { target with
        z := if inverse then target.z - s.correction target.x target.y target.z
          else target.z + s.correction target.x target.y target.z } := by
  obtain ⟨x, y, z⟩ := target
  rw [correction, offsetAt]
  cases hactive : s.cartesianGridActive && (s.grid 0).isSome with
  | false => simp
  | true =>
    rw [if_pos rfl, CartGrid.doCompensation]
    cases hscale : s.scale z with
    | none => simp
    | some scale =>
      cases houtside : s.isOutside x y with
      | true => simp
      | false =>
        cases hoffset : s.offset x y with
        | none => simp
        | some offset => simp

/-! ## The grid part alone -/

/-- There is nothing to correct, or nothing at this height, or all of it both here and at the
corrected height. -/
def GridKept (s : CartGridStrategy) (x y z : ℚ) : Prop :=
  s.offsetAt x y = 0 ∨
    match s.damping with
    | none => True
    | some d => d.heightLimit ≤ z ∨ (z ≤ d.dampeningStart ∧ z + s.offsetAt x y ≤ d.dampeningStart)

theorem scale_of_damping {d : Damping} (h : s.damping = some d) :
    (s.scale z).getD 0 = d.fade z := by
  have hpos := d.interval_pos
  have hinterval : d.dampingInterval ≠ 0 := (sub_pos.2 hpos).ne'
  rw [CartGrid.scale, h, Damping.fade]
  dsimp only
  by_cases hlimit : z ≤ d.heightLimit
  · rw [if_pos hlimit, Option.getD_some]
    obtain hlt | rfl | hgt := lt_trichotomy z d.dampeningStart
    · rw [if_neg hlt.not_ge, if_pos hlt.le]
    · rw [if_pos le_rfl, if_pos le_rfl, sub_self, zero_div, sub_zero]
    · rw [if_pos hgt.le, if_neg hgt.not_ge, if_pos hlimit, eq_div_iff hinterval, sub_mul, one_mul,
        div_mul_cancel₀ _ hinterval, Damping.dampingInterval]
      ring
  · rw [if_neg hlimit, if_neg (by linarith), if_neg hlimit, Option.getD_none]

theorem correction_kept_iff :
    s.correction x y (z + s.correction x y z) = s.correction x y z ↔ s.GridKept x y z := by
  rw [GridKept]
  obtain hoffset | hoffset := eq_or_ne (s.offsetAt x y) 0
  · simp [correction, hoffset]
  rw [correction, correction, mul_right_inj' hoffset, or_iff_right hoffset]
  cases hdamping : s.damping with
  | none => simp [CartGrid.scale, hdamping]
  | some d =>
    have hpos := d.interval_pos
    rw [scale_of_damping hdamping, scale_of_damping hdamping]
    dsimp only
    by_cases hstart : z ≤ d.dampeningStart
    · rw [Damping.fade_eq_one_iff.2 hstart, mul_one, Damping.fade_eq_one_iff,
        or_iff_right (by linarith), and_iff_right hstart]
    · by_cases hlimit : d.heightLimit ≤ z
      · rw [Damping.fade_eq_zero_iff.2 hlimit, mul_zero, add_zero, Damping.fade_eq_zero_iff.2 hlimit]
        exact iff_of_true rfl (.inl hlimit)
      · rw [not_le] at hstart hlimit
        refine iff_of_false (fun h => ?_) (by simp [hstart.not_ge, hlimit.not_ge])
        have hsame := Damping.fade_inj hstart hlimit h
        have hfade : d.fade z ≠ 0 := fun h => hlimit.not_ge (Damping.fade_eq_zero_iff.1 h)
        exact mul_ne_zero hoffset hfade (by linarith)

/-! ## Both parts -/

/-- `triangle_z_int`. -/
def triangleZInt (s : CartGridStrategy) (z : ℚ) : ℤ :=
  |truncate (z * 10000)| + machineOffsetZInt + truncate (s.tlo * 10000) + truncate (s.refmz * 10000)
    - sensorMachineZInt

/-- What the flex part adds to Y, and takes from Z, at a height of the triangle. -/
def flexY (h : ℤ) (delta : ℚ) : ℚ := |(h : ℚ)| / 10000 * delta

def flexZ (h : ℤ) (delta : ℚ) : ℚ := (90 * h.sign + 45 / 2) * delta

theorem flexPart_eq_some_iff {floats : ExactFloats} {f : FlexCompensation} {xStart : ℚ}
    {inverse : Bool} {r : Target} :
    f.doCompensation floats.toFloatFunctions xStart s.refmz s.tlo target inverse = some r ↔
      FlexCompensation.HeightFits s.refmz s.tlo target.z ∧
        ∃ delta, f.interpolatedDelta xStart target.x = some delta ∧
          (if inverse then
            { target with
              y := target.y - flexY (s.triangleZInt target.z) delta
              z := target.z + flexZ (s.triangleZInt target.z) delta }
          else
            { target with
              y := target.y + flexY (s.triangleZInt target.z) delta
              z := target.z - flexZ (s.triangleZInt target.z) delta }) = r := by
  -- The angle only comes in through its cosine and sine, which the side lengths give exactly.
  have hvalue (h : ℤ) (hne : h ≠ 0) (delta : ℚ) :
      (let zTrans := 1 / 2 * delta * (rodDistanceInt / (2 * 10000))
        let delta := delta * triangleLengthFloat floats.toFloatFunctions h
        let yRot := floats.cos (triangleAngle floats.toFloatFunctions h) * delta
        let zRot := floats.sin (triangleAngle floats.toFloatFunctions h) * delta
        if inverse then { target with y := target.y - yRot, z := target.z + zRot + zTrans }
        else { target with y := target.y + yRot, z := target.z - zRot - zTrans }) =
      if inverse then
        { target with y := target.y - flexY h delta, z := target.z + flexZ h delta }
      else { target with y := target.y + flexY h delta, z := target.z - flexZ h delta } := by
    have hy : floats.cos (triangleAngle floats.toFloatFunctions h) *
        (delta * triangleLengthFloat floats.toFloatFunctions h) = flexY h delta := by
      rw [mul_left_comm, floats.y_rot h hne, flexY, mul_comm]
    have hz : floats.sin (triangleAngle floats.toFloatFunctions h) *
        (delta * triangleLengthFloat floats.toFloatFunctions h) +
          1 / 2 * delta * (rodDistanceInt / (2 * 10000)) = flexZ h delta := by
      rw [mul_left_comm, floats.z_rot h hne, flexZ, rodDistanceInt]
      push_cast
      ring
    dsimp only
    rw [hy, add_assoc, hz, sub_sub, hz]
  simp only [FlexCompensation.doCompensation, Option.bind_eq_bind, toInt_bind_eq_some,
    checkInt_bind_eq_some]
  constructor
  · rintro ⟨hrefmz, htlo, htarget, habs, hoffset, hofftlo, hoffrefmz, hheight, h⟩
    obtain ⟨delta, hdelta, h⟩ := Option.bind_eq_some_iff.mp h
    split at h
    · cases h
    · rename_i hne
      exact ⟨⟨hrefmz, htlo, htarget, habs, hoffset, hofftlo, hoffrefmz, hheight, hne⟩, delta, hdelta,
        (hvalue _ hne delta).symm.trans (Option.some.inj h)⟩
  · rintro ⟨⟨hrefmz, htlo, htarget, habs, hoffset, hofftlo, hoffrefmz, hheight, hne⟩, delta, hdelta,
      rfl⟩
    refine ⟨hrefmz, htlo, htarget, habs, hoffset, hofftlo, hoffrefmz, hheight, ?_⟩
    simp only [hdelta, Option.bind_some, if_neg hne]
    exact congrArg some (hvalue _ hne delta)

/-- The parts undo each other: the triangle is as high at the compensated position, or as low, and
the grid corrects the position that the flex part is taken off from by as much as before. -/
def FlexKept (s : CartGridStrategy) (x y z delta : ℚ) : Prop :=
  let h := s.triangleZInt z
  let flexed := z - flexZ h delta
  let c := s.correction x (y + flexY h delta) flexed
  let h' := s.triangleZInt (flexed + c)
  FlexCompensation.HeightFits s.refmz s.tlo z ∧
    FlexCompensation.HeightFits s.refmz s.tlo (flexed + c) ∧
    (delta = 0 ∧ s.GridKept x y z ∨ h' = h ∧ s.correction x y (z + c) = c ∨
      h' = -h ∧ s.correction x y (z + c - 180 * h.sign * delta) = c - 180 * h.sign * delta)

def Kept (s : CartGridStrategy) (target : Target) : Prop :=
  match s.flex with
  | none => s.GridKept target.x target.y target.z
  | some f => ∃ delta, f.interpolatedDelta s.xStart target.x = some delta ∧
      s.FlexKept target.x target.y target.z delta

theorem flexY_eq_iff {h h' : ℤ} {delta : ℚ} :
    flexY h delta = flexY h' delta ↔ delta = 0 ∨ h' = h ∨ h' = -h := by
  have habs : |h| = |h'| ↔ h' = h ∨ h' = -h := by rw [eq_comm, abs_eq_abs]
  rw [flexY, flexY, mul_eq_mul_right_iff, div_left_inj' (by norm_num), or_comm, ← Int.cast_abs,
    ← Int.cast_abs, Int.cast_inj, habs]

theorem flexZ_neg {h : ℤ} {delta : ℚ} :
    flexZ (-h) delta = flexZ h delta - 180 * h.sign * delta := by
  rw [flexZ, flexZ, Int.sign_neg]
  push_cast
  ring

theorem flexed_back_iff {h h' : ℤ} {delta c : ℚ} :
    (y + flexY h delta - flexY h' delta = y ∧
        z - flexZ h delta + c + flexZ h' delta -
          s.correction x (y + flexY h delta - flexY h' delta)
            (z - flexZ h delta + c + flexZ h' delta) = z) ↔
      delta = 0 ∧ s.correction x y (z + c) = c ∨ h' = h ∧ s.correction x y (z + c) = c ∨
        h' = -h ∧ s.correction x y (z + c - 180 * h.sign * delta) = c - 180 * h.sign * delta := by
  have hy : y + flexY h delta - flexY h' delta = y ↔ flexY h delta = flexY h' delta :=
    ⟨fun h => by linarith, fun h => by linarith⟩
  -- Once Y is back, what Z comes back from depends on the height it has.
  have hz (w : ℚ) (hw : z - flexZ h delta + c + flexZ h' delta = w) :
      (y + flexY h delta - flexY h' delta = y ∧
        z - flexZ h delta + c + flexZ h' delta -
          s.correction x (y + flexY h delta - flexY h' delta)
            (z - flexZ h delta + c + flexZ h' delta) = z) ↔
      flexY h delta = flexY h' delta ∧ s.correction x y w = w - z := by
    rw [hy]
    refine and_congr_right fun hsame => ?_
    rw [hy.2 hsame, hw]
    exact ⟨fun h => by linarith, fun h => by linarith⟩
  constructor
  · intro hback
    have hsame := hy.1 hback.1
    obtain rfl | rfl | rfl := flexY_eq_iff.1 hsame
    · have hsum := ((hz (z + c) (by simp [flexZ])).1 hback).2
      exact .inl ⟨rfl, by linarith⟩
    · have hsum := ((hz (z + c) (by ring)).1 hback).2
      exact .inr (.inl ⟨rfl, by linarith⟩)
    · have hsum := ((hz (z + c - 180 * h.sign * delta) (by rw [flexZ_neg]; ring)).1 hback).2
      exact .inr (.inr ⟨rfl, by linarith⟩)
  · rintro (⟨rfl, hsum⟩ | ⟨rfl, hsum⟩ | ⟨rfl, hsum⟩)
    · exact (hz (z + c) (by simp [flexZ])).2 ⟨flexY_eq_iff.2 (.inl rfl), by linarith⟩
    · exact (hz (z + c) (by ring)).2 ⟨rfl, by linarith⟩
    · exact (hz (z + c - 180 * h.sign * delta) (by rw [flexZ_neg]; ring)).2
        ⟨flexY_eq_iff.2 (.inr (.inr rfl)), by linarith⟩

/-- Without a delta only the grid is left. -/
theorem gridKept_of_zero {h : ℤ} {delta : ℚ} :
    (delta = 0 ∧ s.correction x y (z + s.correction x (y + flexY h delta) (z - flexZ h delta)) =
        s.correction x (y + flexY h delta) (z - flexZ h delta)) ↔
      delta = 0 ∧ s.GridKept x y z := by
  refine and_congr_right fun hzero => ?_
  subst hzero
  rw [← correction_kept_iff]
  simp [flexY, flexZ]

theorem doCompensation_eq {floats : FloatFunctions} {inverse : Bool} :
    s.doCompensation floats target inverse =
      (match s.flex with
        | none => some target
        | some f => f.doCompensation floats s.xStart s.refmz s.tlo target inverse).map
        fun t : Target =>
          { t with z := if inverse then t.z - s.correction t.x t.y t.z
            else t.z + s.correction t.x t.y t.z } := by
  simp only [doCompensation, gridPart_eq]
  cases s.flex with
  | none => rfl
  | some f => exact (Option.map_eq_bind ..).symm

/-- The inverse gives back a position exactly if what the forward compensation took is what the
inverse takes, where it takes it. -/
theorem doCompensation_givesBack_iff (floats : ExactFloats) (s : CartGridStrategy)
    (target : Target) : s.GivesBack floats.toFloatFunctions target ↔ s.Kept target := by
  obtain ⟨x, y, z⟩ := target
  rw [GivesBack, Kept]
  simp only [doCompensation_eq]
  cases hflex : s.flex with
  | none =>
    have hback : z + s.correction x y z - s.correction x y (z + s.correction x y z) = z ↔
        s.correction x y (z + s.correction x y z) = s.correction x y z :=
      ⟨fun h => by linarith, fun h => by linarith⟩
    simp [← correction_kept_iff, ← hback]
  | some f =>
    dsimp only
    have hkept (h h' : ℤ) (delta : ℚ) :=
      (@flexed_back_iff s x y z h h' delta
        (s.correction x (y + flexY h delta) (z - flexZ h delta))).trans
        (or_congr_left gridKept_of_zero)
    constructor
    · intro hback
      obtain ⟨mid, hmid, hback⟩ := Option.bind_eq_some_iff.1 hback
      obtain ⟨flexed, hflexed, rfl⟩ := Option.map_eq_some_iff.1 hmid
      obtain ⟨unflexed, hunflexed, hback⟩ := Option.map_eq_some_iff.1 hback
      obtain ⟨hfits, delta, hdelta, rfl⟩ := flexPart_eq_some_iff.1 hflexed
      obtain ⟨hfits', delta', hdelta', rfl⟩ := flexPart_eq_some_iff.1 hunflexed
      obtain rfl : delta = delta' := Option.some.inj (hdelta.symm.trans hdelta')
      obtain ⟨-, hy, hz⟩ := Target.mk.inj hback
      exact ⟨delta, hdelta, hfits, hfits', (hkept ..).1 ⟨hy, hz⟩⟩
    · rintro ⟨delta, hdelta, hfits, hfits', h⟩
      obtain ⟨hy, hz⟩ := (hkept ..).2 h
      exact Option.bind_eq_some_iff.2 ⟨_, Option.map_eq_some_iff.2
        ⟨_, flexPart_eq_some_iff.2 ⟨hfits, delta, hdelta, rfl⟩, rfl⟩, Option.map_eq_some_iff.2
        ⟨_, flexPart_eq_some_iff.2 ⟨hfits', delta, hdelta, rfl⟩, congrArg₂ (Target.mk x) hy hz⟩⟩

/-- Nothing is left to correct at 10, and all of it up to 0. -/
def fadingStrategy : CartGridStrategy where
  xSize := 100
  ySize := 100
  currentGridXSize := 2
  currentGridYSize := 2
  grid := fun _ => some 1
  damping := some ⟨10, 0, by norm_num⟩
  flex := none
  cartesianGridActive := true

/-- Half way to a point whose delta is 1/100 the grid adds all of what the flex part takes from Z. -/
def flexedStrategy : CartGridStrategy where
  xSize := 100
  ySize := 100
  currentGridXSize := 2
  currentGridYSize := 2
  grid := fun _ => some (9 / 16)
  damping := none
  flex := some
    { flexXPoints := 2
      flexCurrentXPoints := 2
      flexXStart := 0
      flexXSize := 20
      flexCompensationData := fun i => if i = 1 then 1 / 100 else 0
      size_pos := by norm_num
      points_pos := by decide
      points_le := by decide }
  refmz := -100
  cartesianGridActive := true

theorem flexKept_flexedStrategy : flexedStrategy.FlexKept 10 50 (-50) (1 / 200) := by
  have hfits : FlexCompensation.HeightFits (-100) 0 (-50) := by
    constructor <;> decide +kernel
  have hback : -50 - flexZ (flexedStrategy.triangleZInt (-50)) (1 / 200) +
      flexedStrategy.correction 10 (50 + flexY (flexedStrategy.triangleZInt (-50)) (1 / 200))
        (-50 - flexZ (flexedStrategy.triangleZInt (-50)) (1 / 200)) = -50 := by
    decide +kernel
  refine ⟨hfits, ?_, .inr (.inl ⟨?_, ?_⟩)⟩
  · rw [hback]
    exact hfits
  · rw [hback]
  · decide +kernel

/-- Below the height where damping starts, and where the grid makes up for the flex part. -/
theorem doCompensation_givesBack_both :
    fadingStrategy.GivesBack exactFloats.toFloatFunctions ⟨50, 50, -5⟩ ∧
      flexedStrategy.GivesBack exactFloats.toFloatFunctions ⟨10, 50, -50⟩ := by
  refine ⟨(doCompensation_givesBack_iff exactFloats fadingStrategy ⟨50, 50, -5⟩).mpr ?_,
    (doCompensation_givesBack_iff exactFloats flexedStrategy ⟨10, 50, -50⟩).mpr ?_⟩
  · show fadingStrategy.GridKept 50 50 (-5)
    have hlow : (-5 : ℚ) ≤ 0 ∧ -5 + fadingStrategy.offsetAt 50 50 ≤ 0 := by decide +kernel
    exact .inr (.inr hlow)
  · exact ⟨1 / 200, by decide +kernel, flexKept_flexedStrategy⟩

/-- At a height of 5 half of the offset of 1 is added, and less than that is taken off again. -/
theorem inverse_above_start :
    ¬ ∀ (floats : ExactFloats) (s : CartGridStrategy) (target : Target),
      s.GivesBack floats.toFloatFunctions target := by
  intro h
  have hz := congrArg (Option.map Target.z) (h exactFloats fadingStrategy ⟨50, 50, 5⟩)
  exact absurd hz (by decide +kernel)

end CartGridStrategy

end CarveraFirmware.Probe
