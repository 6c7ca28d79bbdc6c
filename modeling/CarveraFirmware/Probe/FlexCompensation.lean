import Mathlib
import CarveraFirmware.Library.CheckedInt

/-!
# Flex compensation

`G33` (`CartGridStrategy::doFlexMeasurement`) and the flex part of `CartGridStrategy::doCompensation`.
Numbers of the type `float` are rational, with the functions on them left open; numbers of the type
`int` are checked.
-/

namespace CarveraFirmware.Probe

structure FloatFunctions where
  sqrtf : ℚ → ℚ
  cos : ℚ → ℚ
  sin : ℚ → ℚ
  atan : ℚ → ℚ

/-- The state that a measurement leaves. -/
structure FlexCompensation where
  flexXPoints : UInt8
  flexCurrentXPoints : ℕ
  flexXStart : ℚ
  flexXSize : ℚ
  flexCompensationData : ℕ → ℚ
  size_pos : 0 < flexXSize
  points_pos : 1 ≤ flexCurrentXPoints
  points_le : flexCurrentXPoints ≤ flexXPoints.toNat

def rodDistanceInt : ℤ := 900000
def triangleYInt : ℤ := 900000
def machineOffsetZInt : ℤ := 510000
def sensorMachineZInt : ℤ := -1153400

variable (floats : FloatFunctions)

def triangleLengthFloat (triangleZInt : ℤ) : ℚ :=
  floats.sqrtf (triangleYInt / 10000 * (triangleYInt / 10000)
    + triangleZInt / 10000 * (triangleZInt / 10000))

def triangleAngle (triangleZInt : ℤ) : ℚ :=
  floats.atan (triangleYInt / 10000 / (triangleZInt / 10000))

/-! ## The measurement -/

/-- The words of a `G33` that its measurement uses. -/
structure FlexWords where
  y : Option ℚ
  x : Option ℚ
  i : Option ℚ
  l : Option ℚ

def FlexWords.repeat (words : FlexWords) : ℕ :=
  match words.l with
  | some l => if 1 < truncate l then (truncate l).toNat else 1
  | none => 1

/-- One round over the points; `probe` gives the measured Y of a point, or nothing where the round
fails or is halted. -/
def flexRound (scale : ℚ) (numPoints r : ℕ) (probe : ℕ → Option ℚ) (data : ℕ → ℚ) :
    Option (ℕ → ℚ) :=
  if (List.range numPoints).all fun i => (probe i).isSome then
    some fun i =>
      if i < numPoints then
        let delta := (probe i).getD 0 - (probe 0).getD 0
        if 1 < r then delta / scale / r + data i * (r - 1) / r else delta / scale
      else data i
  else none

/-- `doFlexMeasurement` at the machine position `x` and `z`; nothing where it returns false. -/
def doFlexMeasurement (flexXPoints : UInt8) (refmz tlo currentX currentZ : ℚ) (words : FlexWords)
    (probe : ℕ → ℕ → Option ℚ) : Option FlexCompensation :=
  match words.y, words.x, words.i with
  | some _, some flexXSize, some i =>
    if h : 0 < flexXSize ∧ 0 < truncate i ∧ truncate i ≤ flexXPoints.toNat then
      let triangleZInt := truncate (|currentZ| * 10000) + machineOffsetZInt + truncate (tlo * 10000)
        + truncate (refmz * 10000) - sensorMachineZInt
      let scale := triangleLengthFloat floats triangleZInt
        * floats.cos (triangleAngle floats triangleZInt)
      let rounds := (List.range' 1 words.repeat).foldlM (fun data r =>
        flexRound scale (truncate i).toNat r (probe r) data) fun _ => 0
      rounds.map fun data =>
        { flexXPoints := flexXPoints
          flexCurrentXPoints := (truncate i).toNat
          flexXStart := currentX
          flexXSize := flexXSize
          flexCompensationData := data
          size_pos := h.1
          points_pos := Int.pos_iff_toNat_pos.mp h.2.1
          points_le := Int.toNat_le.mpr h.2.2 }
    else none
  | _, _, _ => none

/-- The first point is the reference of each round. -/
theorem flexRound_first {scale : ℚ} {numPoints r : ℕ} {probe : ℕ → Option ℚ} {data data' : ℕ → ℚ}
    (h : flexRound scale numPoints r probe data = some data') (hdata : data 0 = 0) :
    data' 0 = 0 := by
  rw [flexRound] at h
  split at h
  · obtain rfl := Option.some.inj h
    simp [hdata]
  · exact absurd h nofun

theorem flexRounds_first {scale : ℚ} {numPoints : ℕ} {probe : ℕ → ℕ → Option ℚ} (rs : List ℕ)
    {data data' : ℕ → ℚ}
    (h : rs.foldlM (fun data r => flexRound scale numPoints r (probe r) data) data = some data')
    (hdata : data 0 = 0) : data' 0 = 0 := by
  induction rs generalizing data with
  | nil =>
    obtain rfl := Option.some.inj h
    exact hdata
  | cons r rs ih =>
    obtain ⟨next, hround, hrest⟩ := Option.bind_eq_some_iff.mp h
    exact ih hrest (flexRound_first hround hdata)

/-- A measurement starts at the machine position, with a delta of zero there. -/
theorem doFlexMeasurement_first {flexXPoints : UInt8} {refmz tlo currentX currentZ : ℚ}
    {words : FlexWords} {probe : ℕ → ℕ → Option ℚ} {f : FlexCompensation}
    (h : doFlexMeasurement floats flexXPoints refmz tlo currentX currentZ words probe = some f) :
    f.flexXStart = currentX ∧ f.flexCompensationData 0 = 0 := by
  rw [doFlexMeasurement] at h
  split at h
  · split at h
    · obtain ⟨data, hrounds, rfl⟩ := Option.map_eq_some_iff.mp h
      exact ⟨rfl, flexRounds_first _ hrounds rfl⟩
    · exact absurd h nofun
  · exact absurd h nofun

/-! ## The compensation -/

structure Target where
  x : ℚ
  y : ℚ
  z : ℚ

namespace FlexCompensation

variable (f : FlexCompensation)

def Inside (x : ℚ) : Prop := f.flexXStart ≤ x ∧ x ≤ f.flexXStart + f.flexXSize

instance (x : ℚ) : Decidable (f.Inside x) :=
  inferInstanceAs (Decidable (f.flexXStart ≤ x ∧ x ≤ f.flexXStart + f.flexXSize))

/-- `grid_index`, clamped to the segments. -/
def gridIndex (relativeXInt gridSpacingInt : ℤ) : Option ℤ := do
  let gridIndex ← divInt relativeXInt gridSpacingInt
  let gridIndex :=
    if gridIndex ≥ f.flexCurrentXPoints - 1 then (f.flexCurrentXPoints - 2 : ℤ) else gridIndex
  some (if gridIndex < 0 then 0 else gridIndex)

/-- `t_int`, clamped to the range from 0 to 10000. -/
def tInt (tNumerator tDenominator : ℤ) : Option ℤ := do
  let tInt ←
    if tDenominator ≠ 0 then
      (checkInt (tNumerator * 10000)).bind fun product => divInt product tDenominator
    else some 0
  let tInt := if tInt < 0 then 0 else tInt
  some (if tInt > 10000 then 10000 else tInt)

/-- The index of the lower of two measured points, and the delta between them. -/
def interpolate (x : ℚ) : Option (ℤ × ℚ) := do
  let flexXSizeInt ← toInt (f.flexXSize * 10000)
  let gridSpacingInt ← divInt flexXSizeInt (f.flexCurrentXPoints - 1)
  let targetXInt ← toInt (x * 10000)
  let flexXStartInt ← toInt (f.flexXStart * 10000)
  let relativeXInt ← checkInt (targetXInt - flexXStartInt)
  let gridIndex ← f.gridIndex relativeXInt gridSpacingInt
  let offsetLow ← checkInt (gridIndex * gridSpacingInt)
  let gridXLowInt ← checkInt (flexXStartInt + offsetLow)
  let offsetHigh ← checkInt ((gridIndex + 1) * gridSpacingInt)
  let gridXHighInt ← checkInt (flexXStartInt + offsetHigh)
  let tNumerator ← checkInt (targetXInt - gridXLowInt)
  let tDenominator ← checkInt (gridXHighInt - gridXLowInt)
  let tInt ← tInt tNumerator tDenominator
  let deltaLow := f.flexCompensationData gridIndex.toNat
  let deltaHigh := f.flexCompensationData (gridIndex + 1).toNat
  some (gridIndex, deltaLow + tInt / 10000 * (deltaHigh - deltaLow))

/-- `interpolated_delta`; `xStart` is the `x_start` of the strategy's grid. -/
def interpolatedDelta (xStart x : ℚ) : Option ℚ :=
  if f.Inside x then (f.interpolate x).map Prod.snd
  else if x < xStart then some (f.flexCompensationData 0)
  else some (f.flexCompensationData (f.flexCurrentXPoints - 1))

/-- The flex part of `doCompensation`. -/
def doCompensation (xStart refmz tlo : ℚ) (target : Target) (inverse : Bool) : Option Target := do
  let refmzInt ← toInt (refmz * 10000)
  let tloInt ← toInt (tlo * 10000)
  let targetZInt ← toInt (target.z * 10000)
  let heightInt ← checkInt |targetZInt|
  let heightInt ← checkInt (heightInt + machineOffsetZInt)
  let heightInt ← checkInt (heightInt + tloInt)
  let heightInt ← checkInt (heightInt + refmzInt)
  let triangleZInt ← checkInt (heightInt - sensorMachineZInt)
  let delta ← f.interpolatedDelta xStart target.x
  let zTrans := 1 / 2 * delta * (rodDistanceInt / (2 * 10000))
  let delta := delta * triangleLengthFloat floats triangleZInt
  if triangleZInt = 0 then none
  else
    let yRot := floats.cos (triangleAngle floats triangleZInt) * delta
    let zRot := floats.sin (triangleAngle floats triangleZInt) * delta
    some (if inverse then { target with y := target.y - yRot, z := target.z + zRot + zTrans }
      else { target with y := target.y + yRot, z := target.z - zRot - zTrans })

/-! ## What is asked of it -/

/-- The position relative to the first point, in units of a ten thousandth. -/
def relative (x : ℚ) : ℤ := truncate (x * 10000) - truncate (f.flexXStart * 10000)

/-- How many of the distances between two measured points a position is past the first, in units of a
ten thousandth; what rounding puts behind the last point is at that point. -/
def position (x : ℚ) : ℚ :=
  min (f.relative x * (f.flexCurrentXPoints - 1) / truncate (f.flexXSize * 10000))
    (f.flexCurrentXPoints - 1)

/-- The delta at a position is interpolated between the two measured points around it. The factor,
and so the place of the points, is off by at most a ten thousandth of their distance. -/
def Interpolates (x : ℚ) : Prop :=
  ∃ i delta, f.interpolate x = some (i, delta) ∧ 0 ≤ i ∧ i + 1 < f.flexCurrentXPoints ∧
    i - 1 / 10000 ≤ f.position x ∧ f.position x ≤ i + 1 ∧
    |delta - (f.flexCompensationData i.toNat + (f.position x - i) *
        (f.flexCompensationData (i + 1).toNat - f.flexCompensationData i.toNat))| ≤
      |f.flexCompensationData (i + 1).toNat - f.flexCompensationData i.toNat| / 10000

/-- The compensation is defined, interpolates between the points, and has the value of the end that
is nearer elsewhere. -/
structure Compensates (xStart refmz tlo : ℚ) (target : Target) (inverse : Bool) : Prop where
  defined : (f.doCompensation floats xStart refmz tlo target inverse).isSome
  inside : f.Inside target.x → f.Interpolates target.x
  below : target.x < f.flexXStart →
    f.interpolatedDelta xStart target.x = some (f.flexCompensationData 0)
  above : f.flexXStart + f.flexXSize < target.x →
    f.interpolatedDelta xStart target.x = some (f.flexCompensationData (f.flexCurrentXPoints - 1))

/-! ## The condition -/

def sizeInt : ℤ := truncate (f.flexXSize * 10000)

def spacingInt : ℤ := f.sizeInt.tdiv (f.flexCurrentXPoints - 1)

def startInt : ℤ := truncate (f.flexXStart * 10000)

/-- The point at the left of a position, for the spacing in whole units. -/
def segment (x : ℚ) : ℤ :=
  min ((truncate (x * 10000) - f.startInt).tdiv f.spacingInt) (f.flexCurrentXPoints - 2)

/-- The positions fit, there are two points that are at least a unit apart, and a position is at most
21.4748 from the point at its left. -/
structure SegmentFits (x : ℚ) : Prop where
  points : 2 ≤ f.flexCurrentXPoints
  spacing : f.spacingInt ≠ 0
  size : IsInt f.sizeInt
  start : IsInt f.startInt
  target : IsInt (truncate (x * 10000))
  relative : IsInt (truncate (x * 10000) - f.startInt)
  high : IsInt (f.startInt + (f.segment x + 1) * f.spacingInt)
  near : truncate (x * 10000) - f.startInt - f.segment x * f.spacingInt ≤ 214748

/-- How many points later a position seems to be, because the spacing is cut to whole units. -/
def shift (x : ℚ) : ℚ :=
  min (f.relative x / f.spacingInt : ℚ) (f.flexCurrentXPoints - 1) - f.position x

/-- The shift is little: the point at the left is not behind the position, and the factor comes out at
most one ten thousandth later, or does not matter. -/
structure ShiftFits (x : ℚ) : Prop where
  around : f.segment x - 1 / 10000 ≤ f.position x
  little : 10000 * f.shift x < 2 - Int.fract (10000 * (f.position x - f.segment x)) ∨
    f.flexCompensationData (f.segment x + 1).toNat = f.flexCompensationData (f.segment x).toNat

/-- The height of the triangle fits, and is not zero. -/
structure HeightFits (refmz tlo z : ℚ) : Prop where
  refmz_fits : IsInt (truncate (refmz * 10000))
  tlo_fits : IsInt (truncate (tlo * 10000))
  target_fits : IsInt (truncate (z * 10000))
  abs_fits : IsInt |truncate (z * 10000)|
  offset_fits : IsInt (|truncate (z * 10000)| + machineOffsetZInt)
  offset_tlo_fits : IsInt (|truncate (z * 10000)| + machineOffsetZInt + truncate (tlo * 10000))
  offset_refmz_fits : IsInt (|truncate (z * 10000)| + machineOffsetZInt + truncate (tlo * 10000)
    + truncate (refmz * 10000))
  height_fits : IsInt (|truncate (z * 10000)| + machineOffsetZInt + truncate (tlo * 10000)
    + truncate (refmz * 10000) - sensorMachineZInt)
  height_ne : |truncate (z * 10000)| + machineOffsetZInt + truncate (tlo * 10000)
    + truncate (refmz * 10000) - sensorMachineZInt ≠ 0

/-! ## Between the points -/

variable {floats} {f} {x : ℚ}

theorem sizeInt_nonneg : 0 ≤ f.sizeInt := by
  rw [sizeInt, truncate_of_nonneg (by have := f.size_pos; positivity)]
  exact Int.floor_nonneg.mpr (by have := f.size_pos; positivity)

theorem spacingInt_nonneg : 0 ≤ f.spacingInt :=
  Int.tdiv_nonneg sizeInt_nonneg (by have := f.points_pos; omega)

theorem relative_nonneg (hx : f.Inside x) : 0 ≤ truncate (x * 10000) - f.startInt :=
  Int.sub_nonneg.mpr (truncate_mono (by linarith [hx.1]))

theorem segment_nonneg (hx : f.Inside x) (hpoints : 2 ≤ f.flexCurrentXPoints) : 0 ≤ f.segment x :=
  le_min (Int.tdiv_nonneg (relative_nonneg hx) spacingInt_nonneg) (by omega)

theorem segment_le (f : FlexCompensation) (x : ℚ) : f.segment x ≤ f.flexCurrentXPoints - 2 :=
  min_le_right _ _

/-- The whole spacings up to the last point are within the whole size. -/
theorem mul_spacingInt_le (hpoints : 2 ≤ f.flexCurrentXPoints) {i : ℤ}
    (hi : i ≤ f.flexCurrentXPoints - 1) : i * f.spacingInt ≤ f.sizeInt := by
  calc i * f.spacingInt
    _ ≤ (f.flexCurrentXPoints - 1) * f.spacingInt :=
      Int.mul_le_mul_of_nonneg_right hi spacingInt_nonneg
    _ ≤ f.sizeInt := by
      rw [spacingInt, Int.tdiv_eq_ediv_of_nonneg sizeInt_nonneg]
      exact Int.mul_ediv_self_le (by omega)

theorem gridIndex_bind_eq_some {α : Type*} {next : ℤ → Option α} {r : α} (hx : f.Inside x)
    (hpoints : 2 ≤ f.flexCurrentXPoints) :
    (f.gridIndex (truncate (x * 10000) - f.startInt) f.spacingInt).bind next = some r ↔
      f.spacingInt ≠ 0 ∧
        IsInt ((truncate (x * 10000) - f.startInt).tdiv f.spacingInt) ∧
        next (f.segment x) = some r := by
  have hnonneg := Int.tdiv_nonneg (relative_nonneg hx) (spacingInt_nonneg (f := f))
  simp only [gridIndex, Option.bind_eq_bind, Option.bind_assoc, divInt_bind_eq_some,
    Option.bind_some]
  rw [segment]
  generalize (truncate (x * 10000) - f.startInt).tdiv f.spacingInt = i at hnonneg ⊢
  have hclamp : (if (if i ≥ f.flexCurrentXPoints - 1 then (f.flexCurrentXPoints - 2 : ℤ) else i) < 0
      then 0 else if i ≥ f.flexCurrentXPoints - 1 then (f.flexCurrentXPoints - 2 : ℤ) else i) =
        min i (f.flexCurrentXPoints - 2) := by
    split <;> split <;> omega
  rw [hclamp]

theorem tInt_bind_eq_some {α : Type*} {next : ℤ → Option α} {r : α} {a b : ℤ} (ha : 0 ≤ a)
    (hb : 0 < b) :
    (tInt a b).bind next = some r ↔
      IsInt (a * 10000) ∧ next (min (a * 10000 / b) 10000) = some r := by
  have hproduct : 0 ≤ a * 10000 := by positivity
  have hquotient := Int.ediv_nonneg hproduct hb.le
  have hclamp : (if (if a * 10000 / b < 0 then 0 else a * 10000 / b) > 10000 then 10000
      else if a * 10000 / b < 0 then 0 else a * 10000 / b) = min (a * 10000 / b) 10000 := by
    split <;> split <;> omega
  simp only [tInt, Option.bind_eq_bind, if_pos hb.ne', Option.bind_assoc, checkInt_bind_eq_some,
    divInt_bind_eq_some, Option.bind_some, Int.tdiv_eq_ediv_of_nonneg hproduct, hclamp]
  refine and_congr_right fun hfits => ?_
  rw [and_iff_right hb.ne', and_iff_right]
  exact isInt_of_le hfits hquotient (Int.ediv_le_self b hproduct)

/-- How far a position is past the point at its left. -/
def past (f : FlexCompensation) (x : ℚ) : ℤ :=
  truncate (x * 10000) - f.startInt - f.segment x * f.spacingInt

theorem segment_mul_le (hx : f.Inside x) :
    f.segment x * f.spacingInt ≤ truncate (x * 10000) - f.startInt := by
  obtain hzero | hpos := spacingInt_nonneg (f := f).eq_or_lt
  · rw [← hzero, mul_zero]
    exact relative_nonneg hx
  · calc f.segment x * f.spacingInt
      _ ≤ (truncate (x * 10000) - f.startInt).tdiv f.spacingInt * f.spacingInt :=
        Int.mul_le_mul_of_nonneg_right (min_le_left _ _) hpos.le
      _ ≤ truncate (x * 10000) - f.startInt := by
        rw [Int.tdiv_eq_ediv_of_nonneg (relative_nonneg hx)]
        exact Int.ediv_mul_le _ hpos.ne'

theorem past_nonneg (hx : f.Inside x) : 0 ≤ f.past x :=
  Int.sub_nonneg.mpr (segment_mul_le hx)

/-- `interpolated_delta` between the points of the segment. -/
def deltaInside (f : FlexCompensation) (x : ℚ) : ℚ :=
  f.flexCompensationData (f.segment x).toNat
    + (min (f.past x * 10000 / f.spacingInt) 10000 : ℤ) / 10000
      * (f.flexCompensationData (f.segment x + 1).toNat
        - f.flexCompensationData (f.segment x).toNat)

theorem interpolate_eq_some_iff (hx : f.Inside x) {r : ℤ × ℚ} :
    f.interpolate x = some r ↔ f.SegmentFits x ∧ (f.segment x, f.deltaInside x) = r := by
  simp only [interpolate, Option.bind_eq_bind, toInt_bind_eq_some, divInt_bind_eq_some,
    checkInt_bind_eq_some]
  rw [← sizeInt, ← startInt, ← spacingInt]
  have hpast : truncate (x * 10000) - (f.startInt + f.segment x * f.spacingInt) = f.past x := by
    rw [past]
    ring
  have hden : f.startInt + (f.segment x + 1) * f.spacingInt
      - (f.startInt + f.segment x * f.spacingInt) = f.spacingInt := by
    ring
  -- The checks in the order of the source; those behind the first few follow from them.
  constructor
  · rintro ⟨hsize, hpoints, -, htarget, hstart, hrelative, h⟩
    have hpoints' : 2 ≤ f.flexCurrentXPoints := by have := f.points_pos; omega
    rw [gridIndex_bind_eq_some hx hpoints'] at h
    obtain ⟨hspacing, -, h⟩ := h
    simp only [checkInt_bind_eq_some, hpast, hden] at h
    obtain ⟨-, -, -, hhigh, -, -, h⟩ := h
    rw [tInt_bind_eq_some (past_nonneg hx) (spacingInt_nonneg.lt_of_ne' hspacing)] at h
    obtain ⟨hnear, h⟩ := h
    refine ⟨⟨hpoints', hspacing, hsize, hstart, htarget, hrelative, hhigh, ?_⟩, Option.some.inj h⟩
    rw [← past]
    have := hnear.2
    omega
  · rintro ⟨⟨hpoints, hspacing, hsize, hstart, htarget, hrelative, hhigh, hnear⟩, rfl⟩
    have hsegment := segment_nonneg hx hpoints
    have hle := segment_mul_le hx
    have hlast : (f.segment x + 1) * f.spacingInt ≤ f.sizeInt :=
      mul_spacingInt_le hpoints (by have := f.segment_le x; omega)
    have hone : f.spacingInt ≤ f.sizeInt := by
      simpa using mul_spacingInt_le (i := 1) hpoints (by omega)
    have hpos := spacingInt_nonneg.lt_of_ne' hspacing
    refine ⟨hsize, by omega, isInt_of_le hsize spacingInt_nonneg hone, htarget, hstart, hrelative,
      ?_⟩
    rw [gridIndex_bind_eq_some hx hpoints]
    refine ⟨hspacing, ?_, ?_⟩
    · rw [Int.tdiv_eq_ediv_of_nonneg (relative_nonneg hx)]
      exact isInt_of_le hrelative (Int.ediv_nonneg (relative_nonneg hx) spacingInt_nonneg)
        (Int.ediv_le_self _ (relative_nonneg hx))
    · simp only [checkInt_bind_eq_some, hpast, hden]
      refine ⟨isInt_of_le hrelative (by positivity) hle,
        isInt_of_between hstart htarget (by nlinarith) (by omega),
        isInt_of_le hsize (by positivity) hlast, hhigh, ?_, ?_, ?_⟩
      · exact isInt_of_le hrelative (past_nonneg hx) (by rw [past]; nlinarith)
      · exact isInt_of_le hsize hpos.le hone
      · rw [tInt_bind_eq_some (past_nonneg hx) hpos]
        refine ⟨⟨?_, ?_⟩, rfl⟩
        · have := past_nonneg hx
          omega
        · rw [← past] at hnear
          omega

/-! ## How near it is -/

variable (h : f.SegmentFits x) (hx : f.Inside x)

section
include h

theorem spacingInt_pos : (0 : ℚ) < f.spacingInt := by
  exact_mod_cast spacingInt_nonneg.lt_of_ne' h.spacing

theorem segments_pos : (0 : ℚ) < f.flexCurrentXPoints - 1 := by
  have : (2 : ℚ) ≤ f.flexCurrentXPoints := by exact_mod_cast h.points
  linarith

/-- The spacings in whole units are together at most the size. -/
theorem segments_mul_spacingInt_le : ((f.flexCurrentXPoints - 1 : ℚ)) * f.spacingInt ≤ f.sizeInt := by
  have hmul : ((f.flexCurrentXPoints - 1 : ℤ) * f.spacingInt : ℚ) ≤ f.sizeInt := by
    exact_mod_cast mul_spacingInt_le h.points le_rfl
  push_cast at hmul
  exact hmul

theorem sizeInt_pos : (0 : ℚ) < f.sizeInt :=
  lt_of_lt_of_le (mul_pos (segments_pos h) (spacingInt_pos h)) (segments_mul_spacingInt_le h)

/-- With a spacing of whole units there is no shift. -/
theorem shift_of_dvd (hdvd : (f.flexCurrentXPoints - 1 : ℤ) ∣ f.sizeInt) : f.shift x = 0 := by
  have hmul : ((f.flexCurrentXPoints - 1 : ℤ) * f.spacingInt : ℚ) = f.sizeInt := by
    exact_mod_cast Int.mul_tdiv_cancel' hdvd
  have hsegments := segments_pos h
  have hpos := spacingInt_pos h
  push_cast at hmul
  rw [shift, position, ← sizeInt, ← hmul, mul_comm (f.relative x : ℚ), mul_div_mul_left _ _ hsegments.ne',
    sub_self]

end

section
include hx

theorem relative_lt : (f.relative x : ℚ) < (x - f.flexXStart) * 10000 + 1 := by
  have := truncate_sub_lt (x := f.flexXStart * 10000) (y := x * 10000) (by linarith [hx.1])
  rw [relative]
  linarith

theorem lt_relative : (x - f.flexXStart) * 10000 - 2 < f.relative x := by
  have := lt_truncate_sub (x := f.flexXStart * 10000) (y := x * 10000) (by linarith [hx.1])
  rw [relative]
  linarith

end

section
include h hx

/-- A position in points is that of the position in millimetres up to the rounding of the position,
the start and the size. -/
theorem position_near :
    |f.flexXStart + f.position x * (f.flexXSize / (f.flexCurrentXPoints - 1)) - x| ≤ 2 / 10000 := by
  have hrelative : (0 : ℚ) ≤ f.relative x := by exact_mod_cast relative_nonneg hx
  have hsize := sizeInt_pos h
  have hsegments := segments_pos h
  have hlow : (f.sizeInt : ℚ) ≤ f.flexXSize * 10000 := by
    rw [sizeInt, truncate_of_nonneg (by have := f.size_pos; positivity)]
    exact Int.floor_le _
  have hhigh : f.flexXSize * 10000 < f.sizeInt + 1 := by
    rw [sizeInt, truncate_of_nonneg (by have := f.size_pos; positivity)]
    exact Int.lt_floor_add_one _
  have hvalue : f.position x * (f.flexXSize / (f.flexCurrentXPoints - 1)) =
      min (f.relative x * f.flexXSize / f.sizeInt) f.flexXSize := by
    rw [position, ← sizeInt, min_mul_of_nonneg _ _ (div_nonneg f.size_pos.le hsegments.le)]
    congr 1
    · field_simp
    · field_simp
  have hlt := relative_lt hx
  have hgt := lt_relative hx
  -- the size that is cut stretches a position by less than a unit
  have hstretch : (f.relative x : ℚ) ≤ f.relative x * f.flexXSize / f.sizeInt * 10000 := by
    rw [div_mul_eq_mul_div, le_div_iff₀ hsize, mul_assoc]
    exact mul_le_mul_of_nonneg_left hlow hrelative
  rw [hvalue, abs_le]
  constructor
  · have hmin : x - f.flexXStart - 2 / 10000 ≤ min (f.relative x * f.flexXSize / f.sizeInt)
        f.flexXSize := le_min (by linarith) (by linarith [hx.2])
    linarith
  · obtain hbefore | hbehind := le_or_gt (f.relative x : ℚ) f.sizeInt
    · have hmin := min_le_left (f.relative x * f.flexXSize / f.sizeInt : ℚ) f.flexXSize
      have hless : f.relative x * f.flexXSize / f.sizeInt * 10000 ≤ (f.relative x : ℚ) + 1 := by
        rw [div_mul_eq_mul_div, div_le_iff₀ hsize]
        nlinarith
      linarith
    · have hmin := min_le_right (f.relative x * f.flexXSize / f.sizeInt : ℚ) f.flexXSize
      have hone : (f.sizeInt + 1 : ℚ) ≤ f.relative x := by exact_mod_cast hbehind
      linarith

theorem floor_relative :
    ⌊(f.relative x : ℚ) / f.spacingInt⌋ = (f.relative x).tdiv f.spacingInt := by
  have hrelative : 0 ≤ f.relative x := relative_nonneg hx
  rw [floor_intCast_div _ (spacingInt_nonneg.lt_of_ne' h.spacing),
    Int.tdiv_eq_ediv_of_nonneg hrelative]

/-- The position that the code goes by is the exact one and the shift. -/
theorem min_past :
    min (f.past x / f.spacingInt : ℚ) 1 = f.position x + f.shift x - f.segment x := by
  have hpos := spacingInt_pos h
  have hpast : (f.past x / f.spacingInt : ℚ) = f.relative x / f.spacingInt - f.segment x := by
    rw [past, relative, startInt]
    push_cast
    field_simp
  rw [shift, add_sub_cancel, ← min_sub_sub_right, ← hpast]
  obtain hlast | hbefore := le_or_gt (f.flexCurrentXPoints - 2 : ℤ)
    ((f.relative x).tdiv f.spacingInt)
  · have hsegment : f.segment x = f.flexCurrentXPoints - 2 := min_eq_right hlast
    rw [hsegment]
    push_cast
    ring_nf
  · have hsegment : f.segment x = (f.relative x).tdiv f.spacingInt := min_eq_left hbefore.le
    have hlt := Int.lt_floor_add_one (f.relative x / f.spacingInt : ℚ)
    rw [floor_relative h hx, ← hsegment] at hlt
    have hroom : (1 : ℚ) ≤ f.flexCurrentXPoints - 1 - f.segment x := by
      have : (f.segment x : ℚ) + 1 ≤ f.flexCurrentXPoints - 1 := by
        exact_mod_cast (by omega : f.segment x + 1 ≤ (f.flexCurrentXPoints : ℤ) - 1)
      linarith
    rw [min_eq_left (by linarith), min_eq_left (by linarith)]

/-- The shift is forward. -/
theorem shift_nonneg : 0 ≤ f.shift x := by
  have hrelative : (0 : ℚ) ≤ f.relative x := by exact_mod_cast relative_nonneg hx
  have hle : f.relative x * (f.flexCurrentXPoints - 1) / f.sizeInt ≤
      (f.relative x / f.spacingInt : ℚ) := by
    rw [div_le_div_iff₀ (sizeInt_pos h) (spacingInt_pos h), mul_assoc]
    exact mul_le_mul_of_nonneg_left (segments_mul_spacingInt_le h) hrelative
  rw [shift, sub_nonneg, position]
  exact min_le_min_right _ hle

/-- A position is at most at the point at its right. -/
theorem position_le : f.position x ≤ f.segment x + 1 := by
  have hpast := min_past h hx
  have hone := min_le_right (f.past x / f.spacingInt : ℚ) 1
  linarith [shift_nonneg h hx]

/-- The factor of the interpolation is that of the shifted position, in ten thousandths without its
fraction. -/
theorem deltaInside_eq : f.deltaInside x = f.flexCompensationData (f.segment x).toNat
    + (⌊10000 * (f.position x - f.segment x) + 10000 * f.shift x⌋ : ℚ) / 10000
      * (f.flexCompensationData (f.segment x + 1).toNat
        - f.flexCompensationData (f.segment x).toNat) := by
  have hfloor : f.past x * 10000 / f.spacingInt = ⌊(f.past x / f.spacingInt * 10000 : ℚ)⌋ := by
    have hdiv := floor_intCast_div (f.past x * 10000) (spacingInt_nonneg.lt_of_ne' h.spacing)
    rw [Int.cast_mul, Int.cast_ofNat] at hdiv
    exact hdiv.symm.trans (congrArg Int.floor (div_mul_eq_mul_div _ _ _).symm)
  have hcut : min (f.past x * 10000 / f.spacingInt) 10000 =
      ⌊10000 * (f.position x - f.segment x) + 10000 * f.shift x⌋ := by
    have hsum : 10000 * (f.position x - f.segment x) + 10000 * f.shift x =
        min (f.past x / f.spacingInt * 10000 : ℚ) ((10000 : ℤ) : ℚ) := by
      have hmul := min_mul_of_nonneg (f.past x / f.spacingInt : ℚ) 1 (by norm_num : (0 : ℚ) ≤ 10000)
      rw [min_past h hx, one_mul] at hmul
      push_cast
      rw [← hmul]
      ring
    rw [hsum, Int.floor_mono.map_min, Int.floor_intCast, hfloor]
  rw [deltaInside, hcut]

/-- Inside, the delta is right exactly if the shift is little. -/
theorem interpolates_iff : f.Interpolates x ↔ f.ShiftFits x := by
  have hsegment := segment_nonneg hx h.points
  have hlast : f.segment x + 1 < f.flexCurrentXPoints := by
    have := f.segment_le x
    omega
  have hinterpolate := (interpolate_eq_some_iff hx).mpr ⟨h, rfl⟩
  have hfactor := abs_floor_add_sub_le_one_iff (10000 * (f.position x - f.segment x))
    (mul_nonneg (by norm_num : (0 : ℚ) ≤ 10000) (shift_nonneg h hx))
  have hdelta := deltaInside_eq h hx
  generalize hlow : f.flexCompensationData (f.segment x).toNat = low at hdelta
  generalize hhigh : f.flexCompensationData (f.segment x + 1).toNat = high at hdelta
  have hvalue : |f.deltaInside x - (low + (f.position x - f.segment x) * (high - low))| ≤
      |high - low| / 10000 ↔
        10000 * f.shift x < 2 - Int.fract (10000 * (f.position x - f.segment x)) ∨ high = low := by
    rw [← hfactor, hdelta]
    generalize (⌊10000 * (f.position x - f.segment x) + 10000 * f.shift x⌋ : ℚ) = q
    have hsub : low + q / 10000 * (high - low) - (low + (f.position x - f.segment x) * (high - low)) =
        (q - 10000 * (f.position x - f.segment x)) / 10000 * (high - low) := by ring
    rw [hsub, abs_mul, abs_div, abs_of_pos (by norm_num : (0 : ℚ) < 10000)]
    obtain heq | hne := eq_or_ne high low
    · simp [heq]
    · have hpos : 0 < |high - low| := abs_pos.mpr (sub_ne_zero.mpr hne)
      rw [or_iff_left hne, div_mul_eq_mul_div, div_le_div_iff_of_pos_right (by norm_num)]
      exact mul_le_iff_le_one_left hpos
  constructor
  · rintro ⟨i, delta, heq, -, -, haround, -, hnear⟩
    obtain ⟨rfl, rfl⟩ := Prod.ext_iff.mp (Option.some.inj (hinterpolate.symm.trans heq))
    dsimp only at haround hnear
    rw [hlow, hhigh] at hnear
    refine ⟨haround, ?_⟩
    rw [hlow, hhigh]
    exact hvalue.mp hnear
  · rintro ⟨haround, hlittle⟩
    rw [hlow, hhigh] at hlittle
    refine ⟨_, _, hinterpolate, hsegment, hlast, haround, position_le h hx, ?_⟩
    rw [hlow, hhigh]
    exact hvalue.mpr hlittle

/-- A shift of at most a ten thousandth does no harm. -/
theorem shiftFits_of_le (hle : 10000 * f.shift x ≤ 1) : f.ShiftFits x := by
  refine ⟨?_, .inl ?_⟩
  · have hpast := min_past h hx
    have hnonneg : (0 : ℚ) ≤ min (f.past x / f.spacingInt : ℚ) 1 :=
      le_min (div_nonneg (by exact_mod_cast past_nonneg hx) (spacingInt_pos h).le) zero_le_one
    linarith
  · linarith [Int.fract_lt_one (10000 * (f.position x - f.segment x))]

end

/-! ## Everywhere -/

variable {xStart refmz tlo : ℚ} {target : Target} {inverse : Bool}

theorem doCompensation_isSome_iff :
    (f.doCompensation floats xStart refmz tlo target inverse).isSome ↔
      HeightFits refmz tlo target.z ∧ (f.interpolatedDelta xStart target.x).isSome := by
  simp only [Option.isSome_iff_exists, doCompensation, Option.bind_eq_bind, toInt_bind_eq_some,
    checkInt_bind_eq_some, exists_and_left]
  constructor
  · rintro ⟨hrefmz, htlo, htarget, habs, hoffset, hofftlo, hoffrefmz, hheight, r, h⟩
    obtain ⟨delta, hdelta, h⟩ := Option.bind_eq_some_iff.mp h
    refine ⟨⟨hrefmz, htlo, htarget, habs, hoffset, hofftlo, hoffrefmz, hheight, fun hzero => ?_⟩,
      delta, hdelta⟩
    rw [if_pos hzero] at h
    cases h
  · rintro ⟨⟨hrefmz, htlo, htarget, habs, hoffset, hofftlo, hoffrefmz, hheight, hne⟩, delta, hdelta⟩
    refine ⟨hrefmz, htlo, htarget, habs, hoffset, hofftlo, hoffrefmz, hheight, ?_⟩
    simp only [hdelta, Option.bind_some, if_neg hne]
    exact ⟨_, rfl⟩

theorem interpolatedDelta_isSome_iff :
    (f.interpolatedDelta xStart x).isSome ↔ (f.Inside x → f.SegmentFits x) := by
  rw [interpolatedDelta]
  by_cases hx : f.Inside x
  · rw [if_pos hx, Option.isSome_map, imp_iff_right hx, Option.isSome_iff_exists]
    exact ⟨fun ⟨_, h⟩ => ((interpolate_eq_some_iff hx).mp h).1,
      fun h => ⟨_, (interpolate_eq_some_iff hx).mpr ⟨h, rfl⟩⟩⟩
  · rw [if_neg hx]
    refine iff_of_true ?_ fun h => absurd h hx
    split <;> rfl

theorem interpolatedDelta_below (hx : x < f.flexXStart) :
    f.interpolatedDelta xStart x = some (f.flexCompensationData 0) ↔
      (x < xStart ∨
        f.flexCompensationData 0 = f.flexCompensationData (f.flexCurrentXPoints - 1)) := by
  rw [interpolatedDelta, if_neg fun h : f.Inside x => h.1.not_gt hx]
  by_cases hgrid : x < xStart
  · simp [hgrid]
  · simp [hgrid, eq_comm]

theorem interpolatedDelta_above (hx : f.flexXStart + f.flexXSize < x) :
    f.interpolatedDelta xStart x = some (f.flexCompensationData (f.flexCurrentXPoints - 1)) ↔
      (xStart ≤ x ∨
        f.flexCompensationData 0 = f.flexCompensationData (f.flexCurrentXPoints - 1)) := by
  rw [interpolatedDelta, if_neg fun h : f.Inside x => h.2.not_gt hx]
  by_cases hgrid : x < xStart
  · simp [hgrid]
  · simp [hgrid, not_lt.mp hgrid]

/-- The compensation is right exactly if its whole numbers fit, the points are apart and near, the cut
spacing shifts the position little, and the start of the grid, which it takes for that of the points,
is at the same side of the position. -/
theorem compensates_iff (floats : FloatFunctions) (f : FlexCompensation) (xStart refmz tlo : ℚ)
    (target : Target) (inverse : Bool) :
    f.Compensates floats xStart refmz tlo target inverse ↔
      HeightFits refmz tlo target.z ∧
        (f.Inside target.x → f.SegmentFits target.x ∧ f.ShiftFits target.x) ∧
        (target.x < f.flexXStart → target.x < xStart ∨
          f.flexCompensationData 0 = f.flexCompensationData (f.flexCurrentXPoints - 1)) ∧
        (f.flexXStart + f.flexXSize < target.x → xStart ≤ target.x ∨
          f.flexCompensationData 0 = f.flexCompensationData (f.flexCurrentXPoints - 1)) := by
  constructor
  · rintro ⟨hdefined, hinside, hbelow, habove⟩
    obtain ⟨hheight, hdelta⟩ := doCompensation_isSome_iff.mp hdefined
    have hfits := interpolatedDelta_isSome_iff.mp hdelta
    exact ⟨hheight, fun hx => ⟨hfits hx, (interpolates_iff (hfits hx) hx).mp (hinside hx)⟩,
      fun hx => (interpolatedDelta_below hx).mp (hbelow hx),
      fun hx => (interpolatedDelta_above hx).mp (habove hx)⟩
  · rintro ⟨hheight, hfits, hbelow, habove⟩
    exact
      { defined := doCompensation_isSome_iff.mpr
          ⟨hheight, interpolatedDelta_isSome_iff.mpr fun hx => (hfits hx).1⟩
        inside := fun hx => (interpolates_iff (hfits hx).1 hx).mpr (hfits hx).2
        below := fun hx => (interpolatedDelta_below hx).mpr (hbelow hx)
        above := fun hx => (interpolatedDelta_above hx).mpr (habove hx) }

/-- Two points that were measured from -200 to -100: at -50 the first of them is used, while the
start of the grid is 0. -/
theorem first_point_used_above :
    ¬ ∀ (floats : FloatFunctions) (f : FlexCompensation) (xStart refmz tlo : ℚ) (target : Target)
      (inverse : Bool), f.Compensates floats xStart refmz tlo target inverse := by
  intro h
  have habove := (h ⟨id, id, id, id⟩
    { flexXPoints := 30
      flexCurrentXPoints := 2
      flexXStart := -200
      flexXSize := 100
      flexCompensationData := fun i => i / 1000
      size_pos := by norm_num
      points_pos := by norm_num
      points_le := by decide } 0 0 0 ⟨-50, 0, 0⟩ false).above (by norm_num)
  norm_num [interpolatedDelta, Inside] at habove

end FlexCompensation

end CarveraFirmware.Probe
