import Mathlib
import CarveraFirmware.Tools.Laser

/-!
# Laser power and the `S` word

What a planner block keeps of the `S` word, the speed ratio the timer takes from it, and the duty that
comes of both.
-/

namespace CarveraFirmware.Tools

/-- Half away from zero. -/
def roundf (x : ℚ) : ℤ := if 0 ≤ x then ⌊x + 1 / 2⌋ else ⌈x - 1 / 2⌉

/-- The part of a planner block that `Laser` reads. -/
structure LaserBlock where
  isReady : Bool := false
  isG123 : Bool := false
  steps : List ℕ := []
  nominalRate : ℚ := 0
  /-- `get_trapezoid_rate`. -/
  trapezoidRate : ℕ → ℚ := fun _ => 0
  /-- 1.11 fixed point. -/
  sValue : BitVec 12 := 0

namespace LaserBlock

/-- What `Planner::append_block` sets for the laser. -/
def appendBlock (b : LaserBlock) (sValue : ℚ) (g123 : Bool) : LaserBlock :=
  { b with sValue := BitVec.ofInt 12 (roundf (sValue * 2 ^ 11)), isG123 := g123 }

/-- The motor with the most steps: the first of them, and motor 0 if none moves. -/
def primaryMotor (b : LaserBlock) : ℕ :=
  (b.steps.zipIdx.foldl (fun best s => if s.1 > best.1 then s else best) (0, 0)).2

def currentSpeedRatio (b : LaserBlock) : ℚ := b.trapezoidRate b.primaryMotor / b.nominalRate

/-- The block as `get_laser_power` looks at it. -/
def running (b : LaserBlock) : RunningBlock where
  isReady := b.isReady
  isG123 := b.isG123
  sValue := b.sValue.toNat / 2 ^ 11
  ratio := b.currentSpeedRatio

/-- It moves at the rate that was asked for. -/
def AtNominalRate (b : LaserBlock) : Prop :=
  b.nominalRate ≠ 0 ∧ b.trapezoidRate b.primaryMotor = b.nominalRate

end LaserBlock

/-- The power that an `S` word stands for. -/
def LaserConfig.power (cfg : LaserConfig) (sValue : ℚ) : ℚ :=
  cfg.laserMinimumPower + (cfg.laserMaximumPower - cfg.laserMinimumPower) * sValue / cfg.laserMaximumSValue

/-- The duty for a power: nothing outside 0 to 1, and nothing of a power that is too small. -/
def dutyOf (power : ℚ) : ℚ :=
  if min (max power 0) 1 > 1 / 10000 then min (max power 0) 1 else 0

/-- The beam is on, at its full scale, for a block that was queued for a `G1`, `G2` or `G3` with an `S`
word between 0 and its maximum, and that runs at its nominal rate. -/
structure Burns (cfg : LaserConfig) (s : Laser) (b : LaserBlock) (sValue : ℚ) : Prop where
  maximum : 0 < cfg.laserMaximumSValue
  sWord : 0 ≤ sValue ∧ sValue ≤ cfg.laserMaximumSValue
  laser : s.laserMode = true ∧ s.testing = false ∧ s.laserOn = true
  scale : s.scale = 1
  queued : b.sValue = (b.appendBlock sValue true).sValue ∧ b.isG123 = true
  ready : b.isReady = true
  rate : b.AtNominalRate

/-- The `S` word, rounded to 1/2048. -/
def roundedS (sValue : ℚ) : ℚ := roundf (sValue * 2 ^ 11) / 2 ^ 11

/-- The rounded `S` word fits 12 bits. -/
def FitsField (sValue : ℚ) : Prop := roundf (sValue * 2 ^ 11) < 2 ^ 12

/-- The duty that the timer writes for the block. -/
def burnDuty (cfg : LaserConfig) (s : Laser) (b : LaserBlock) : ℚ :=
  (s.setProportionalPower cfg (some b.running)).duty

/-! ## Rounding -/

theorem roundf_of_nonneg {x : ℚ} (h : 0 ≤ x) : roundf x = round x := by
  rw [roundf, if_pos h, round_eq]

/-- What a 12-bit field holds of a value that fits. -/
theorem appendBlock_sValue {b : LaserBlock} {sValue : ℚ} (hpos : 0 ≤ sValue) (hfits : FitsField sValue)
    (g123 : Bool) :
    ((b.appendBlock sValue g123).sValue.toNat : ℚ) / 2 ^ 11 = roundedS sValue := by
  have hnonneg : 0 ≤ roundf (sValue * 2 ^ 11) := by
    rw [roundf, if_pos (by positivity)]
    exact Int.floor_nonneg.mpr (by positivity)
  have hbelow : roundf (sValue * 2 ^ 11) < 2 ^ 12 := hfits
  have hnat : ((b.appendBlock sValue g123).sValue.toNat : ℤ) = roundf (sValue * 2 ^ 11) := by
    show ((BitVec.ofInt 12 (roundf (sValue * 2 ^ 11))).toNat : ℤ) = _
    rw [BitVec.toNat_ofInt]
    omega
  rw [roundedS, ← hnat]
  rfl

theorem roundedS_error {sValue : ℚ} (hpos : 0 ≤ sValue) : |roundedS sValue - sValue| ≤ 1 / 2 ^ 12 := by
  have h := abs_sub_round (sValue * 2 ^ 11)
  rw [roundedS, roundf_of_nonneg (by positivity)]
  rw [abs_le] at h ⊢
  constructor
  · linarith [h.2]
  · linarith [h.1]

theorem roundedS_mono {s t : ℚ} (hpos : 0 ≤ s) (h : s ≤ t) : roundedS s ≤ roundedS t := by
  have hscaled : 0 ≤ s * 2 ^ 11 := by positivity
  have hle : s * 2 ^ 11 ≤ t * 2 ^ 11 := by linarith
  rw [roundedS, roundedS, roundf, roundf, if_pos hscaled, if_pos (hscaled.trans hle)]
  gcongr

theorem dutyOf_mono {p q : ℚ} (h : p ≤ q) : dutyOf p ≤ dutyOf q := by
  have hconfined : min (max p 0) 1 ≤ min (max q 0) 1 := min_le_min_right 1 (max_le_max_right 0 h)
  have hq : 0 ≤ min (max q 0) 1 := le_min (le_max_right q 0) zero_le_one
  unfold dutyOf
  split_ifs with hp hq'
  · exact hconfined
  · exact absurd (lt_of_lt_of_le hp hconfined) hq'
  · exact hq
  · exact le_rfl

theorem dutyOf_of_between {p : ℚ} (hlow : 1 / 10000 < p) (hhigh : p ≤ 1) : dutyOf p = p := by
  have hconfined : min (max p 0) 1 = p := by
    rw [max_eq_left (by linarith), min_eq_left hhigh]
  rw [dutyOf, hconfined, if_pos hlow]

/-! ## The duty -/

theorem setLaserPower_duty (cfg : LaserConfig) (s : Laser) (power : ℚ) :
    (s.setLaserPower cfg power).duty = dutyOf power := by
  simp only [Laser.setLaserPower, dutyOf]
  split
  · rfl
  · rfl

theorem currentSpeedRatio_of_nominal {b : LaserBlock} (h : b.AtNominalRate) : b.currentSpeedRatio = 1 := by
  rw [LaserBlock.currentSpeedRatio, h.2, div_self h.1]

/-- The power of the `S` word that the block holds. -/
theorem Burns.duty {cfg : LaserConfig} {s : Laser} {b : LaserBlock} {sValue : ℚ}
    (h : Burns cfg s b sValue) :
    burnDuty cfg s b = dutyOf (cfg.power (b.sValue.toNat / 2 ^ 11)) := by
  obtain ⟨hmode, htesting, hon⟩ := h.laser
  have hpower : s.getLaserPower cfg (some b.running) =
      some ((b.sValue.toNat : ℚ) / 2 ^ 11 / cfg.laserMaximumSValue) := by
    show (if b.isReady && b.isG123 then
      some ((b.sValue.toNat : ℚ) / 2 ^ 11 / cfg.laserMaximumSValue * b.currentSpeedRatio * s.scale)
        else none) = _
    rw [h.ready, h.queued.2, currentSpeedRatio_of_nominal h.rate, h.scale, mul_one, mul_one]
    rfl
  rw [burnDuty, Laser.setProportionalPower, hmode, htesting, hon, hpower]
  show (s.setLaserPower cfg _).duty = _
  rw [setLaserPower_duty, LaserConfig.power]
  congr 1
  ring

/-- The duty is that of the rounded `S` word. -/
theorem Burns.duty_rounded {cfg : LaserConfig} {s : Laser} {b : LaserBlock} {sValue : ℚ}
    (h : Burns cfg s b sValue) (hfits : FitsField sValue) :
    burnDuty cfg s b = dutyOf (cfg.power (roundedS sValue)) := by
  rw [h.duty, h.queued.1, appendBlock_sValue h.sWord.1 hfits]

theorem power_mono {cfg : LaserConfig} (hmaximum : 0 < cfg.laserMaximumSValue)
    (hpowers : cfg.laserMinimumPower ≤ cfg.laserMaximumPower) {s t : ℚ} (h : s ≤ t) :
    cfg.power s ≤ cfg.power t := by
  have hspan : 0 ≤ cfg.laserMaximumPower - cfg.laserMinimumPower := sub_nonneg.mpr hpowers
  unfold LaserConfig.power
  gcongr

/-- An `S` word that is off by so much. -/
theorem power_error {cfg : LaserConfig} (hmaximum : 0 < cfg.laserMaximumSValue) {s t error : ℚ}
    (h : |s - t| ≤ error) :
    |cfg.power s - cfg.power t| ≤
      |cfg.laserMaximumPower - cfg.laserMinimumPower| * error / cfg.laserMaximumSValue := by
  have hdiff : cfg.power s - cfg.power t =
      (cfg.laserMaximumPower - cfg.laserMinimumPower) * (s - t) / cfg.laserMaximumSValue := by
    unfold LaserConfig.power
    ring
  rw [hdiff, abs_div, abs_mul, abs_of_pos hmaximum]
  gcongr

/-- While the rounded `S` word fits its field, the duty is the power of the rounded word, confined and
cut off, and never decreases with `S`. -/
theorem laser_power_follows_s (cfg : LaserConfig) :
    (∀ s b sValue, Burns cfg s b sValue → FitsField sValue →
      |roundedS sValue - sValue| ≤ 1 / 2 ^ 12 ∧
      burnDuty cfg s b = dutyOf (cfg.power (roundedS sValue)) ∧
      (1 / 10000 < cfg.power (roundedS sValue) → cfg.power (roundedS sValue) ≤ 1 →
        |burnDuty cfg s b - cfg.power sValue| ≤
          |cfg.laserMaximumPower - cfg.laserMinimumPower| * (1 / 2 ^ 12) / cfg.laserMaximumSValue)) ∧
    (cfg.laserMinimumPower ≤ cfg.laserMaximumPower → ∀ s b sValue s' b' sValue',
      Burns cfg s b sValue → FitsField sValue → Burns cfg s' b' sValue' → FitsField sValue' →
        sValue ≤ sValue' → burnDuty cfg s b ≤ burnDuty cfg s' b') := by
  constructor
  · intro s b sValue h hfits
    have herror := roundedS_error h.sWord.1
    have hduty := h.duty_rounded hfits
    refine ⟨herror, hduty, ?_⟩
    intro hlow hhigh
    rw [hduty, dutyOf_of_between hlow hhigh]
    exact power_error h.maximum herror
  · intro hpowers s b sValue s' b' sValue' h hfits h' hfits' hle
    rw [h.duty_rounded hfits, h'.duty_rounded hfits']
    apply dutyOf_mono
    apply power_mono h.maximum hpowers
    exact roundedS_mono h.sWord.1 hle

/-- A laser that is on, in laser mode. -/
def lit : Laser := { laserMode := true, laserOn := true }

/-- A block of one motor, at its nominal rate. -/
def plateau (sValue : ℚ) : LaserBlock :=
  LaserBlock.appendBlock
    { isReady := true, steps := [100], nominalRate := 1000, trapezoidRate := fun _ => 1000 } sValue true

theorem burns_plateau {cfg : LaserConfig} {sValue : ℚ} (hmaximum : 0 < cfg.laserMaximumSValue)
    (hpos : 0 ≤ sValue) (hle : sValue ≤ cfg.laserMaximumSValue) :
    Burns cfg lit (plateau sValue) sValue where
  maximum := hmaximum
  sWord := ⟨hpos, hle⟩
  laser := ⟨rfl, rfl, rfl⟩
  scale := rfl
  queued := ⟨rfl, rfl⟩
  ready := rfl
  rate := ⟨by show (1000 : ℚ) ≠ 0; norm_num, rfl⟩

theorem laser_power_follows_s_half : burnDuty {} lit (plateau (1 / 2)) = dutyOf (1 / 2) := by
  have hburns : Burns {} lit (plateau (1 / 2)) (1 / 2) :=
    burns_plateau (by norm_num) (by norm_num) (by norm_num)
  have hfits : FitsField (1 / 2) := by
    unfold FitsField roundf
    norm_num
  have hpower : LaserConfig.power {} (roundedS (1 / 2)) = 1 / 2 := by
    norm_num [LaserConfig.power, roundedS, roundf]
  rw [((laser_power_follows_s {}).1 lit (plateau (1 / 2)) (1 / 2) hburns hfits).2.1, hpower]

/-- With a maximum of 20 an `S` of 4/2048 needs no rounding, and its power is cut off; with a maximum
power below the minimum power the duty falls as `S` grows. -/
theorem power_not_as_asked :
    (¬ ∀ cfg s b sValue, Burns cfg s b sValue →
      |burnDuty cfg s b - cfg.power sValue| ≤
        |cfg.laserMaximumPower - cfg.laserMinimumPower| * (1 / 2 ^ 11) / cfg.laserMaximumSValue) ∧
    ¬ ∀ cfg s b sValue s' b' sValue', Burns cfg s b sValue → Burns cfg s' b' sValue' →
      sValue ≤ sValue' → burnDuty cfg s b ≤ burnDuty cfg s' b' := by
  constructor
  · intro hclaim
    have hburns : Burns { laserMaximumSValue := 20 } lit (plateau (4 / 2048)) (4 / 2048) :=
      burns_plateau (by norm_num) (by norm_num) (by norm_num)
    have hheld : (plateau (4 / 2048)).sValue.toNat = 4 := by decide +kernel
    have h := hclaim _ _ _ _ hburns
    rw [hburns.duty, hheld] at h
    norm_num [LaserConfig.power, dutyOf] at h
  · intro hclaim
    have hzero : Burns { laserMaximumPower := 0, laserMinimumPower := 1 } lit (plateau 0) 0 :=
      burns_plateau (by norm_num) le_rfl (by norm_num)
    have hone : Burns { laserMaximumPower := 0, laserMinimumPower := 1 } lit (plateau 1) 1 :=
      burns_plateau (by norm_num) (by norm_num) (by norm_num)
    have hheldZero : (plateau 0).sValue.toNat = 0 := by decide +kernel
    have hheldOne : (plateau 1).sValue.toNat = 2048 := by decide +kernel
    have h := hclaim _ _ _ _ _ _ _ hzero hone zero_le_one
    rw [hzero.duty, hone.duty, hheldZero, hheldOne] at h
    norm_num [LaserConfig.power, dutyOf] at h

end CarveraFirmware.Tools
