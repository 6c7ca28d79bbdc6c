import Mathlib
import CarveraFirmware.Library.Potential

/-!
# Sigma-delta output

`libs/Pwm.cpp`: a tick at a time, an output that is on for a part of the ticks. A potential that
ties the accumulator to the direction shows that the part is never off by much.
-/

namespace CarveraFirmware.Outputs

def pidPwmMax : Int := 256

/-- `confine(value, min, max)`. -/
def confine (value lo hi : Int) : Int := if value < lo then lo else if value > hi then hi else value

/-- `Pwm`; `pin` is what was last written to the pin, which is low until then. -/
structure Pwm where
  max : Int := pidPwmMax - 1
  pwm : Int := -1
  sdAccumulator : Int := 0
  sdDirection : Bool := false
  pin : Bool := false

namespace Pwm

/-- `Pwm::pwm`. -/
def setPwm (s : Pwm) (newPwm : Int) : Pwm := { s with pwm := confine newPwm 0 s.max }

/-- The sanity check at the start of the algorithm. -/
def confined (s : Pwm) : Pwm :=
  { s with sdAccumulator := confine s.sdAccumulator (-pidPwmMax) (pidPwmMax * 2) }

/-- The algorithm itself. -/
def sigmaDelta (s : Pwm) : Pwm :=
  if s.sdDirection = false then
    let acc := s.sdAccumulator + s.pwm
    let direction : Bool := if acc ≥ pidPwmMax / 2 then true else s.sdDirection
    { s with sdAccumulator := acc, sdDirection := direction, pin := direction }
  else
    let acc := s.sdAccumulator - (pidPwmMax - s.pwm)
    let direction : Bool := if acc ≤ 0 then false else s.sdDirection
    { s with sdAccumulator := acc, sdDirection := direction, pin := direction }

def onTick (s : Pwm) : Pwm :=
  if s.pwm < 0 ∨ s.pwm ≥ pidPwmMax then s
  else if s.pwm = 0 then { s with pin := false }
  else if s.pwm = pidPwmMax - 1 then { s with pin := true }
  else s.confined.sigmaDelta

/-- A setting between off and full. -/
structure Setting where
  value : Int
  pos : 1 ≤ value
  le : value ≤ 254

inductive Op where
  | pwm (setting : Setting)
  | tick

def step (s : Pwm) : Op → Pwm
  | .pwm setting => s.setPwm setting.value
  | .tick => s.onTick

/-- Whether the output is on at a tick. -/
def outputOn (s : Pwm) : Op → Int
  | .pwm _ => 0
  | .tick => if s.onTick.pin then 1 else 0

/-- The value of a tick; before the first setting there is none. -/
def currentValue (s : Pwm) : Op → Int
  | .pwm _ => 0
  | .tick => if s.pwm < 0 then 0 else s.pwm

/-- How many of the ticks of a window have the output on. -/
def ticksOn (s : Pwm) (window : List Op) : Int := total step outputOn s window

def valueSum (s : Pwm) (window : List Op) : Int := total step currentValue s window

/-! ## The accumulator -/

/-- The accumulator overshoots by less than one addition. -/
structure Within (s : Pwm) : Prop where
  max : s.max = 255
  value : s.pwm = -1 ∧ s.sdDirection = false ∨ 1 ≤ s.pwm ∧ s.pwm ≤ 254
  rising : s.sdDirection = false → -254 ≤ s.sdAccumulator ∧ s.sdAccumulator ≤ 127
  falling : s.sdDirection = true → 1 ≤ s.sdAccumulator ∧ s.sdAccumulator ≤ 381
  pin : s.pin = s.sdDirection

/-- What the output owes is in the accumulator, or has just been put out. -/
def owed (s : Pwm) : Int := (if s.sdDirection then 256 else 0) - s.sdAccumulator

variable {s : Pwm}

theorem confine_of_mem {value lo hi : Int} (hlo : lo ≤ value) (hhi : value ≤ hi) :
    confine value lo hi = value := by
  rw [confine, if_neg (not_lt.mpr hlo), if_neg (not_lt.mpr hhi)]

/-- The sanity check never changes the accumulator. -/
theorem Within.confined (h : s.Within) : s.confined = s := by
  have hacc : -256 ≤ s.sdAccumulator ∧ s.sdAccumulator ≤ 512 := by
    cases hdir : s.sdDirection with
    | false =>
      have hrange := h.rising hdir
      omega
    | true =>
      have hrange := h.falling hdir
      omega
  show { s with sdAccumulator := confine s.sdAccumulator (-256) 512 } = s
  rw [confine_of_mem hacc.1 hacc.2]

/-- A setting takes effect. -/
theorem Within.setPwm_pwm (h : s.Within) (setting : Setting) :
    (s.setPwm setting.value).pwm = setting.value := by
  have hpos := setting.pos
  have hle := setting.le
  show confine setting.value 0 s.max = setting.value
  rw [h.max]
  exact confine_of_mem (by omega) (by omega)

theorem Within.setPwm (h : s.Within) (setting : Setting) : (s.setPwm setting.value).Within := by
  refine ⟨h.max, .inr ?_, h.rising, h.falling, h.pin⟩
  rw [h.setPwm_pwm setting]
  exact ⟨setting.pos, setting.le⟩

/-- A tick with a setting: the algorithm runs. -/
theorem Within.onTick_of_pos (h : s.Within) (hpos : 1 ≤ s.pwm) (hle : s.pwm ≤ 254) :
    s.onTick = s.sigmaDelta := by
  unfold onTick
  have hin : ¬ (s.pwm < 0 ∨ s.pwm ≥ pidPwmMax) := by
    show ¬ (s.pwm < 0 ∨ s.pwm ≥ 256)
    omega
  have hnotOff : s.pwm ≠ 0 := by omega
  have hnotFull : s.pwm ≠ pidPwmMax - 1 := by
    show s.pwm ≠ 255
    omega
  rw [if_neg hin, if_neg hnotOff, if_neg hnotFull, h.confined]

/-- Before the first setting a tick does nothing. -/
theorem onTick_of_unset (hunset : s.pwm = -1) : s.onTick = s := by
  unfold onTick
  rw [if_pos (.inl (by omega))]

theorem Within.sigmaDelta (h : s.Within) (hpos : 1 ≤ s.pwm) (hle : s.pwm ≤ 254) :
    s.sigmaDelta.Within ∧
      256 * (if s.sigmaDelta.pin then 1 else 0) - s.pwm = s.sigmaDelta.owed - s.owed := by
  unfold Pwm.sigmaDelta
  -- Rising turns when the accumulator passes the middle, falling when it comes down to nought.
  cases hdir : s.sdDirection with
  | false =>
    have hrange := h.rising hdir
    have howed : s.owed = -s.sdAccumulator := by
      rw [owed, hdir]
      exact zero_sub _
    rw [if_pos rfl]
    by_cases hturn : s.sdAccumulator + s.pwm ≥ pidPwmMax / 2
    · have hturned : 128 ≤ s.sdAccumulator + s.pwm := hturn
      simp only [if_pos hturn]
      refine ⟨⟨h.max, .inr ⟨hpos, hle⟩, fun hoff => Bool.noConfusion hoff, fun _ => ⟨?_, ?_⟩, rfl⟩, ?_⟩
      · show 1 ≤ s.sdAccumulator + s.pwm
        omega
      · show s.sdAccumulator + s.pwm ≤ 381
        omega
      · show 256 * 1 - s.pwm = 256 - (s.sdAccumulator + s.pwm) - s.owed
        omega
    · have hbelow : ¬ 128 ≤ s.sdAccumulator + s.pwm := hturn
      simp only [if_neg hturn]
      refine ⟨⟨h.max, .inr ⟨hpos, hle⟩, fun _ => ⟨?_, ?_⟩, fun hon => Bool.noConfusion hon, rfl⟩, ?_⟩
      · show -254 ≤ s.sdAccumulator + s.pwm
        omega
      · show s.sdAccumulator + s.pwm ≤ 127
        omega
      · show 256 * 0 - s.pwm = 0 - (s.sdAccumulator + s.pwm) - s.owed
        omega
  | true =>
    have hrange := h.falling hdir
    have howed : s.owed = 256 - s.sdAccumulator := by
      rw [owed, hdir]
      rfl
    rw [if_neg Bool.noConfusion]
    by_cases hturn : s.sdAccumulator - (pidPwmMax - s.pwm) ≤ 0
    · have hturned : s.sdAccumulator - (256 - s.pwm) ≤ 0 := hturn
      simp only [if_pos hturn]
      refine ⟨⟨h.max, .inr ⟨hpos, hle⟩, fun _ => ⟨?_, ?_⟩, fun hon => Bool.noConfusion hon, rfl⟩, ?_⟩
      · show -254 ≤ s.sdAccumulator - (256 - s.pwm)
        omega
      · show s.sdAccumulator - (256 - s.pwm) ≤ 127
        omega
      · show 256 * 0 - s.pwm = 0 - (s.sdAccumulator - (256 - s.pwm)) - s.owed
        omega
    · have habove : ¬ s.sdAccumulator - (256 - s.pwm) ≤ 0 := hturn
      simp only [if_neg hturn]
      refine ⟨⟨h.max, .inr ⟨hpos, hle⟩, fun hoff => Bool.noConfusion hoff, fun _ => ⟨?_, ?_⟩, rfl⟩, ?_⟩
      · show 1 ≤ s.sdAccumulator - (256 - s.pwm)
        omega
      · show s.sdAccumulator - (256 - s.pwm) ≤ 381
        omega
      · show 256 * 1 - s.pwm = 256 - (s.sdAccumulator - (256 - s.pwm)) - s.owed
        omega

theorem Within.step (h : s.Within) (op : Op) : (s.step op).Within := by
  cases op with
  | pwm setting => exact h.setPwm setting
  | tick =>
    show s.onTick.Within
    obtain ⟨hunset, -⟩ | ⟨hpos, hle⟩ := h.value
    · rw [onTick_of_unset hunset]
      exact h
    · rw [h.onTick_of_pos hpos hle]
      exact (h.sigmaDelta hpos hle).1

/-- The output pays for the value of a tick, but for what is owed. -/
theorem Within.owed_step (h : s.Within) (op : Op) :
    256 * s.outputOn op - s.currentValue op = (s.step op).owed - s.owed := by
  cases op with
  | pwm setting =>
    show 256 * 0 - 0 = s.owed - s.owed
    omega
  | tick =>
    show 256 * (if s.onTick.pin then 1 else 0) - (if s.pwm < 0 then 0 else s.pwm) =
      s.onTick.owed - s.owed
    obtain ⟨hunset, hdir⟩ | ⟨hpos, hle⟩ := h.value
    · rw [onTick_of_unset hunset, h.pin, hdir, if_pos (show s.pwm < 0 by omega)]
      exact (sub_self s.owed).symm
    · rw [h.onTick_of_pos hpos hle, if_neg (show ¬ s.pwm < 0 by omega)]
      exact (h.sigmaDelta hpos hle).2

theorem Within.owed_mem (h : s.Within) : -127 ≤ s.owed ∧ s.owed ≤ 255 := by
  unfold owed
  cases hdir : s.sdDirection with
  | false =>
    have hrange := h.rising hdir
    simp
    omega
  | true =>
    have hrange := h.falling hdir
    simp
    omega

theorem within_fresh : ({} : Pwm).Within :=
  ⟨rfl, .inl ⟨rfl, rfl⟩, fun _ => ⟨by decide, by decide⟩, fun hon => Bool.noConfusion hon, rfl⟩

theorem within_run (ops : List Op) : (ops.foldl Pwm.step {}).Within :=
  foldl_invariant (fun _ op h => h.step op) within_fresh ops

/-- From a fresh `Pwm` on, the sanity check never changes the accumulator, a setting takes effect, and
over every window the output is on for the part of the ticks that the settings ask for, but for less
than 4 of them. -/
theorem sigmaDelta_faithful (before window : List Op) :
    (before.foldl Pwm.step {}).confined = before.foldl Pwm.step {} ∧
      (∀ setting : Setting,
        ((before.foldl Pwm.step {}).setPwm setting.value).pwm = setting.value) ∧
      |((before.foldl Pwm.step {}).ticksOn window : ℚ) -
        (before.foldl Pwm.step {}).valueSum window / 256| < 4 := by
  have hs := within_run before
  have hend := within_run (before ++ window)
  rw [List.foldl_append] at hend
  generalize before.foldl Pwm.step {} = s at hs hend ⊢
  refine ⟨hs.confined, hs.setPwm_pwm, ?_⟩
  have howed : 256 * s.ticksOn window - s.valueSum window = (window.foldl Pwm.step s).owed - s.owed := by
    unfold ticksOn valueSum
    rw [← total_mul, ← total_sub]
    exact total_eq_sub (fun _ op h => Within.step h op) (fun _ op h => Within.owed_step h op) hs window
  have hbound : -1024 < 256 * s.ticksOn window - s.valueSum window ∧
      256 * s.ticksOn window - s.valueSum window < 1024 := by
    have hfrom := hs.owed_mem
    have hto := hend.owed_mem
    omega
  have hlow : (-1024 : ℚ) < 256 * s.ticksOn window - s.valueSum window := by exact_mod_cast hbound.1
  have hhigh : (256 * s.ticksOn window - s.valueSum window : ℚ) < 1024 := by exact_mod_cast hbound.2
  rw [abs_lt]
  constructor
  · linarith
  · linarith

/-- With the value 75 the output is on for 6 of 21 ticks. -/
theorem sigmaDelta_faithful_75 :
    ([.pwm ⟨75, by decide, by decide⟩].foldl Pwm.step {}).ticksOn (List.replicate 21 .tick) = 6 ∧
      |(6 : ℚ) - 75 * 21 / 256| < 4 := by
  have hon : ([.pwm ⟨75, by decide, by decide⟩].foldl Pwm.step {}).ticksOn
      (List.replicate 21 .tick) = 6 := by decide
  have hsum : ([.pwm ⟨75, by decide, by decide⟩].foldl Pwm.step {}).valueSum
      (List.replicate 21 .tick) = 75 * 21 := by decide
  refine ⟨hon, ?_⟩
  have hclose := (sigmaDelta_faithful [.pwm ⟨75, by decide, by decide⟩]
    (List.replicate 21 .tick)).2.2
  rw [hon, hsum] at hclose
  norm_num at hclose ⊢

end Pwm

end CarveraFirmware.Outputs
