import Mathlib

/-!
# The endstops

What `Endstops` keeps of its switches, and `Endstops::on_idle`, which raises an alarm when a motor
runs into a limit switch and clears it once the switches are released.
-/

namespace CarveraFirmware.Homing

inductive AxisLetter where
  | x | y | z | a | b | c
  deriving DecidableEq, Repr

def AxisLetter.all : List AxisLetter := [.x, .y, .z, .a, .b, .c]

/-- `STATES`. -/
inductive Status where
  | movingToEndstopFast | movingToEndstopSlow | movingBack | notHoming | backOffHome | moveToOrigin
  | limitTriggered | aLimiteCheck
  deriving DecidableEq, Repr

/-- `endstop_info_t`, of a switch that is read elsewhere. -/
structure EndstopInfo where
  axis : AxisLetter
  /-- Sixteen bits wide. -/
  debounce : ℕ := 0
  limitEnable : Bool := false
  triggered : Bool := false
  nontriggered : Bool := false
  deriving DecidableEq, Repr

/-- `motor_alarm_info_t`. -/
structure MotorAlarmInfo where
  axis : AxisLetter
  debounce : ℕ := 0
  deriving DecidableEq, Repr

inductive HaltReason where
  | motorError (axis : AxisLetter)
  | hardLimit
  | homeFail
  deriving DecidableEq, Repr

structure Endstops where
  status : Status := .notHoming
  endstops : List EndstopInfo
  motorAlarms : List MotorAlarmInfo := []
  debounceCount : ℕ := 100
  deriving DecidableEq, Repr

/-- What one call of `on_idle` finds: `readings k n` is the `n`-th time it reads switch `k`. -/
structure IdleInputs where
  readings : ℕ → ℕ → Bool
  alarmReadings : ℕ → ℕ → Bool
  isMoving : AxisLetter → Bool
  isHalted : Bool
  stepperAlarmsEnabled : Bool
  disableEndstops : Bool
  /-- One of the two lowest bits of `FuncSetting` is set. -/
  rotaryFunction : Bool

/-- The level of a switch where a call reads it once. -/
def IdleInputs.level (inputs : IdleInputs) (k : ℕ) : Bool := inputs.readings k 0

/-- The loop of `debounced_get` from the reading `n`, with `left` more readings to come. -/
def debouncedFrom (readings : ℕ → Bool) : ℕ → ℕ → Bool
  | _, 0 => true
  | n, left + 1 => readings n && debouncedFrom readings (n + 1) left

def debouncedGet (debounceCount : ℕ) (readings : ℕ → Bool) : Bool :=
  debouncedFrom readings 0 (max 1 debounceCount)

/-- `on_idle` in the state `LIMIT_TRIGGERED`, from the switch `k` on. -/
def checkCleared (debounceCount : ℕ) (level : ℕ → Bool) :
    ℕ → Status → List EndstopInfo → Status × List EndstopInfo
  | _, status, [] => (status, [])
  | k, status, i :: rest =>
    if i.limitEnable then
      if level k then (status, { i with debounce := 0 } :: rest)
      else
        -- the state is cleared before the switches behind this one are read
        let cleared := if debounceCount < i.debounce then .notHoming else status
        let after := checkCleared debounceCount level (k + 1) cleared rest
        (after.1, { i with debounce := (i.debounce + 1) % 2 ^ 16 } :: after.2)
    else
      let after := checkCleared debounceCount level (k + 1) status rest
      (after.1, i :: after.2)

/-- The first motor alarm that is on, from `k` on. -/
def alarmHit (debounceCount : ℕ) (inputs : IdleInputs) : ℕ → List MotorAlarmInfo → Option ℕ
  | _, [] => none
  | k, _ :: rest =>
    if debouncedGet debounceCount (inputs.alarmReadings k) then some k
    else alarmHit debounceCount inputs (k + 1) rest

def limitWatched (inputs : IdleInputs) (i : EndstopInfo) : Bool :=
  i.limitEnable && inputs.isMoving i.axis &&
    (!inputs.rotaryFunction || (i.axis ≠ .a && i.axis ≠ .b))

/-- The first limit switch that a motor ran into, from `k` on. -/
def limitHit (debounceCount : ℕ) (inputs : IdleInputs) : ℕ → List EndstopInfo → Option ℕ
  | _, [] => none
  | k, i :: rest =>
    if limitWatched inputs i && debouncedGet debounceCount (inputs.readings k) then some k
    else limitHit debounceCount inputs (k + 1) rest

def motorAlarm (s : Endstops) (inputs : IdleInputs) : Option ℕ :=
  if inputs.stepperAlarmsEnabled then alarmHit s.debounceCount inputs 0 s.motorAlarms else none

/-- The call raises the alarm for this switch. -/
def raises (s : Endstops) (inputs : IdleInputs) : Option ℕ :=
  if s.status = .notHoming ∧ inputs.disableEndstops = false then
    limitHit s.debounceCount inputs 0 s.endstops
  else none

def Endstops.clearDebounce (s : Endstops) (k : ℕ) : List EndstopInfo :=
  s.endstops.modify k fun i => { i with debounce := 0 }

/-- `Endstops::on_idle`, with the reason for which it halts the machine. -/
def onIdle (s : Endstops) (inputs : IdleInputs) : Endstops × Option HaltReason :=
  if s.status = .limitTriggered then
    let after := checkCleared s.debounceCount inputs.level 0 s.status s.endstops
    ({ s with status := after.1, endstops := after.2 }, none)
  else if inputs.isHalted then (s, none)
  else
    match motorAlarm s inputs with
    | some k =>
      ({ s with motorAlarms := s.motorAlarms.modify k fun alarm => { alarm with debounce := 0 } },
        s.motorAlarms[k]?.map fun alarm => .motorError alarm.axis)
    | none =>
      match raises s inputs with
      | some k => ({ s with status := .limitTriggered, endstops := s.clearDebounce k }, some .hardLimit)
      | none => (s, none)

end CarveraFirmware.Homing
