import Mathlib
import CarveraFirmware.Homing.Endstops

/-!
# A machine that homes

What homing reads and writes of the endstops, the robot and the kernel, and what happens while it
waits for a move: at every tick a halt may come, the interrupt `Endstops::read_endstops` looks at
the switches, and the motors that still move make steps. What comes from outside during the waits is
a parameter. Positions are where the motors are, not what the robot takes them for.
-/

namespace CarveraFirmware.Homing

/-- `homing_info_t` without the pins. -/
structure HomingInfo where
  homingPosition : ℚ := 0
  homeOffset : ℚ := 0
  maxTravel : ℚ := 500
  retract : ℚ := 5
  fastRate : ℚ := 100
  slowRate : ℚ := 10
  /-- True for the minimum. -/
  homeDirection : Bool := true

structure HomingConfig where
  /-- The axes of `homing_axis` behind X, Y and Z. -/
  rotary : List AxisLetter := []
  info : AxisLetter → HomingInfo
  /-- `pin_info` is not null. -/
  hasSwitch : AxisLetter → Bool
  limitEnable : AxisLetter → Bool
  debounceMs : ℕ := 10
  isCorexy : Bool := false
  isDelta : Bool := false
  isRdelta : Bool := false
  isScara : Bool := false
  homeZFirst : Bool := true
  homingOrder : ℕ := 0
  moveToOriginAfterHome : Bool := false
  parkAfterHome : Bool := false
  /-- `NAN` is none. -/
  rotaryClearanceYMin : Option ℚ := none
  /-- The lowest bit of `FuncSetting`. -/
  aAxisHome : Bool := false
  /-- The motors that a move along these axes drives. -/
  motors : (AxisLetter → Bool) → AxisLetter → Bool := id
  rotary_nodup : rotary.Nodup := by decide
  rotary_spec : ∀ m ∈ rotary, m ≠ .x ∧ m ≠ .y ∧ m ≠ .z := by decide

/-- `homing_axis`. -/
def HomingConfig.axes (cfg : HomingConfig) : List AxisLetter := [.x, .y, .z] ++ cfg.rotary

/-- What is found at one tick of a move. -/
structure Tick where
  halt : Bool := false
  level : AxisLetter → Bool
  /-- The move drives the motor, if nothing has stopped it. -/
  driven : AxisLetter → Bool
  /-- The steps a driven motor makes up to the next tick. -/
  steps : AxisLetter → ℤ

/-- What is found at a wait: a refusal of the moves before it, the switches, what a G-code sent
before it does to the modes of the robot, and the ticks. -/
structure Wait (M : Type) where
  motionAbort : Bool := false
  level : AxisLetter → Bool
  modal : M → M := id
  ticks : List Tick

/-- The interrupt stopped a motor. -/
structure Stop where
  axis : AxisLetter
  status : Status
  /-- How the switch was read while the motor moved in this move, the last time at the stop. -/
  readings : List Bool
  position : ℤ

/-- The switches used for homing, and the motors. -/
structure Motion where
  switch : AxisLetter → EndstopInfo
  queued : AxisLetter → Bool := fun _ => false
  stopped : AxisLetter → Bool := fun _ => false
  position : AxisLetter → ℤ := fun _ => 0
  readings : AxisLetter → List Bool := fun _ => []
  stops : List Stop := []

/-- The state, with a type of compensation transforms and one of what `push_state` saves. -/
structure Machine (T M : Type) where
  motion : Motion
  clock : ℕ := 0
  status : Status := .notHoming
  axisToHome : AxisLetter → Bool := fun _ => false
  homed : AxisLetter → Bool := fun _ => false
  /-- The coordinate that was set for an axis when it was homed, and where the motor was. -/
  declared : AxisLetter → Option (ℚ × ℤ) := fun _ => none
  axisIsOn : AxisLetter → Bool := fun _ => false
  halted : Bool := false
  haltReason : Option HaltReason := none
  /-- How many halts have come. -/
  halts : ℕ := 0
  /-- The player is suspending or waiting. -/
  suspended : Bool := false
  disableEndstops : Bool := false
  compensationTransform : Option T := none
  disableSegmentation : Bool := false
  disableArmSolution : Bool := false
  modal : M
  stateStack : List M := []

variable {T M : Type}

namespace Machine

def pushState (s : Machine T M) : Machine T M := { s with stateStack := s.modal :: s.stateStack }

def popState (s : Machine T M) : Machine T M :=
  match s.stateStack with
  | [] => s
  | modal :: stack => { s with modal := modal, stateStack := stack }

/-- `ON_HALT`, for which `Player::on_halt` drops what a suspend has pushed. -/
def onHalt (s : Machine T M) : Machine T M :=
  if s.suspended then { s.popState with halted := true, halts := s.halts + 1, suspended := false }
  else { s with halted := true, halts := s.halts + 1 }

end Machine

/-- `STEPPER[m]->is_moving()`. -/
def isMoving (motion : Motion) (t : Tick) (m : AxisLetter) : Bool :=
  t.driven m && motion.queued m && !motion.stopped m

/-- The motors that the switch of `m` stops. -/
def stopsMotor (cfg : HomingConfig) (m m' : AxisLetter) : Bool :=
  if cfg.isCorexy && (m = .x || m = .y) then m' = .x || m' = .y else m' = m

def setSwitch (motion : Motion) (m : AxisLetter) (switch : EndstopInfo) : Motion :=
  { motion with switch := Function.update motion.switch m switch }

/-- The switch of `m` is read while its motor moves. -/
def readSwitch (cfg : HomingConfig) (status : Status) (t : Tick) (m : AxisLetter)
    (motion : Motion) : Motion :=
  let motion := { motion with
    readings := Function.update motion.readings m (motion.readings m ++ [t.level m]) }
  let i := motion.switch m
  if t.level m then
    if status = .aLimiteCheck then motion
    else if i.debounce < cfg.debounceMs then
      setSwitch motion m { i with debounce := (i.debounce + 1) % 2 ^ 16 }
    else
      { setSwitch motion m { i with triggered := true } with
        stopped := fun m' => motion.stopped m' || stopsMotor cfg m m'
        stops := motion.stops ++ [⟨m, status, motion.readings m, motion.position m⟩] }
  else setSwitch motion m { i with debounce := 0, nontriggered := true }

/-- One turn of the loop of `read_endstops`. -/
def checkEndstop (cfg : HomingConfig) (status : Status) (axisToHome : AxisLetter → Bool) (t : Tick)
    (motion : Motion) (m : AxisLetter) : Motion :=
  if cfg.hasSwitch m = false then motion
  else if cfg.isCorexy && (m = .x || m = .y) && !axisToHome m then motion
  else if isMoving motion t m then readSwitch cfg status t m motion
  else motion

/-- `Endstops::read_endstops`. -/
def readEndstops (cfg : HomingConfig) (status : Status) (axisToHome : AxisLetter → Bool) (t : Tick)
    (motion : Motion) : Motion :=
  if status = .movingToEndstopSlow ∨ status = .movingToEndstopFast ∨ status = .aLimiteCheck then
    cfg.axes.foldl (checkEndstop cfg status axisToHome t) motion
  else motion

/-- The motors that are not stopped move. The one step that the step ticker can still make after
`stop_moving` is left out. -/
def makeSteps (t : Tick) (motion : Motion) : Motion :=
  { motion with
    position := fun m => motion.position m + if isMoving motion t m then t.steps m else 0 }

/-- A tick; a halted machine does not move. -/
def Machine.tick (cfg : HomingConfig) (s : Machine T M) (t : Tick) : Machine T M :=
  let s := if t.halt then s.onHalt else s
  if s.halted then s
  else { s with
    motion := makeSteps t (readEndstops cfg s.status s.axisToHome t s.motion) }

/-- `Conveyor::wait_for_idle`. -/
def Machine.waitForIdle (cfg : HomingConfig) (world : ℕ → Wait M) (s : Machine T M) : Machine T M :=
  let s' := (world s.clock).ticks.foldl (Machine.tick cfg) s
  { s' with clock := s.clock + 1, motion := { s'.motion with queued := fun _ => false } }

def Motion.queue (motion : Motion) (motors : AxisLetter → Bool) : Motion :=
  { motion with
    queued := fun m => motion.queued m || motors m
    stopped := fun m => motion.stopped m && !motors m
    readings := fun m => if motors m then [] else motion.readings m }

/-- `Robot::delta_move`. -/
def Machine.deltaMove (cfg : HomingConfig) (world : ℕ → Wait M) (delta : AxisLetter → ℚ) (rate : ℚ)
    (s : Machine T M) : Machine T M :=
  if s.halted || (world s.clock).motionAbort then s
  else if rate ≤ 0 then s
  else { s with motion := s.motion.queue (cfg.motors fun m => delta m ≠ 0) }

end CarveraFirmware.Homing
