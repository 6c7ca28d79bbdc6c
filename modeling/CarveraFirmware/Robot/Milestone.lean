import Mathlib
import CarveraFirmware.Robot.WorkOffsets

/-!
# Milestones

`Robot::append_milestone` up to the call of the planner, over exact arithmetic, for the five axes of
the firmware. What the compensation and the arm solution do with a position is left open.
-/

namespace CarveraFirmware.Robot

inductive Axis where
  | x | y | z | a | b
  deriving DecidableEq, Repr

namespace Axis

/-- The `N_PRIMARY_AXIS` first axes. -/
def primary : List Axis := [x, y, z]

def rotary : List Axis := [a, b]

def motors : List Axis := [x, y, z, a, b]

end Axis

variable {K : Type} [Field K] [LinearOrder K]

structure Actuator (K : Type) [Field K] [LinearOrder K] where
  lastMilestone : K
  selected : Bool
  maxRate : K
  /-- `NAN` is none. -/
  acceleration : Option K
  maxRate_pos : 0 < maxRate

/-- The square root. -/
structure SquareRoot (K : Type) [Field K] [LinearOrder K] where
  sqrtf : K → K
  nonneg : ∀ x, 0 ≤ x → 0 ≤ sqrtf x
  sq : ∀ x, 0 ≤ x → sqrtf x ^ 2 = x

/-- What `append_milestone` reads: the state of the robot, its motors and its limits. -/
structure Machine (K : Type) [Field K] [LinearOrder K] where
  work : WorkState K
  compensatedMachinePosition : Axis → K
  compensationTransform : (Axis → K) → Axis → K
  cartesianToActuator : (Axis → K) → Axis → K
  /-- What the position of an extruder is multiplied with; one for other motors. -/
  eScale : Axis → K
  actuators : Axis → Actuator K
  root : SquareRoot K
  /-- Not while probing. -/
  softEndstopEnabled : Bool
  softEndstopHalt : Bool
  isHomed : Axis → Bool
  softEndstopMin : Axis → Option K
  softEndstopMax : Axis → Option K
  rotaryInstalled : Bool
  rotaryClearanceYMin : Option K
  isContinuousMode : Bool
  inverseTimeMode : Bool
  isG123 : Bool
  secondsPerMinute : K
  maxSpeeds : Axis → K
  maxSpeed : K
  defaultAcceleration : K
  secondsPerMinute_pos : 0 < secondsPerMinute

/-- The constant `PI`, a `float`. -/
def floatPi (K : Type) [Field K] : K := 13176795 / 4194304

/-- What `append_milestone` has found out of a move when it comes to its speed. -/
structure Move (K : Type) where
  target : Axis → K
  transformedTarget : Axis → K
  deltas : Axis → K
  actuatorPos : Axis → K
  auxilliary : Bool
  distance : K

structure Speed (K : Type) where
  rate : K
  isecs : K
  acceleration : K

/-- A call of the planner's `append_block`. -/
structure PlannedBlock (K : Type) where
  move : Move K
  rate : K
  acceleration : K

inductive Appended (K : Type) where
  | ignored
  | halted
  | block (block : PlannedBlock K)

namespace Machine

variable (m : Machine K)

/-! ## The move -/

/-- A difference that is no realistic movement. -/
def IsStill (delta : K) : Prop := |delta| < 0.00001

instance (delta : K) : Decidable (IsStill delta) := inferInstanceAs (Decidable (|delta| < 0.00001))

/-- Movement of an axis out of the range of its soft endstops. -/
def ExceedsEndstop (transformedTarget deltas : Axis → K) (i : Axis) : Prop :=
  let effectiveYMin :=
    match m.rotaryClearanceYMin, m.softEndstopMin .y with
    | some clearance, some minimum =>
      if m.rotaryInstalled ∧ minimum < clearance then some clearance else some minimum
    | some clearance, none => if m.rotaryInstalled then some clearance else none
    | none, minimum => minimum
  let minimum := if i = .y then effectiveYMin else m.softEndstopMin i
  m.isHomed i = true ∧
    ((∃ limit ∈ minimum, transformedTarget i < limit ∧ deltas i < 0) ∨
      ∃ limit ∈ m.softEndstopMax i, limit < transformedTarget i ∧ 0 < deltas i)

instance (transformedTarget deltas : Axis → K) (i : Axis) :
    Decidable (m.ExceedsEndstop transformedTarget deltas i) := by
  unfold ExceedsEndstop
  infer_instance

/-- How far the move of X, Y and Z is, or that of the other motors where these are still. -/
def distanceOf (deltas actuatorPos : Axis → K) : K :=
  if ∀ i ∈ Axis.primary, IsStill (deltas i) then
    m.root.sqrtf ((Axis.rotary.map fun i =>
      (actuatorPos i - (m.actuators i).lastMilestone) ^ 2).sum)
  else
    m.root.sqrtf (((Axis.primary.filter fun i => ¬ IsStill (deltas i)).map fun i =>
      deltas i ^ 2).sum)

def moveTo (target : Axis → K) : Move K :=
  let transformedTarget := m.compensationTransform target
  let deltas := fun i => transformedTarget i - m.compensatedMachinePosition i
  let actuatorPos := fun i =>
    if i ∈ Axis.primary then m.cartesianToActuator transformedTarget i
    else transformedTarget i * m.eScale i
  { target := target
    transformedTarget := transformedTarget
    deltas := deltas
    actuatorPos := actuatorPos
    auxilliary := decide (∀ i ∈ Axis.primary, IsStill (deltas i))
    distance := m.distanceOf deltas actuatorPos }

/-- The move to a target; `none` where it is too small. -/
def findMove (target : Axis → K) : Option (Move K) :=
  let move := m.moveTo target
  if ∀ i ∈ Axis.motors, IsStill (move.deltas i) then none
  else if move.distance < 0.00001 then none
  else if move.auxilliary ∧ ¬ IsStill (move.deltas .a) ∧ move.distance < 0.001 then none
  else some move

/-! ## Its speed -/

/-- The rate within the limit of one of X, Y and Z. -/
def limitAxis (move : Move K) (rate : K) (i : Axis) : K :=
  let axisSpeed := |move.deltas i / move.distance * rate|
  if 0 < m.maxSpeeds i ∧ m.maxSpeeds i < axisSpeed then rate * (m.maxSpeeds i / axisSpeed) else rate

/-- The rate within the limits of X, Y and Z and of the path. -/
def limitPath (move : Move K) (rate : K) : K :=
  if move.auxilliary then rate
  else
    let rate := Axis.primary.foldl (m.limitAxis move) rate
    if 0 < m.maxSpeed ∧ m.maxSpeed < rate then m.maxSpeed else rate

/-- `a_perimeter`: the way of a point at the tool in a turn of the A axis. -/
def perimeter (move : Move K) : K :=
  let position := m.work.mcs2wcs
    { x := move.target .x, y := move.target .y, z := move.target .z, a := 0, b := 0 }
  let rotationRadius :=
    if 0.00001 < |position.y| ∨ 0.00001 < |position.z| then
      m.root.sqrtf (|position.y| ^ 2 + |position.z| ^ 2)
    else 0
  if 0.1 < rotationRadius then floatPi K * (2 : ℕ) * rotationRadius else floatPi K * (2 : ℕ)

/-- How far a motor moves. -/
def travel (move : Move K) (i : Axis) : K :=
  |move.actuatorPos i - (m.actuators i).lastMilestone|

/-- A motor that is selected and really moves. -/
def Moves (move : Move K) (i : Axis) : Prop :=
  (m.actuators i).selected = true ∧ 0.00001 ≤ m.travel move i

instance (move : Move K) (i : Axis) : Decidable (m.Moves move i) :=
  inferInstanceAs (Decidable ((m.actuators i).selected = true ∧ 0.00001 ≤ m.travel move i))

/-- How far the surface turns under the tool for a millimetre of the path. -/
def surfaceRatio (move : Move K) : K :=
  m.travel move .a / move.distance * m.perimeter move / 360

/-- How far the A axis turns for a millimetre of the surface. -/
def degreesPerMm (move : Move K) : K := 360 / m.perimeter move

/-- The rate of a turn alone: it is raised for a small radius. -/
def turnRate (move : Move K) (rate : K) : K :=
  min (if m.inverseTimeMode = false ∧ m.perimeter move < 360 then rate * 360 / m.perimeter move
    else rate) (m.actuators .a).maxRate

/-- The A axis in a move of its own. -/
def turnOnly (move : Move K) (speed : Speed K) : Speed K :=
  let mmPerSec := m.perimeter move * (speed.rate / 360)
  let rate :=
    if ¬ m.inverseTimeMode ∧ mmPerSec < speed.rate then speed.rate * (speed.rate / mmPerSec)
    else speed.rate
  { speed with
    rate := if (m.actuators .a).maxRate < rate then (m.actuators .a).maxRate else rate
    acceleration := (m.actuators .a).acceleration.getD speed.acceleration }

/-- The A axis along with others: the speed for which the surface has the rate, and the rate of the
actuator. -/
def matchSurface (move : Move K) (speed : Speed K) (actuatorRate : K) : Speed K × K :=
  let mmPerSec := actuatorRate * m.perimeter move / 360
  if ¬ m.inverseTimeMode ∧ 0.001 < |mmPerSec - speed.rate| ∧ 0.00001 < mmPerSec then
    let ratio := speed.rate / mmPerSec
    let rate := speed.rate * ratio
    ({ speed with rate := rate, isecs := m.travel move .a / rate }, actuatorRate * ratio)
  else (speed, actuatorRate)

/-- The rate within that of a motor which has the rate given. -/
def limitRate (move : Move K) (i : Axis) (speed : Speed K) (actuatorRate : K) : Speed K :=
  if (m.actuators i).maxRate < actuatorRate then
    let rate := speed.rate * ((m.actuators i).maxRate / actuatorRate)
    { speed with
      rate := rate
      isecs := (if i = .a ∧ ¬ move.auxilliary then m.travel move i else move.distance) / rate }
  else speed

/-- The acceleration within that of a motor. -/
def limitAcceleration (move : Move K) (i : Axis) (speed : Speed K) : Speed K :=
  match (m.actuators i).acceleration with
  | none => speed
  | some limit =>
    let acceleration := m.travel move i / move.distance * speed.acceleration
    { speed with
      acceleration :=
        if limit < acceleration then
          speed.acceleration * (if i = .a then limit * 3 / acceleration else limit / acceleration)
        else speed.acceleration }

def limitActuator (move : Move K) (i : Axis) (speed : Speed K) (actuatorRate : K) : Speed K :=
  m.limitAcceleration move i (m.limitRate move i speed actuatorRate)

/-- One turn of the loop over the motors. -/
def checkActuator (move : Move K) (speed : Speed K) (i : Axis) : Speed K :=
  if ¬ m.Moves move i then speed
  else
    let actuatorRate := m.travel move i / speed.isecs
    if i = .a ∧ m.isG123 then
      if move.auxilliary then m.turnOnly move speed
      else
        let (speed, actuatorRate) := m.matchSurface move speed actuatorRate
        m.limitActuator move i speed actuatorRate
    else m.limitActuator move i speed actuatorRate

/-- The rate before any limit. -/
def feed (move : Move K) (feedRate : K) : K :=
  (if m.inverseTimeMode then feedRate * move.distance else feedRate) / m.secondsPerMinute

/-- The speed after the limits of the path. -/
def startSpeed (move : Move K) (feedRate : K) : Speed K :=
  let rate := m.limitPath move (m.feed move feedRate)
  ⟨rate, move.distance / rate, m.defaultAcceleration⟩

def findSpeed (move : Move K) (feedRate : K) : Speed K :=
  Axis.motors.foldl (m.checkActuator move) (m.startSpeed move feedRate)

/-- `append_milestone`; `interrupted` is an abort of the motion, or a halt in a feed hold. -/
def appendMilestone (interrupted : Bool) (target : Axis → K) (feedRate : K) : Appended K :=
  let transformedTarget := m.compensationTransform target
  let deltas := fun i => transformedTarget i - m.compensatedMachinePosition i
  if interrupted then .ignored
  else if m.softEndstopEnabled ∧ ¬ m.isContinuousMode ∧
      ∃ i ∈ Axis.primary, m.ExceedsEndstop transformedTarget deltas i then
    if m.softEndstopHalt then .halted else .ignored
  else
    match m.findMove target with
    | none => .ignored
    | some move =>
      let speed := m.findSpeed move feedRate
      .block ⟨move, speed.rate, speed.acceleration⟩

end Machine

end CarveraFirmware.Robot
