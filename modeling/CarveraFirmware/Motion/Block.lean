import Mathlib

/-!
# Blocks

`modules/robot/Block.cpp` over exact arithmetic: the speeds the planner sets, the two passes
over the queue, and the trapezoid with the tick values the step ticker runs on. The field and
the square root are parameters, so that the functions compute wherever these do.
-/

namespace CarveraFirmware.Motion

/-- `STEPTICKER_FPSCALE`, 1.0 in 2.62 fixed point. -/
def fpScale : ℤ := 2 ^ 62

/-- What one motor steps by. The signed values are 2.62 fixed point. -/
structure TickInfo where
  stepsPerTick : ℤ := 0
  counter : ℤ := 0
  accelerationChange : ℤ := 0
  decelerationChange : ℤ := 0
  plateauRate : ℤ := 0
  stepsToMove : UInt32 := 0
  stepCount : UInt32 := 0
  nextAccelEvent : UInt32 := 0
  deriving DecidableEq

/-- What `calculate_trapezoid` and `prepare` leave for the step ticker. -/
structure Profile (K : Type*) where
  initialRate : K
  maximumRate : K
  accelerateUntil : UInt32 := 0
  decelerateAfter : UInt32 := 0
  totalMoveTicks : UInt32 := 0
  tickInfo : List TickInfo := []

structure Block (K : Type*) where
  steps : List UInt32
  directionBits : List Bool
  stepsEventCount : UInt32
  nominalRate : K
  nominalSpeed : K
  millimeters : K
  entrySpeed : K
  exitSpeed : K
  acceleration : K
  maxEntrySpeed : K
  profile : Profile K
  recalculateFlag : Bool := false
  nominalLengthFlag : Bool := false
  isReady : Bool := false
  primaryAxis : Bool := false
  isTicking : Bool := false

variable {K : Type*} [Field K] [LinearOrder K]

/-- The block `clear` leaves, with the number of motors `init` set. -/
def Block.clear (actuators : ℕ) : Block K where
  steps := List.replicate actuators 0
  directionBits := List.replicate actuators false
  stepsEventCount := 0
  nominalRate := 0
  nominalSpeed := 0
  millimeters := 0
  entrySpeed := 0
  exitSpeed := 0
  acceleration := 100
  maxEntrySpeed := 0
  profile := { initialRate := 0, maximumRate := 0, tickInfo := List.replicate actuators {} }

/-- `max_allowable_speed(acceleration, target_velocity, distance)`. -/
def maxAllowableSpeed (sqrtf : K → K) (acceleration targetVelocity distance : K) : K :=
  sqrtf (targetVelocity * targetVelocity - 2 * acceleration * distance)

namespace Block

variable (sqrtf : K → K)

def reversePass (block : Block K) (exitSpeed : K) : Block K :=
  if block.entrySpeed ≠ block.maxEntrySpeed then
    if !block.nominalLengthFlag && block.maxEntrySpeed > exitSpeed then
      { block with
        entrySpeed := min (maxAllowableSpeed sqrtf (-block.acceleration) exitSpeed block.millimeters)
          block.maxEntrySpeed }
    else { block with entrySpeed := block.maxEntrySpeed }
  else block

def maxExitSpeed (block : Block K) : K :=
  if block.isTicking then block.exitSpeed
  else if block.nominalLengthFlag then block.nominalSpeed
  else
    min (maxAllowableSpeed sqrtf (-block.acceleration) block.entrySpeed block.millimeters)
      block.nominalSpeed

/-- `forward_pass(prev_max_exit_speed)`, less the `max_exit_speed()` it returns. -/
def forwardPass (block : Block K) (prevMaxExitSpeed : K) : Block K :=
  let prevMaxExitSpeed :=
    if prevMaxExitSpeed > block.nominalSpeed then block.nominalSpeed else prevMaxExitSpeed
  let prevMaxExitSpeed :=
    if prevMaxExitSpeed > block.maxEntrySpeed then block.maxEntrySpeed else prevMaxExitSpeed
  if prevMaxExitSpeed ≤ block.entrySpeed then
    { block with entrySpeed := prevMaxExitSpeed, recalculateFlag := false }
  else block

variable [FloorRing K]

/-- The library's `round`: to the nearest integer, halves away from zero. -/
def roundAway (x : K) : ℤ := if 0 ≤ x then ⌊x + 1 / 2⌋ else ⌈x - 1 / 2⌉

/-- A non-negative value converted to `uint32_t` after `floorf`. -/
def floorTicks (x : K) : UInt32 := UInt32.ofNat ⌊x⌋.toNat

/-- What `prepare` leaves for a motor with `steps` steps. A motor without steps keeps what `clear`
left. -/
def prepareMotor (frequency : K) (block : Block K) (profile : Profile K)
    (accelerationInSteps decelerationInSteps : K) (steps : UInt32) : TickInfo :=
  let fp : K := ((fpScale : ℤ) : K)
  let accelerationPerTick := accelerationInSteps * (fp / frequency ^ 2)
  let decelerationPerTick := decelerationInSteps * (fp / frequency ^ 2)
  if steps = 0 then {}
  else
    let aratio : K := 1 / (block.stepsEventCount.toNat : K) * (steps.toNat : K)
    let event :=
      if profile.accelerateUntil ≠ 0 then profile.accelerateUntil
      else if profile.decelerateAfter = 0 then profile.totalMoveTicks + 1
      else if profile.decelerateAfter ≠ profile.totalMoveTicks then profile.decelerateAfter
      else profile.totalMoveTicks + 1
    let change :=
      if profile.accelerateUntil ≠ 0 then accelerationPerTick
      else if profile.decelerateAfter = 0 then -decelerationPerTick
      else 0
    { stepsToMove := steps
      stepsPerTick := roundAway (profile.initialRate * aratio / frequency * fp)
      nextAccelEvent := event
      accelerationChange := roundAway (change * aratio)
      decelerationChange := -roundAway (decelerationPerTick * aratio)
      plateauRate := roundAway (profile.maximumRate * aratio / frequency * fp) }

/-- The profile from `entryspeed` to `exitspeed`. -/
def trapezoid (frequency : K) (block : Block K) (entryspeed exitspeed : K) : Profile K :=
  let initialRate := block.nominalRate * (entryspeed / block.nominalSpeed)
  let finalRate := block.nominalRate * (exitspeed / block.nominalSpeed)
  let count : K := (block.stepsEventCount.toNat : K)
  let accelerationPerSecond := block.acceleration * count / block.millimeters
  let maximumPossibleRate :=
    sqrtf (count * accelerationPerSecond + (initialRate ^ 2 + finalRate ^ 2) / 2)
  let maximumRate := min maximumPossibleRate block.nominalRate
  let timeToAccelerate := (maximumRate - initialRate) / accelerationPerSecond
  let timeToDecelerate := (finalRate - maximumRate) / -accelerationPerSecond
  let plateauTime :=
    if maximumPossibleRate > block.nominalRate then
      let accelerationDistance := (initialRate + maximumRate) / 2 * timeToAccelerate
      let decelerationDistance := (maximumRate + finalRate) / 2 * timeToDecelerate
      (count - accelerationDistance - decelerationDistance) / maximumRate
    else 0
  let totalMoveTime := timeToAccelerate + timeToDecelerate + plateauTime
  let accelerationTicks := floorTicks (timeToAccelerate * frequency)
  let decelerationTicks := floorTicks (timeToDecelerate * frequency)
  let totalMoveTicks := floorTicks (totalMoveTime * frequency)
  let accelerationTime : K := (accelerationTicks.toNat : K) / frequency
  let decelerationTime : K := (decelerationTicks.toNat : K) / frequency
  let accelerationInSteps :=
    if accelerationTime > 0 then (maximumRate - initialRate) / accelerationTime else 0
  let decelerationInSteps :=
    if decelerationTime > 0 then (maximumRate - finalRate) / decelerationTime else 0
  let profile : Profile K :=
    { initialRate := initialRate
      maximumRate := maximumRate
      accelerateUntil := accelerationTicks
      decelerateAfter := totalMoveTicks - decelerationTicks
      totalMoveTicks := totalMoveTicks }
  { profile with
    tickInfo := block.steps.map
      (prepareMotor frequency block profile accelerationInSteps decelerationInSteps) }

/-- `calculate_trapezoid(entryspeed, exitspeed)`; a block being executed is left alone. -/
def calculateTrapezoid (frequency : K) (block : Block K) (entryspeed exitspeed : K) : Block K :=
  if block.isTicking then block
  else
    { block with
      exitSpeed := exitspeed
      profile := block.trapezoid sqrtf frequency entryspeed exitspeed }

end Block

end CarveraFirmware.Motion
