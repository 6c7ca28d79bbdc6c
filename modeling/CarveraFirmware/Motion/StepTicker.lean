import Mathlib
import CarveraFirmware.Library.Loop
import CarveraFirmware.Motion.Block

/-!
# The step ticker

`libs/StepTicker.cpp`: on every tick of the step clock each motor's 2.62 fixed-point rate is
added to its counter, and the motor makes a step when the counter passes one. The conveyor is
seen through what `get_next_block` returns.
-/

namespace CarveraFirmware.Motion

/-- `libs/StepperMotor.h`, as far as the step ticker uses it. -/
structure Motor where
  currentPositionSteps : Int32 := 0
  direction : Bool := false
  moving : Bool := false

namespace Motor

def step (motor : Motor) : Bool × Motor :=
  (motor.moving,
    { motor with
      currentPositionSteps := motor.currentPositionSteps + if motor.direction then -1 else 1 })

def setDirection (motor : Motor) (f : Bool) : Motor := { motor with direction := f }

def startMoving (motor : Motor) : Motor := { motor with moving := true }

def stopMoving (motor : Motor) : Motor := { motor with moving := false }

end Motor

/-- The tick counts of a block, the same for all motors. -/
structure Timing where
  accelerateUntil : UInt32
  decelerateAfter : UInt32
  totalMoveTicks : UInt32

/-- What the step ticker reads and writes of a block, for `n` motors. -/
structure TickBlock (n : ℕ) where
  timing : Timing
  directionBits : Fin n → Bool
  tickInfo : Fin n → TickInfo

/-- A planned block as the step ticker is given it. -/
def Block.toTickBlock {K : Type*} (b : Block K) (n : ℕ) : TickBlock n where
  timing := ⟨b.profile.accelerateUntil, b.profile.decelerateAfter, b.profile.totalMoveTicks⟩
  directionBits := fun m => b.directionBits.getD m false
  tickInfo := fun m => b.profile.tickInfo.getD m {}

namespace TickInfo

/-- The rate for this tick: the acceleration is added, and changes where a phase ends. -/
def advance (timing : Timing) (currentTick : UInt32) (info : TickInfo) : TickInfo :=
  let info := { info with stepsPerTick := info.stepsPerTick + info.accelerationChange }
  if currentTick = info.nextAccelEvent then
    let info :=
      if currentTick = timing.accelerateUntil then
        let info := { info with accelerationChange := 0 }
        if timing.decelerateAfter < timing.totalMoveTicks then
          let info := { info with nextAccelEvent := timing.decelerateAfter }
          if currentTick ≠ timing.decelerateAfter then
            { info with stepsPerTick := info.plateauRate }
          else info
        else info
      else info
    if currentTick = timing.decelerateAfter then
      { info with accelerationChange := info.decelerationChange }
    else info
  else info

/-- The rate is added to the counter; a rate that is not positive forces a step instead. -/
def accumulate (info : TickInfo) : TickInfo :=
  let info :=
    if info.stepsPerTick ≤ 0 then { info with counter := fpScale, stepsPerTick := 0 } else info
  { info with counter := info.counter + info.stepsPerTick }

end TickInfo

/-- A motor with its tick values in the current block. -/
structure Drive where
  info : TickInfo
  motor : Motor

/-- What a motor did in a tick: whether it stepped, and whether it is still moving. -/
structure MotorTick where
  stepped : Bool := false
  stillMoving : Bool := false

/-- One turn of the loop of `step_tick` over the motors. -/
def Drive.tick (timing : Timing) (currentTick : UInt32) (d : Drive) : Drive × MotorTick :=
  if d.info.stepsToMove = 0 then (d, {})
  else
    let info := (d.info.advance timing currentTick).accumulate
    if info.counter ≥ fpScale then
      let info := { info with counter := info.counter - fpScale, stepCount := info.stepCount + 1 }
      let (ismoving, motor) := d.motor.step
      if !ismoving || info.stepCount == info.stepsToMove then
        (⟨{ info with stepsToMove := 0 }, motor.stopMoving⟩, { stepped := true })
      else (⟨info, motor⟩, { stepped := true, stillMoving := motor.moving })
    else (⟨info, d.motor⟩, { stillMoving := d.motor.moving })

structure StepTicker (n : ℕ) where
  running : Bool := false
  currentTick : UInt32 := 0
  currentBlock : Option (TickBlock n) := none
  motors : Fin n → Motor

/-- What one tick does outside: the motors it steps, whether it calls `block_finished` at the end
of the block, and whether it does so for a next block that turns out to have no steps. -/
structure TickOutput (n : ℕ) where
  stepped : List (Fin n) := []
  finished : Bool := false
  discarded : Bool := false

namespace StepTicker

variable {n : ℕ}

def startNextBlock (s : StepTicker n) (block : TickBlock n) : StepTicker n :=
  { running := (List.finRange n).any fun m => (block.tickInfo m).stepsToMove != 0
    currentTick := 0
    currentBlock := some block
    motors := fun m =>
      if (block.tickInfo m).stepsToMove = 0 then s.motors m
      else ((s.motors m).setDirection (block.directionBits m)).startMoving }

/-- The loop over the motors: the drives, the motors that stepped, and `still_moving`. -/
def tickMotors (timing : Timing) (currentTick : UInt32) (drives : Fin n → Drive) :
    (Fin n → Drive) × List (Fin n) × Bool :=
  (List.finRange n).foldl
    (Loop.turn (fun _ d => d.tick timing currentTick) fun acc m found =>
      (if found.stepped then acc.1 ++ [m] else acc.1, acc.2 || found.stillMoving))
    (drives, [], false)

/-- `step_tick` with a block to run. `next` is what `get_next_block` returns at its end. -/
def tickBlock (halted : Bool) (next : Option (TickBlock n)) (s : StepTicker n)
    (block : TickBlock n) : StepTicker n × TickOutput n :=
  if halted then ({ s with running := false, currentTick := 0, currentBlock := none }, {})
  else
    let (drives, stepped, stillMoving) := tickMotors block.timing s.currentTick
      fun m => ⟨block.tickInfo m, s.motors m⟩
    let s :=
      { s with
        currentBlock := some { block with tickInfo := fun m => (drives m).info }
        motors := fun m => (drives m).motor
        currentTick := s.currentTick + 1 }
    if stillMoving then (s, { stepped := stepped })
    else
      match next with
      | some nextBlock =>
        let s := { s with currentTick := 0 }.startNextBlock nextBlock
        (s, { stepped := stepped, finished := true, discarded := !s.running })
      | none =>
        ({ s with currentTick := 0, currentBlock := none, running := false },
          { stepped := stepped, finished := true })

/-- `step_tick`. `first` is what `get_next_block` returns when nothing is running. -/
def stepTick (halted : Bool) (first next : Option (TickBlock n)) (s : StepTicker n) :
    StepTicker n × TickOutput n :=
  match s.running, s.currentBlock, first with
  | true, some block, _ => s.tickBlock halted next block
  | true, none, _ => (s, {})
  | false, _, none => (s, {})
  | false, _, some block =>
    let s := s.startNextBlock block
    if s.running then s.tickBlock halted next block else (s, { discarded := true })

/-- The state after `k` ticks without a halt; `first` and `next` are the conveyor's. -/
def after (first next : ℕ → Option (TickBlock n)) (s : StepTicker n) : ℕ → StepTicker n
  | 0 => s
  | k + 1 => ((s.after first next k).stepTick false (first k) (next k)).1

/-- What tick `k` does. -/
def output (first next : ℕ → Option (TickBlock n)) (s : StepTicker n) (k : ℕ) : TickOutput n :=
  ((s.after first next k).stepTick false (first k) (next k)).2

end StepTicker

end CarveraFirmware.Motion
