import Mathlib
import CarveraFirmware.Motion.Block

/-!
# The planner

`modules/robot/Planner.cpp`: a new block joins the queue and the speeds at the joins are worked
out again, while the step ticker starts and finishes blocks at the other end. The queue is the
list of its blocks, newest first, so that the reverse pass goes down the list and the forward
pass comes back up.
-/

namespace CarveraFirmware.Motion

/-- The configuration of the planner; `zJunctionDeviation` is `none` for the source's NaN. -/
structure PlannerConfig (K : Type*) where
  junctionDeviation : K
  zJunctionDeviation : Option K := none
  minimumPlannerSpeed : K
  frequency : K
  primaryAxes : ℕ := 3

/-- The arguments of `append_block`, with the steps each motor is to make. -/
structure Move (K : Type*) where
  steps : List ℤ
  rate : K
  distance : K
  unitVec : Option (List K)
  acceleration : K

/-- The queue, newest block first, with how many of its oldest blocks the step ticker has
finished and `on_idle` has not yet collected. -/
structure Planner (K : Type*) where
  blocks : List (Block K) := []
  released : ℕ := 0
  previousUnitVec : List K := []

variable {K : Type*} [Field K] [LinearOrder K] [FloorRing K] (sqrtf : K → K)

/-- The loops of `recalculate` from a block down the queue: going down, the reverse passes, until
the tail or a block that needs none; coming back, the forward passes, each followed by the
trapezoid of the block before. Gives the blocks and the maximum exit speed of the first. -/
def passes (frequency : K) (exitSpeed : K) : List (Block K) → List (Block K) × K
  | [] => ([], exitSpeed)
  | [tail] => ([tail], tail.maxExitSpeed sqrtf)
  | current :: previous :: rest =>
    if current.recalculateFlag then
      let current := current.reversePass sqrtf exitSpeed
      let (below, prevMaxExit) := passes frequency current.entrySpeed (previous :: rest)
      let current := current.forwardPass prevMaxExit
      (current :: below.modifyHead fun p =>
          p.calculateTrapezoid sqrtf frequency p.entrySpeed current.entrySpeed,
        current.maxExitSpeed sqrtf)
    else (current :: previous :: rest, current.maxExitSpeed sqrtf)

/-- `recalculate()`; the first block is the head, not yet produced. -/
def recalculate (cfg : PlannerConfig K) (blocks : List (Block K)) : List (Block K) :=
  (passes sqrtf cfg.frequency cfg.minimumPlannerSpeed blocks).1.modifyHead fun b =>
    b.calculateTrapezoid sqrtf cfg.frequency b.entrySpeed cfg.minimumPlannerSpeed

/-- Steps for X, Y or Z, or for another of the primary axes. -/
def isPrimaryAxis (primaryAxes : ℕ) (steps : List UInt32) : Bool :=
  if steps.getD 0 0 = 0 ∧ steps.getD 1 0 = 0 then
    steps.getD 2 0 ≠ 0 || (List.range primaryAxes).any fun i => 3 ≤ i && steps.getD i 0 ≠ 0
  else true

def moveJunctionDeviation (cfg : PlannerConfig K) (steps : List UInt32) : K :=
  if steps.getD 0 0 = 0 ∧ steps.getD 1 0 = 0 ∧ steps.getD 2 0 ≠ 0 then
    cfg.zJunctionDeviation.getD cfg.junctionDeviation
  else cfg.junctionDeviation

/-- The highest speed at the junction of the last queued block with the new one. -/
def vmaxJunction (cfg : PlannerConfig K) (previousUnitVec : List K) (prev : Option (Block K))
    (nominalSpeed junctionDeviation : K) (move : Move K) : K :=
  match move.unitVec, prev with
  | some unitVec, some prevBlock =>
    let previousNominalSpeed := if prevBlock.primaryAxis then prevBlock.nominalSpeed else 0
    if junctionDeviation > 0 ∧ previousNominalSpeed > 0 then
      let cosTheta := -(List.zipWith (· * ·) previousUnitVec unitVec).sum
      if cosTheta ≤ 9999 / 10000 then
        let vmax := min previousNominalSpeed nominalSpeed
        if cosTheta ≥ -(9999 / 10000) then
          let sinThetaD2 := sqrtf (0.5 * (1 - cosTheta))
          min vmax (sqrtf (move.acceleration * junctionDeviation * sinThetaD2 / (1 - sinThetaD2)))
        else vmax
      else cfg.minimumPlannerSpeed
    else cfg.minimumPlannerSpeed
  | _, _ => cfg.minimumPlannerSpeed

/-- The head block `append_block` fills in, before `recalculate`. -/
def newBlock (cfg : PlannerConfig K) (s : Planner K) (move : Move K) : Block K :=
  let steps := move.steps.map fun n => UInt32.ofNat n.natAbs
  let stepsEventCount := steps.foldl max 0
  let nominalSpeed := if move.distance > 0 then move.rate else 0
  let vmax := vmaxJunction sqrtf cfg s.previousUnitVec s.blocks.head? nominalSpeed
    (moveJunctionDeviation cfg steps) move
  let vAllowable :=
    maxAllowableSpeed sqrtf (-move.acceleration) cfg.minimumPlannerSpeed move.distance
  { (Block.clear steps.length : Block K) with
    steps := steps
    directionBits := move.steps.map (· < 0)
    stepsEventCount := stepsEventCount
    primaryAxis := isPrimaryAxis cfg.primaryAxes steps
    acceleration := move.acceleration
    millimeters := move.distance
    nominalSpeed := nominalSpeed
    nominalRate :=
      if move.distance > 0 then (stepsEventCount.toNat : K) * move.rate / move.distance else 0
    maxEntrySpeed := vmax
    entrySpeed := min vmax vAllowable
    nominalLengthFlag := nominalSpeed ≤ vAllowable
    recalculateFlag := true }

namespace Planner

/-- `append_block` with room in the queue and no abort. A move without steps leaves no block. -/
def append (cfg : PlannerConfig K) (s : Planner K) (move : Move K) : Planner K :=
  if move.steps.all (· = 0) then s
  else
    { s with
      blocks := (recalculate sqrtf cfg (newBlock sqrtf cfg s move :: s.blocks)).modifyHead
        fun b => { b with isReady := true }
      previousUnitVec := move.unitVec.getD (List.replicate cfg.primaryAxes 0) }

/-- Where the oldest block not yet finished stands in the list. -/
def oldest (s : Planner K) : ℕ := s.blocks.length - s.released - 1

/-- The step ticker takes the oldest block not yet finished. -/
def start (s : Planner K) : Planner K :=
  if s.released < s.blocks.length then
    { s with
      blocks := s.blocks.modify s.oldest fun b =>
        { b with isTicking := true, recalculateFlag := false } }
  else s

def finish (s : Planner K) : Planner K :=
  if s.released < s.blocks.length ∧ (s.blocks[s.oldest]?).any (·.isTicking) then
    { s with released := s.released + 1 }
  else s

/-- `on_idle` clears the tail block once the step ticker is done with it. -/
def collect (s : Planner K) : Planner K :=
  if s.released = 0 then s
  else { s with blocks := s.blocks.dropLast, released := s.released - 1 }

end Planner

inductive PlannerEvent (K : Type*) where
  | append (move : Move K)
  | start
  | finish
  | collect

namespace Planner

def step (cfg : PlannerConfig K) (s : Planner K) : PlannerEvent K → Planner K
  | .append move => s.append sqrtf cfg move
  | .start => s.start
  | .finish => s.finish
  | .collect => s.collect

def run (cfg : PlannerConfig K) (s : Planner K) (events : List (PlannerEvent K)) : Planner K :=
  events.foldl (step sqrtf cfg) s

end Planner

end CarveraFirmware.Motion
