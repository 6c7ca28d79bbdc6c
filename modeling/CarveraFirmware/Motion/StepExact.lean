import Mathlib
import CarveraFirmware.Motion.StepTicker

/-!
# A block makes exactly its steps

The motors of a block run side by side, each by its own counter. Followed alone, a motor whose
rate stays positive and at most one step a tick makes exactly the steps it was given; the block
ends on the tick on which the last of them is done.
-/

namespace CarveraFirmware.Motion

/-- Held in a signed 64-bit variable. -/
def InInt64 (x : ℤ) : Prop := -2 ^ 63 ≤ x ∧ x < 2 ^ 63

/-- Held in a signed 32-bit variable. -/
def InInt32 (x : ℤ) : Prop := -2 ^ 31 ≤ x ∧ x < 2 ^ 31

/-! ## One motor -/

namespace Drive

/-- A motor followed alone through the first `k` ticks of its block. -/
def after (timing : Timing) (d : Drive) : ℕ → Drive
  | 0 => d
  | k + 1 => ((d.after timing k).tick timing (UInt32.ofNat k)).1

/-- Whether the motor steps on tick `k`. -/
def stepsAt (timing : Timing) (d : Drive) (k : ℕ) : Bool :=
  ((d.after timing k).tick timing (UInt32.ofNat k)).2.stepped

/-- How often it has stepped in the first `k` ticks. -/
def stepsMade (timing : Timing) (d : Drive) (k : ℕ) : ℕ := (List.range k).countP (d.stepsAt timing)

/-- Until its last step the motor's rate is positive and at most one step a tick, both as the
acceleration leaves it and as it is used. -/
def RatesOk (timing : Timing) (d : Drive) : Prop :=
  ∀ k, (d.after timing k).info.stepsToMove ≠ 0 →
    (0 < (d.after timing k).info.stepsPerTick + (d.after timing k).info.accelerationChange ∧
      (d.after timing k).info.stepsPerTick + (d.after timing k).info.accelerationChange ≤ fpScale) ∧
    0 < ((d.after timing k).info.advance timing (UInt32.ofNat k)).stepsPerTick ∧
      ((d.after timing k).info.advance timing (UInt32.ofNat k)).stepsPerTick ≤ fpScale

/-- One step in the direction the motor is set to. -/
def sign (d : Drive) : ℤ := if d.motor.direction then -1 else 1

/-- What holds of a motor that started with `n` steps to make from position `p`, having made
`made` of them. -/
structure Inv (n : UInt32) (p : Int32) (direction : Bool) (made : ℕ) (d : Drive) : Prop where
  count : d.info.stepCount.toNat = made
  direction : d.motor.direction = direction
  position : d.motor.currentPositionSteps = Int32.ofInt (p.toInt + made * d.sign)
  active : d.info.stepsToMove ≠ 0 → d.info.stepsToMove = n ∧ made < n.toNat ∧
    d.motor.moving = true ∧ 0 ≤ d.info.counter ∧ d.info.counter < fpScale
  done : d.info.stepsToMove = 0 → made = n.toNat ∧ d.motor.moving = false

@[simp] theorem tick_of_done {timing : Timing} {tick : UInt32} {d : Drive}
    (h : d.info.stepsToMove = 0) : d.tick timing tick = (d, {}) := by
  rw [Drive.tick, if_pos h]

end Drive

theorem TickInfo.advance_fields (timing : Timing) (tick : UInt32) (info : TickInfo) :
    (info.advance timing tick).counter = info.counter ∧
      (info.advance timing tick).stepsToMove = info.stepsToMove ∧
      (info.advance timing tick).stepCount = info.stepCount := by
  unfold TickInfo.advance
  dsimp only
  split_ifs <;> exact ⟨rfl, rfl, rfl⟩

namespace Drive

variable {timing : Timing} {n now : UInt32} {p : Int32} {direction : Bool} {made : ℕ} {d : Drive}

/-- A tick of a motor that still has steps to make: it makes one just when the counter passes one
step, and is done when that was its last. -/
theorem Inv.tick (h : d.Inv n p direction made) (hact : d.info.stepsToMove ≠ 0)
    (hpos : 0 < (d.info.advance timing now).stepsPerTick)
    (hle : (d.info.advance timing now).stepsPerTick ≤ fpScale) :
    (d.tick timing now).1.Inv n p direction
        (made + if (d.tick timing now).2.stepped then 1 else 0) ∧
      (d.tick timing now).2.stillMoving = decide ((d.tick timing now).1.info.stepsToMove ≠ 0) ∧
      fpScale * made + d.info.counter <
        fpScale * ((made + if (d.tick timing now).2.stepped then 1 else 0 : ℕ) : ℤ) +
          (d.tick timing now).1.info.counter := by
  obtain ⟨hcounter, hsteps, hcount⟩ := TickInfo.advance_fields timing now d.info
  obtain ⟨hn, hmade, hmoving, hlow, hhigh⟩ := h.active hact
  generalize hr : d.info.advance timing now = r at *
  have hacc : r.accumulate = { r with counter := r.counter + r.stepsPerTick } := by
    simp [TickInfo.accumulate, not_le.mpr hpos]
  have hbound := n.toNat_lt
  have hone : (r.stepCount + 1).toNat = made + 1 := by
    rw [hcount, UInt32.toNat_add, h.count]
    simp only [UInt32.toNat_one]
    omega
  have hsign : d.motor.currentPositionSteps + (if d.motor.direction then -1 else 1) =
      Int32.ofInt (p.toInt + ((made + 1 : ℕ) : ℤ) * d.sign) := by
    have hone : (if d.motor.direction then -1 else 1 : Int32) = Int32.ofInt d.sign := by
      rw [sign]
      split_ifs <;> rfl
    have hsum : p.toInt + ((made + 1 : ℕ) : ℤ) * d.sign = p.toInt + made * d.sign + d.sign := by
      push_cast
      ring
    rw [h.position, hone, hsum, ← Int32.ofInt_add]
  -- The counter passes a whole step or not; with a step that is the last one, the motor stops.
  by_cases hstep : fpScale ≤ r.counter + r.stepsPerTick
  · have hroom : 0 ≤ r.counter + r.stepsPerTick - fpScale ∧
        r.counter + r.stepsPerTick - fpScale < fpScale := by omega
    by_cases hlast : r.stepCount + 1 = r.stepsToMove
    · -- The last step.
      have heq : d.tick timing now =
          (⟨{ r with
              counter := r.counter + r.stepsPerTick - fpScale, stepCount := r.stepCount + 1
              stepsToMove := 0 }, d.motor.step.2.stopMoving⟩, { stepped := true }) := by
        simp [Drive.tick, hact, hr, hacc, hstep, hlast]
      rw [heq]
      refine ⟨⟨hone, h.direction, hsign, fun h0 => absurd rfl h0, fun _ => ⟨?_, rfl⟩⟩, rfl, ?_⟩
      · rw [← hn, ← hsteps, ← hlast, hone]
        simp
      · simp only [if_true]
        push_cast
        linarith
    · have heq : d.tick timing now =
          (⟨{ r with
              counter := r.counter + r.stepsPerTick - fpScale, stepCount := r.stepCount + 1 },
            d.motor.step.2⟩, { stepped := true, stillMoving := true }) := by
        simp [Drive.tick, hact, hr, hacc, hstep, hlast, Motor.step, hmoving]
      rw [heq]
      refine ⟨⟨hone, h.direction, hsign, fun _ => ⟨hsteps.trans hn, ?_, hmoving, hroom⟩,
        fun h0 => absurd (hsteps.symm.trans h0) hact⟩, ?_, ?_⟩
      · have hne : made + 1 ≠ n.toNat := fun hlast' => hlast (by
          rw [← UInt32.toNat_inj, hone, hsteps, hn, hlast'])
        simp only [if_true]
        omega
      · simp [hsteps, hact]
      · simp only [if_true]
        push_cast
        linarith
  · have heq : d.tick timing now =
        (⟨{ r with counter := r.counter + r.stepsPerTick }, d.motor⟩, { stillMoving := true }) := by
      simp [Drive.tick, hact, hr, hacc, hstep, hmoving]
    rw [heq]
    refine ⟨⟨hcount ▸ h.count, h.direction, h.position, fun _ => ⟨hsteps.trans hn, hmade, hmoving,
      by dsimp only; omega, by dsimp only; omega⟩, fun h0 => absurd (hsteps.symm.trans h0) hact⟩, ?_, ?_⟩
    · simp [hsteps, hact]
    · simp only [Bool.false_eq_true, if_false, Nat.add_zero]
      linarith

theorem stepsMade_succ (timing : Timing) (d : Drive) (k : ℕ) :
    d.stepsMade timing (k + 1) = d.stepsMade timing k + if d.stepsAt timing k then 1 else 0 := by
  rw [stepsMade, List.range_succ, List.countP_append, List.countP_singleton]
  rfl

theorem sum_stepsAt (timing : Timing) (d : Drive) (k : ℕ) :
    ((List.range k).map fun j => if d.stepsAt timing j then 1 else 0).sum = d.stepsMade timing k := by
  induction k with
  | zero => rfl
  | succ k ih => simp [List.range_succ, ih, stepsMade_succ]

/-- A motor that is done stays as it is. -/
theorem after_succ_of_done {k : ℕ} (h : (d.after timing k).info.stepsToMove = 0) :
    d.after timing (k + 1) = d.after timing k ∧ d.stepsAt timing k = false := by
  simp [after, stepsAt, tick_of_done h]

theorem done_of_le {j k : ℕ} (hjk : j ≤ k) (h : (d.after timing j).info.stepsToMove = 0) :
    (d.after timing k).info.stepsToMove = 0 := by
  induction k, hjk using Nat.le_induction with
  | base => exact h
  | succ k _ ih =>
    rw [(after_succ_of_done ih).1]
    exact ih

theorem Inv.after (h : d.Inv n p direction 0) (hr : d.RatesOk timing) (k : ℕ) :
    (d.after timing k).Inv n p direction (d.stepsMade timing k) := by
  induction k with
  | zero => exact h
  | succ k ih =>
    rw [stepsMade_succ]
    by_cases hact : (d.after timing k).info.stepsToMove = 0
    · obtain ⟨heq, hno⟩ := after_succ_of_done hact
      rw [heq, hno]
      exact ih
    · obtain ⟨-, hpos, hle⟩ := hr k hact
      exact (ih.tick hact hpos hle).1

/-- While the motor has steps to make, the distance covered grows by at least one unit a tick. -/
theorem Inv.progress (h : d.Inv n p direction 0) (hr : d.RatesOk timing) (k : ℕ)
    (hact : (d.after timing k).info.stepsToMove ≠ 0) :
    (k : ℤ) ≤ fpScale * d.stepsMade timing k + (d.after timing k).info.counter := by
  induction k with
  | zero =>
    have := (h.active hact).2.2.2.1
    simpa [stepsMade, Drive.after] using this
  | succ k ih =>
    have hbefore : (d.after timing k).info.stepsToMove ≠ 0 := fun h0 =>
      hact ((after_succ_of_done h0).1 ▸ h0)
    obtain ⟨-, hpos, hle⟩ := hr k hbefore
    have hgrow := ((h.after hr k).tick hbefore hpos hle).2.2
    rw [stepsMade_succ]
    have := ih hbefore
    push_cast at hgrow ⊢
    exact Int.add_one_le_of_lt (this.trans_lt hgrow)

theorem Inv.exists_done (h : d.Inv n p direction 0) (hr : d.RatesOk timing) :
    ∃ k, (d.after timing k).info.stepsToMove = 0 := by
  by_contra hnever
  push Not at hnever
  -- One unit a tick would carry it past its last step.
  have hlong := h.progress hr (fpScale.toNat * n.toNat) (hnever _)
  obtain ⟨-, hmade, -, -, hcounter⟩ := (h.after hr (fpScale.toNat * n.toNat)).active (hnever _)
  have hscale : 0 ≤ fpScale := by decide
  have hall : ((fpScale.toNat * n.toNat : ℕ) : ℤ) = fpScale * n.toNat := by
    rw [Nat.cast_mul, Int.toNat_of_nonneg hscale]
  have hlast : fpScale * (((d.stepsMade timing (fpScale.toNat * n.toNat) : ℕ) : ℤ) + 1) ≤
      fpScale * n.toNat := mul_le_mul_of_nonneg_left (by exact_mod_cast hmade) hscale
  linarith

end Drive

/-! ## All the motors -/

namespace StepTicker

variable {n : ℕ}

theorem tickMotors_eq (timing : Timing) (now : UInt32) (drives : Fin n → Drive) :
    tickMotors timing now drives =
      (fun m => ((drives m).tick timing now).1,
        (List.finRange n).filter fun m => ((drives m).tick timing now).2.stepped,
        (List.finRange n).any fun m => ((drives m).tick timing now).2.stillMoving) := by
  have hacc : ∀ (l : List (Fin n)) (acc : List (Fin n) × Bool),
      l.foldl (fun acc m =>
        (if ((drives m).tick timing now).2.stepped then acc.1 ++ [m] else acc.1,
          acc.2 || ((drives m).tick timing now).2.stillMoving)) acc =
      (acc.1 ++ l.filter fun m => ((drives m).tick timing now).2.stepped,
        acc.2 || l.any fun m => ((drives m).tick timing now).2.stillMoving) := by
    intro l
    induction l with
    | nil => simp
    | cons m l ih =>
      intro acc
      rw [List.foldl_cons, ih]
      cases hm : ((drives m).tick timing now).2.stepped <;> simp [hm, Bool.or_assoc]
  rw [tickMotors, Loop.foldl_turn _ _ (List.nodup_finRange n), hacc]
  simp

/-- The motors with their tick values as a block starts. -/
def drives (s : StepTicker n) (block : TickBlock n) (m : Fin n) : Drive :=
  ⟨block.tickInfo m, (s.startNextBlock block).motors m⟩

/-- The ticker after `k` ticks of a block, with every motor where it gets to alone. -/
def runningAt (s : StepTicker n) (block : TickBlock n) (k : ℕ) : StepTicker n where
  running := true
  currentTick := UInt32.ofNat k
  currentBlock := some { block with tickInfo := fun m => ((s.drives block m).after block.timing k).info }
  motors := fun m => ((s.drives block m).after block.timing k).motor

/-- Some motor has steps to make after `k` ticks. -/
def Alive (s : StepTicker n) (block : TickBlock n) (k : ℕ) : Prop :=
  ∃ m, ((s.drives block m).after block.timing k).info.stepsToMove ≠ 0

variable {s : StepTicker n} {block : TickBlock n}

/-- Where a block takes a motor: its position and the steps in its direction. -/
def target (s : StepTicker n) (block : TickBlock n) (m : Fin n) : ℤ :=
  (s.motors m).currentPositionSteps.toInt +
    (if block.directionBits m then -1 else 1) * (block.tickInfo m).stepsToMove.toNat

/-- A block as `prepare` leaves it: nothing counted yet. -/
def Fresh (block : TickBlock n) : Prop :=
  ∀ m, (block.tickInfo m).counter = 0 ∧ (block.tickInfo m).stepCount = 0

instance (block : TickBlock n) : Decidable (Fresh block) :=
  inferInstanceAs (Decidable (∀ m, (block.tickInfo m).counter = 0 ∧ (block.tickInfo m).stepCount = 0))

theorem drives_inv (hfresh : Fresh block) {m : Fin n} (hm : (block.tickInfo m).stepsToMove ≠ 0) :
    (s.drives block m).Inv (block.tickInfo m).stepsToMove (s.motors m).currentPositionSteps
      (block.directionBits m) 0 := by
  obtain ⟨hcounter, hcount⟩ := hfresh m
  have hpos : 0 < (block.tickInfo m).stepsToMove.toNat :=
    Nat.pos_of_ne_zero fun h0 => hm (UInt32.toNat_inj.mp h0)
  constructor
  case count => simp [drives, hcount]
  case direction => simp [drives, startNextBlock, hm, Motor.setDirection, Motor.startMoving]
  case position => simp [drives, startNextBlock, hm, Motor.setDirection, Motor.startMoving]
  case active =>
    intro _
    refine ⟨rfl, hpos, ?_, ?_, ?_⟩
    · simp [drives, startNextBlock, hm, Motor.startMoving]
    · simp [drives, hcounter]
    · simp [drives, hcounter, fpScale]
  case done => exact fun h0 => absurd h0 hm

/-- A motor without steps in the block is left alone. -/
theorem after_of_idle {m : Fin n} (hm : (block.tickInfo m).stepsToMove = 0) (k : ℕ) :
    (s.drives block m).after block.timing k = s.drives block m ∧
      (s.drives block m).stepsMade block.timing k = 0 := by
  induction k with
  | zero => exact ⟨rfl, rfl⟩
  | succ k ih =>
    have hdone : ((s.drives block m).after block.timing k).info.stepsToMove = 0 := by
      rw [ih.1]
      exact hm
    obtain ⟨heq, hno⟩ := Drive.after_succ_of_done hdone
    rw [heq, Drive.stepsMade_succ, hno]
    exact ⟨ih.1, ih.2⟩

variable (hfresh : Fresh block) (hrates : ∀ m, (s.drives block m).RatesOk block.timing)

include hfresh hrates

theorem stillMoving_eq (m : Fin n) (k : ℕ) :
    (((s.drives block m).after block.timing k).tick block.timing (UInt32.ofNat k)).2.stillMoving =
      decide (((s.drives block m).after block.timing (k + 1)).info.stepsToMove ≠ 0) := by
  by_cases hact : ((s.drives block m).after block.timing k).info.stepsToMove = 0
  · rw [(Drive.after_succ_of_done hact).1, Drive.tick_of_done hact]
    simp [hact]
  · have hm : (block.tickInfo m).stepsToMove ≠ 0 := fun h0 => hact (by
      rw [(after_of_idle h0 k).1]
      exact h0)
    obtain ⟨-, hpos, hle⟩ := hrates m k hact
    exact (((drives_inv hfresh hm).after (hrates m) k).tick hact hpos hle).2.1

/-- A tick that leaves a motor moving goes on with the block. -/
theorem stepTick_of_alive {k : ℕ} (halive : s.Alive block (k + 1))
    (first next : Option (TickBlock n)) :
    (s.runningAt block k).stepTick false first next =
      (s.runningAt block (k + 1),
        { stepped := (List.finRange n).filter fun m =>
            (s.drives block m).stepsAt block.timing k }) := by
  have hstill : ((List.finRange n).any fun m => (((s.drives block m).after block.timing k).tick
      block.timing (UInt32.ofNat k)).2.stillMoving) = true := by
    obtain ⟨m, hm⟩ := halive
    rw [List.any_eq_true]
    exact ⟨m, List.mem_finRange m, by rw [stillMoving_eq hfresh hrates]; simpa using hm⟩
  simp only [stepTick, runningAt, tickBlock, tickMotors_eq, hstill, Bool.false_eq_true, if_false,
    if_true]
  simp only [UInt32.ofNat_add]
  rfl

/-- The tick that leaves none moving ends the block and takes the next. -/
theorem stepTick_of_not_alive {k : ℕ} (hdone : ¬ s.Alive block (k + 1))
    (first next : Option (TickBlock n)) :
    ((s.runningAt block k).stepTick false first next).2.stepped =
        ((List.finRange n).filter fun m => (s.drives block m).stepsAt block.timing k) ∧
      ((s.runningAt block k).stepTick false first next).2.finished = true ∧
      ∀ m, (((s.runningAt block k).stepTick false first next).1.motors m).currentPositionSteps =
        ((s.drives block m).after block.timing (k + 1)).motor.currentPositionSteps := by
  have hstill : ((List.finRange n).any fun m => (((s.drives block m).after block.timing k).tick
      block.timing (UInt32.ofNat k)).2.stillMoving) = false := by
    rw [List.any_eq_false]
    intro m _
    rw [stillMoving_eq hfresh hrates]
    simp only [Alive, not_exists, not_not] at hdone
    simp [hdone m]
  simp only [stepTick, runningAt, tickBlock, tickMotors_eq, hstill, Bool.false_eq_true, if_false]
  cases next with
  | none => exact ⟨rfl, rfl, fun _ => rfl⟩
  | some nextBlock =>
    refine ⟨rfl, rfl, fun m => ?_⟩
    simp only [startNextBlock]
    split_ifs <;> rfl

omit hfresh hrates in
theorem runningAt_zero (hsteps : s.Alive block 0) : s.runningAt block 0 = s.startNextBlock block := by
  obtain ⟨m, hm⟩ := hsteps
  have hok : ((List.finRange n).any fun m => (block.tickInfo m).stepsToMove != 0) = true := by
    rw [List.any_eq_true]
    exact ⟨m, List.mem_finRange m, by simpa [drives, Drive.after] using hm⟩
  simp only [runningAt, startNextBlock, hok]
  rfl

/-- While the block runs every motor is where it gets to alone. -/
theorem after_eq (first next : ℕ → Option (TickBlock n)) {k : ℕ}
    (halive : ∀ j ≤ k, s.Alive block j) :
    (s.startNextBlock block).after first next k = s.runningAt block k := by
  induction k with
  | zero => exact (runningAt_zero (halive 0 (le_refl 0))).symm
  | succ k ih =>
    rw [after, ih fun j hj => halive j (hj.trans (Nat.le_succ k)),
      stepTick_of_alive hfresh hrates (halive (k + 1) (le_refl _))]

theorem exists_not_alive : ∃ k, ¬ s.Alive block k := by
  have hdone : ∀ m, ∃ k, ((s.drives block m).after block.timing k).info.stepsToMove = 0 := by
    intro m
    by_cases hm : (block.tickInfo m).stepsToMove = 0
    · exact ⟨0, hm⟩
    · exact (drives_inv hfresh hm).exists_done (hrates m)
  choose last hlast using hdone
  refine ⟨Finset.univ.sup last, ?_⟩
  rintro ⟨m, hm⟩
  exact hm (Drive.done_of_le (Finset.le_sup (Finset.mem_univ m)) (hlast m))

/-- Once no motor has steps left, each has made its own. -/
theorem stepsMade_of_not_alive {k : ℕ} (hdone : ¬ s.Alive block k) (m : Fin n) :
    (s.drives block m).stepsMade block.timing k = (block.tickInfo m).stepsToMove.toNat ∧
      ((s.drives block m).after block.timing k).motor.currentPositionSteps =
        Int32.ofInt (s.target block m) := by
  simp only [Alive, not_exists, not_not] at hdone
  by_cases hm : (block.tickInfo m).stepsToMove = 0
  · obtain ⟨heq, hnone⟩ := after_of_idle (s := s) hm k
    rw [heq, hnone, hm]
    simp [drives, startNextBlock, target, hm]
  · have hinv := (drives_inv (s := s) hfresh hm).after (hrates m) k
    have hmade := (hinv.done (hdone m)).1
    refine ⟨hmade, ?_⟩
    rw [hinv.position, hmade, Drive.sign, hinv.direction, target, mul_comm]

omit hfresh hrates in
theorem count_filter_finRange (f : Fin n → Bool) (m : Fin n) :
    ((List.finRange n).filter f).count m = if f m then 1 else 0 := by
  split_ifs with hm
  · exact List.count_eq_one_of_mem ((List.nodup_finRange n).filter _)
      (List.mem_filter.mpr ⟨List.mem_finRange m, hm⟩)
  · exact List.count_eq_zero_of_not_mem fun h => hm (List.mem_filter.mp h).2

/-- From its start a block takes some number of ticks. On each, a motor steps at most once; over
all of them it makes exactly the steps it was given, and its position, which is 32 bits wide, moves by
as many in its direction; `block_finished` is called on the last of them alone, on which some motor still makes a
step; and nothing the tick computes leaves the range of its 64-bit variables. -/
theorem step_tick_exact (hsteps : ∃ m, (block.tickInfo m).stepsToMove ≠ 0)
    (first next : ℕ → Option (TickBlock n)) :
    ∃ ticks, 0 < ticks ∧
      (∀ k < ticks, ((s.startNextBlock block).output first next k).stepped.Nodup) ∧
      (∀ m, ((List.range ticks).map fun k =>
          ((s.startNextBlock block).output first next k).stepped.count m).sum =
        (block.tickInfo m).stepsToMove.toNat) ∧
      (∀ m, (((s.startNextBlock block).after first next ticks).motors m).currentPositionSteps =
          Int32.ofInt (s.target block m) ∧
        (InInt32 (s.target block m) →
          (((s.startNextBlock block).after first next ticks).motors m).currentPositionSteps.toInt =
            s.target block m)) ∧
      (∀ k < ticks, ((s.startNextBlock block).output first next k).finished = decide (k + 1 = ticks)) ∧
      ((s.startNextBlock block).output first next (ticks - 1)).stepped ≠ [] ∧
      ∀ k < ticks, ∀ b, ((s.startNextBlock block).after first next k).currentBlock = some b →
        ∀ m, (b.tickInfo m).stepsToMove ≠ 0 →
          InInt64 ((b.tickInfo m).stepsPerTick + (b.tickInfo m).accelerationChange) ∧
          InInt64 ((b.tickInfo m).advance b.timing (UInt32.ofNat k)).stepsPerTick ∧
          InInt64 ((b.tickInfo m).counter +
            ((b.tickInfo m).advance b.timing (UInt32.ofNat k)).stepsPerTick) := by
  classical
  have hex := exists_not_alive hfresh hrates
  set ticks := Nat.find hex with hticks
  have hdone : ¬ s.Alive block ticks := Nat.find_spec hex
  have halive : ∀ k < ticks, s.Alive block k := fun k hk => not_not.mp (Nat.find_min hex hk)
  have hpos : 0 < ticks := Nat.pos_of_ne_zero fun h0 => hdone (h0 ▸ hsteps)
  have hlastTick : ticks = ticks - 1 + 1 := by omega
  -- Up to the last tick the block in hand runs, with every motor at its own drive.
  have hafter : ∀ k < ticks,
      (s.startNextBlock block).after first next k = s.runningAt block k := fun k hk =>
    after_eq hfresh hrates first next fun j hj => halive j (hj.trans_lt hk)
  have hstepped : ∀ k < ticks, ((s.startNextBlock block).output first next k).stepped =
      (List.finRange n).filter fun m => (s.drives block m).stepsAt block.timing k := by
    intro k hk
    rw [output, hafter k hk]
    by_cases hlast : s.Alive block (k + 1)
    · rw [stepTick_of_alive hfresh hrates hlast]
    · exact (stepTick_of_not_alive hfresh hrates hlast _ _).1
  have hposition (m : Fin n) :
      (((s.startNextBlock block).after first next ticks).motors m).currentPositionSteps =
        Int32.ofInt (s.target block m) := by
    rw [hlastTick, after, hafter _ (by omega), ← (stepsMade_of_not_alive hfresh hrates hdone m).2]
    rw [(stepTick_of_not_alive hfresh hrates (hlastTick ▸ hdone) _ _).2.2 m, ← hlastTick]
  refine ⟨ticks, hpos, fun k hk => ?_, fun m => ?_, fun m => ⟨hposition m, fun hrange => ?_⟩,
    fun k hk => ?_, ?_, ?_⟩
  · rw [hstepped k hk]
    exact (List.nodup_finRange n).filter _
  · rw [← (stepsMade_of_not_alive hfresh hrates hdone m).1, ← Drive.sum_stepsAt]
    refine congrArg List.sum (List.map_congr_left fun k hk => ?_)
    rw [hstepped k (List.mem_range.mp hk), count_filter_finRange]
  · rw [hposition m, Int32.toInt_ofInt_of_le hrange.1 hrange.2]
  · rw [output, hafter k hk]
    by_cases hlast : k + 1 = ticks
    · rw [(stepTick_of_not_alive hfresh hrates (hlast ▸ hdone) _ _).2.1]
      simp [hlast]
    · rw [stepTick_of_alive hfresh hrates (halive (k + 1) (by omega))]
      simp [hlast]
  · -- The motor that was moving before the last tick has made its last step on it.
    obtain ⟨m, hm⟩ := halive (ticks - 1) (by omega)
    have hsome : (block.tickInfo m).stepsToMove ≠ 0 := fun h0 => hm (by
      rw [(after_of_idle h0 _).1]
      exact h0)
    have hbefore := (((drives_inv hfresh hsome).after (hrates m) (ticks - 1)).active hm).2.1
    have hafterwards := (stepsMade_of_not_alive hfresh hrates hdone m).1
    rw [hlastTick, Drive.stepsMade_succ] at hafterwards
    have hstep : (s.drives block m).stepsAt block.timing (ticks - 1) = true := by
      by_contra hno
      rw [if_neg hno] at hafterwards
      omega
    rw [hstepped _ (by omega)]
    exact List.ne_nil_of_mem (List.mem_filter.mpr ⟨List.mem_finRange m, hstep⟩)
  · intro k hk b hb m hm
    rw [hafter k hk] at hb
    obtain rfl := Option.some.inj hb
    have hsome : (block.tickInfo m).stepsToMove ≠ 0 := fun h0 => hm (by
      simp only [(after_of_idle h0 _).1]
      exact h0)
    obtain ⟨⟨hsum, hsum'⟩, hrate, hrate'⟩ := hrates m k hm
    obtain ⟨-, -, -, hlow, hhigh⟩ := ((drives_inv hfresh hsome).after (hrates m) k).active hm
    have hscale : fpScale = 2 ^ 62 := rfl
    simp only [InInt64]
    refine ⟨?_, ?_, ?_⟩ <;> constructor <;> omega

omit hfresh hrates

/-- Five steps of one motor and two of another the other way, at half its rate: both speed up, run on
and slow down. -/
def twoMotors : TickBlock 2 where
  timing := { accelerateUntil := 2, decelerateAfter := 4, totalMoveTicks := 8 }
  directionBits := fun m => m = 0
  tickInfo := fun m =>
    if m = 0 then
      { stepsPerTick := fpScale / 4, accelerationChange := fpScale / 4,
        decelerationChange := -(fpScale / 8), plateauRate := 3 * (fpScale / 4), nextAccelEvent := 2,
        stepsToMove := 5 }
    else
      { stepsPerTick := fpScale / 8, accelerationChange := fpScale / 8,
        decelerationChange := -(fpScale / 16), plateauRate := 3 * (fpScale / 8), nextAccelEvent := 2,
        stepsToMove := 2 }

/-- The ticker before the block, with both motors away from nought. -/
def beforeTwoMotors : StepTicker 2 where
  motors := fun m => { currentPositionSteps := if m = 0 then 3 else -7 }

theorem step_tick_exact_twoMotors : ∃ ticks, 0 < ticks ∧
    (∀ m, ((List.range ticks).map fun k => ((beforeTwoMotors.startNextBlock twoMotors).output
      (fun _ => none) (fun _ => none) k).stepped.count m).sum = if m = 0 then 5 else 2) ∧
    (∀ m, (((beforeTwoMotors.startNextBlock twoMotors).after (fun _ => none) (fun _ => none)
      ticks).motors m).currentPositionSteps.toInt = if m = 0 then -2 else -5) ∧
    ∀ k < ticks, ((beforeTwoMotors.startNextBlock twoMotors).output (fun _ => none) (fun _ => none)
      k).finished = decide (k + 1 = ticks) := by
  have hrates : ∀ m, (beforeTwoMotors.drives twoMotors m).RatesOk twoMotors.timing := by
    intro m k hact
    have hdone : ∀ m, ((beforeTwoMotors.drives twoMotors m).after twoMotors.timing
        8).info.stepsToMove = 0 := by decide +kernel
    have hlt : k < 8 := by
      by_contra hge
      exact hact (Drive.done_of_le (not_lt.mp hge) (hdone m))
    -- The eight ticks of the block: two of acceleration, three at the plateau, three slowing down.
    revert m
    interval_cases k <;> decide +kernel
  have htarget : ∀ m, InInt32 (beforeTwoMotors.target twoMotors m) ∧
      beforeTwoMotors.target twoMotors m = if m = 0 then -2 else -5 := by
    intro m
    fin_cases m <;> exact ⟨⟨by decide, by decide⟩, by decide⟩
  obtain ⟨ticks, hpos, -, hsteps, hposition, hfinished, -⟩ :=
    step_tick_exact (by decide) hrates ⟨0, by decide⟩ (fun _ => none) (fun _ => none)
  refine ⟨ticks, hpos, fun m => (hsteps m).trans ?_, fun m => ?_, hfinished⟩
  · fin_cases m <;> rfl
  · rw [(hposition m).2 (htarget m).1, (htarget m).2]

/-- With nothing running, the tick that is given a block is the block's first. -/
theorem stepTick_idle (hidle : s.running = false) (hsteps : s.Alive block 0)
    (first next : Option (TickBlock n)) :
    s.stepTick false (some block) next = (s.startNextBlock block).stepTick false first next := by
  have hstart := runningAt_zero hsteps
  have hrun : (s.startNextBlock block).running = true := by rw [← hstart]; rfl
  simp only [stepTick, hidle, hrun, if_true]
  rfl

/-- The planner's profiles have counted nothing yet. -/
theorem fresh_toTickBlock {K : Type*} [Field K] [LinearOrder K] [FloorRing K] {sqrtf : K → K}
    {frequency : K} {b : Block K}
    (h : b.profile = b.trapezoid sqrtf frequency b.entrySpeed b.exitSpeed) :
    Fresh (b.toTickBlock n) := by
  have hinfo : ∀ info ∈ b.profile.tickInfo, info.counter = 0 ∧ info.stepCount = 0 := by
    rw [h]
    simp only [Block.trapezoid, List.mem_map]
    rintro info ⟨steps, -, rfl⟩
    unfold Block.prepareMotor
    dsimp only
    split_ifs <;> exact ⟨rfl, rfl⟩
  intro m
  simp only [Block.toTickBlock, List.getD_eq_getElem?_getD]
  cases hm : b.profile.tickInfo[m.val]? with
  | none => exact ⟨rfl, rfl⟩
  | some info => exact hinfo info (List.mem_of_getElem? hm)

end StepTicker

end CarveraFirmware.Motion
