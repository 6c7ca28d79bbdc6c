import Mathlib
import CarveraFirmware.Homing.Machine

/-!
# Home commands

`Endstops::home` with the moves it waits for, `process_home_command` around it, and
`test_endstop_repeatability`. What is printed, and the coordinates that the robot is given on a
delta or a SCARA, are left out.
-/

namespace CarveraFirmware.Homing

variable {T M : Type} (cfg : HomingConfig) (world : ℕ → Wait M)

def rotaryClearanceActive (s : Machine T M) : Bool :=
  s.axisIsOn .a && cfg.rotaryClearanceYMin.isSome

/-- A move away from zero, to the side of the switch or from it. -/
def toSwitch (m : AxisLetter) (distance : ℚ) : ℚ :=
  if (cfg.info m).homeDirection then -distance else distance

def fromSwitch (m : AxisLetter) (distance : ℚ) : ℚ :=
  if (cfg.info m).homeDirection then distance else -distance

/-- A move of one axis. -/
def along (m : AxisLetter) (distance : ℚ) : AxisLetter → ℚ :=
  fun m' => if m' = m then distance else 0

/-- The fast approach of one axis, up to the wait. -/
def approach (m : AxisLetter) (s : Machine T M) : Machine T M :=
  s.deltaMove cfg world (along m (toSwitch cfg m (cfg.info m).maxTravel)) (cfg.info m).fastRate

/-- The fast approach of X and Y at once. -/
def approachXY (s : Machine T M) : Machine T M :=
  s.deltaMove cfg world
    (fun m => if m = .x ∨ m = .y then toSwitch cfg m (cfg.info m).maxTravel else 0)
    (min (cfg.info .x).fastRate (cfg.info .y).fastRate)

/-- `Endstops::home_xy`. -/
def homeXy (s : Machine T M) : Machine T M :=
  let s :=
    if s.axisToHome .x && s.axisToHome .y then
      if rotaryClearanceActive cfg s then approach cfg world .x (approach cfg world .y s)
      else approachXY cfg world s
    else if s.axisToHome .x then approach cfg world .x s
    else if s.axisToHome .y then approach cfg world .y s
    else s
  s.waitForIdle cfg world

/-- The start of `home`: the counters are reset, and what the approaches find is new. -/
def startHoming (a : AxisLetter → Bool) (s : Machine T M) : Machine T M :=
  { s with
    axisIsOn := fun m => s.axisIsOn m && !(decide (m ∈ cfg.axes) && a m)
    motion := { s.motion with
      switch := fun m => { s.motion.switch m with debounce := 0, triggered := false }
      stops := [] }
    disableArmSolution := s.disableArmSolution || cfg.isScara
    axisToHome := a
    status := .movingToEndstopFast
    disableSegmentation := true }

def Machine.triggered (s : Machine T M) (m : AxisLetter) : Bool := (s.motion.switch m).triggered

def Machine.homeFail (s : Machine T M) : Machine T M :=
  { { s with status := .notHoming, haltReason := some .homeFail }.onHalt with
    disableSegmentation := false }

/-- A rotary axis goes back from its switch, and is on if that lets the switch go. -/
def backRotary (s : Machine T M) (m : AxisLetter) : Machine T M :=
  if s.axisToHome m then
    let back (s : Machine T M) :=
      (s.deltaMove cfg world (along m (fromSwitch cfg m ((cfg.info m).retract * 50)))
        (cfg.info m).fastRate).waitForIdle cfg world
    let s := back s
    if (world s.clock).level m then
      let s := back s
      if (world s.clock).level m then s
      else { s with axisIsOn := Function.update s.axisIsOn m true }
    else { s with axisIsOn := Function.update s.axisIsOn m true }
  else s

def homeRotary (always : Bool) (s : Machine T M) (m : AxisLetter) : Machine T M :=
  if s.axisToHome m && (always || s.axisIsOn m) then (approach cfg world m s).waitForIdle cfg world
  else s

/-- The fast approach of A, B and C. -/
def homeRotaries (s : Machine T M) : Machine T M :=
  if cfg.aAxisHome then
    let s := cfg.rotary.foldl (backRotary cfg world) { s with status := .movingBack }
    cfg.rotary.foldl (homeRotary cfg world false) { s with status := .movingToEndstopFast }
  else cfg.rotary.foldl (homeRotary cfg world true) s

/-- A switch that should have been hit was not. -/
def missed (s : Machine T M) : Bool :=
  (([.x, .y, .z] : List AxisLetter).any s.axisToHome &&
      ([.x, .y, .z] : List AxisLetter).any fun m =>
        (s.axisToHome m || cfg.isDelta || cfg.isRdelta) && !s.triggered m) ||
    cfg.rotary.any fun m => s.axisToHome m && !s.triggered m && s.axisIsOn m

/-- The fast approaches of `home` from Z on, and whether they hit the switches. -/
def approachRest (s : Machine T M) : Machine T M × Bool :=
  let detectRotaryBeforeXY := cfg.rotaryClearanceYMin.isSome
  let s := if cfg.homeZFirst && !detectRotaryBeforeXY then homeXy cfg world s else s
  let s := homeRotaries cfg world s
  let s := if cfg.homeZFirst && detectRotaryBeforeXY then homeXy cfg world s else s
  if missed cfg s then (s.homeFail, false) else (s, true)

def fastApproach (s : Machine T M) : Machine T M × Bool :=
  let s := if cfg.homeZFirst then s else homeXy cfg world s
  if s.axisToHome .z then
    let s := (approach cfg world .z s).waitForIdle cfg world
    if s.triggered .z then approachRest cfg world s else (s.homeFail, false)
  else approachRest cfg world s

/-- The slowest rate of the axes that are homed. -/
def slowFeedRate (s : Machine T M) : ℚ :=
  cfg.axes.foldl (fun rate m => if s.axisToHome m then min (cfg.info m).slowRate rate else rate)
    (cfg.info .x).slowRate

def moveBack (s : Machine T M) : Machine T M :=
  ({ s with status := .movingBack }.deltaMove cfg world
    (fun m => if m ∈ cfg.axes ∧ s.axisToHome m then fromSwitch cfg m (cfg.info m).retract else 0)
    (slowFeedRate cfg s)).waitForIdle cfg world

/-- The slow approach, up to the wait. -/
def approachSlow (s : Machine T M) : Machine T M :=
  { s with status := .movingToEndstopSlow }.deltaMove cfg world
    (fun m =>
      if m ∈ cfg.axes ∧ s.axisToHome m then toSwitch cfg m ((cfg.info m).retract * 2) else 0)
    (slowFeedRate cfg s)

def endHoming (s : Machine T M) : Machine T M :=
  { s with
    disableSegmentation := false
    disableArmSolution := s.disableArmSolution && !cfg.isScara
    status := .notHoming }

/-- `Endstops::home`. -/
def home (a : AxisLetter → Bool) (s : Machine T M) : Machine T M :=
  match fastApproach cfg world (startHoming cfg a s) with
  | (s, false) => s
  | (s, true) =>
    endHoming cfg ((approachSlow cfg world (moveBack cfg world s)).waitForIdle cfg world)

/-- A G-code that moves the machine is sent, and the move waited for. -/
def Machine.sendGcode (s : Machine T M) : Machine T M :=
  { s with modal := (world s.clock).modal s.modal }.waitForIdle cfg world

/-- The axes that `back_off_home` moves off their switches. -/
def backOffAxes (a : AxisLetter → Bool) (s : Machine T M) : List AxisLetter :=
  if cfg.isDelta then [.z]
  else cfg.axes.filter fun m => a m && cfg.hasSwitch m && cfg.limitEnable m && s.triggered m

/-- `Endstops::back_off_home`. -/
def backOffHome (a : AxisLetter → Bool) (s : Machine T M) : Machine T M :=
  let s := { s with status := .backOffHome }
  let s := if backOffAxes cfg a s = [] then s else (s.pushState.sendGcode cfg world).popState
  { s with status := .notHoming }

/-- `Endstops::move_to_origin`. Parking does nothing. -/
def moveToOrigin (a : AxisLetter → Bool) (s : Machine T M) : Machine T M :=
  if !cfg.isDelta && (!a .x || !a .y) then s
  else if cfg.parkAfterHome then { s with status := .notHoming }
  else if cfg.moveToOriginAfterHome then
    { ({ s with status := .moveToOrigin }.pushState.sendGcode cfg world).popState with
      status := .notHoming }
  else s

/-- The axes that a home command with these letters homes. -/
def homedAxes (letters : AxisLetter → Bool) (m : AxisLetter) : Bool :=
  let axisSpeced := AxisLetter.all.any letters
  if cfg.isDelta || cfg.isRdelta then
    (m ∈ cfg.rotary && cfg.hasSwitch m && (!axisSpeced || letters m)) ||
      (m = .z && (!axisSpeced || letters .x || letters .y || letters .z))
  else m ∈ cfg.axes && cfg.hasSwitch m && (!axisSpeced || letters m)

/-- `y_before_x_homing_order`. -/
def yBeforeXHomingOrder (order : ℕ) (clearanceActive : Bool) : ℕ :=
  if clearanceActive = false then order
  else
    let axisAt (shift : ℕ) := (order >>> shift) &&& 7
    let shiftOf (axis : ℕ) :=
      [0, 3, 6, 9, 12, 15].foldl (fun found shift => if axisAt shift = axis then shift else found)
        18
    let xShift := shiftOf 1
    let yShift := shiftOf 2
    if yShift ≤ xShift ∨ yShift = 18 then order
    else
      let axisMask := (7 <<< xShift) ||| (7 <<< yShift)
      (order &&& ((2 ^ 18 - 1) ^^^ axisMask)) ||| (2 <<< xShift) ||| (1 <<< yShift)

/-- The axis with a number of the homing order, from one on. -/
def orderAxis (number : ℕ) : Option AxisLetter :=
  AxisLetter.all[number - 1]?.filter fun _ => 0 < number

def homeOne (a : AxisLetter → Bool) (axis : Option AxisLetter) (s : Machine T M) : Machine T M :=
  match axis with
  | some m => if m ∈ cfg.axes ∧ a m then home cfg world (fun m' => m' = m) s else s
  | none => s

/-- The axes are homed one by one; a halt ends the loop. -/
def homeEach (a : AxisLetter → Bool) : List (Option AxisLetter) → Machine T M → Machine T M
  | [], s => s
  | axis :: axes, s =>
    if (homeOne cfg world a axis s).halted then homeOne cfg world a axis s
    else homeEach a axes (homeOne cfg world a axis s)

/-- The actual homing of a home command. -/
def homeAll (a : AxisLetter → Bool) (s : Machine T M) : Machine T M :=
  let order := yBeforeXHomingOrder cfg.homingOrder (rotaryClearanceActive cfg s && a .x && a .y)
  if order ≠ 0 ∧ cfg.isScara = false then
    homeEach cfg world a ((Nat.digits 8 order).map orderAxis) s
  else if cfg.isCorexy then homeEach cfg world a (cfg.axes.map some) s
  else home cfg world a s

/-- The homed axes get their coordinates. On a delta or a SCARA all of X, Y and Z are homed. -/
def setHome (a : AxisLetter → Bool) (s : Machine T M) : Machine T M :=
  let inZOnly := cfg.isDelta || cfg.isRdelta || cfg.isScara
  let requested (m : AxisLetter) : Bool := (if inZOnly then m ∈ cfg.rotary else m ∈ cfg.axes) && a m
  { s with
    homed := fun m => s.homed m || requested m || (inZOnly && (m = .x || m = .y || m = .z))
    declared := fun m =>
      if requested m then
        some ((cfg.info m).homingPosition + (cfg.info m).homeOffset, s.motion.position m)
      else s.declared m }

/-- What a home command does after the homing. -/
def afterHoming (a : AxisLetter → Bool) (s : Machine T M) : Machine T M :=
  let s := setHome cfg a s
  if cfg.isDelta = false then backOffHome cfg world a (moveToOrigin cfg world a s)
  else if a .z && (cfg.moveToOriginAfterHome || cfg.limitEnable .x) then
    moveToOrigin cfg world a (backOffHome cfg world a s)
  else s

/-- `Endstops::process_home_command`. -/
def processHomeCommand (letters : AxisLetter → Bool) (s : Machine T M) : Machine T M :=
  let previous := s.disableEndstops
  let s := { s with disableEndstops := false }.waitForIdle cfg world
  let savect := s.compensationTransform
  let s := { s with compensationTransform := none }
  let a := homedAxes cfg letters
  if AxisLetter.all.all fun m => !a m then { s with disableEndstops := previous }
  else
    let s := { homeAll cfg world a s with compensationTransform := savect }
    if s.halted then { s with homed := fun _ => false, disableEndstops := previous }
    else { afterHoming cfg world a s with disableEndstops := previous }

/-- The start of a tap, whose switch is looked at anew. -/
def startTap (m : AxisLetter) (s : Machine T M) : Machine T M :=
  { s with
    motion := setSwitch s.motion m
      { s.motion.switch m with debounce := 0, triggered := false, nontriggered := false }
    axisToHome := fun m' => m' = m
    disableSegmentation := true
    status := .movingBack }

def tapMove (m : AxisLetter) (distance rate : ℚ) (s : Machine T M) : Machine T M :=
  (s.deltaMove cfg world (along m distance) rate).waitForIdle cfg world

def endTap (s : Machine T M) : Machine T M :=
  { s with disableSegmentation := false, status := .notHoming }

/-- `Endstops::slow_approach_axis`, and whether the switch was hit. -/
def slowApproachAxis (m : AxisLetter) (feedRate : Option ℚ) (multiplier : ℚ) (s : Machine T M) :
    Machine T M × Bool :=
  if m ∈ cfg.axes ∧ cfg.hasSwitch m then
    let rate := feedRate.getD (cfg.info m).slowRate
    let s := tapMove cfg world m (fromSwitch cfg m (cfg.info m).retract) rate (startTap m s)
    let s := tapMove cfg world m (toSwitch cfg m ((cfg.info m).retract * multiplier)) rate
      { s with status := .movingToEndstopSlow }
    (endTap s, s.triggered m)
  else (s, false)

/-- What `test_endstop_repeatability` reads besides the letters of the axes. -/
structure Repeatability where
  letters : AxisLetter → Bool
  /-- The values of R, truncated, and of F. -/
  repeatCount : Option ℤ := none
  feedRate : Option ℚ := none
  isPlaying : Bool := false
  /-- Z is below the clearance height. -/
  belowClearance : Bool := false

def Machine.testFail (s : Machine T M) : Machine T M :=
  { s with haltReason := some .homeFail }.onHalt

/-- One sample, and whether the test goes on. -/
def sample (r : Repeatability) (m : AxisLetter) (s : Machine T M) : Machine T M × Bool :=
  if m ∈ cfg.rotary ∧ cfg.aAxisHome then
    let s := home cfg world (fun m' => m' = m) s
    (s, !s.halted)
  else
    match slowApproachAxis cfg world m r.feedRate 2 s with
    | (s, true) => (s, true)
    | (s, false) => (s.testFail, false)

def samples (r : Repeatability) (m : AxisLetter) : ℕ → Machine T M → Machine T M × Bool
  | 0, s => (s, true)
  | n + 1, s =>
    match sample cfg world r m s with
    | (s, true) => samples r m n s
    | (s, false) => (s, false)

/-- All samples of an axis, after a first tap that is discarded. -/
def testAxis (r : Repeatability) (n : ℕ) (m : AxisLetter) (s : Machine T M) : Machine T M × Bool :=
  if m ∈ cfg.rotary ∧ cfg.aAxisHome then samples cfg world r m n s
  else
    match slowApproachAxis cfg world m r.feedRate 3 s with
    | (s, true) => samples cfg world r m n s
    | (s, false) => (s.testFail, false)

def testAxes (r : Repeatability) (n : ℕ) : List AxisLetter → Machine T M → Machine T M × Bool
  | [], s => (s, true)
  | m :: axes, s =>
    match testAxis cfg world r n m s with
    | (s, true) => testAxes r n axes s
    | (s, false) => (s, false)

/-- The axes that the test is for. -/
def testedAxes (letters : AxisLetter → Bool) : List AxisLetter :=
  let axisSpeced := AxisLetter.all.any letters
  cfg.axes.filter fun m => cfg.hasSwitch m && (!axisSpeced || letters m)

/-- The endstops are enabled and the compensation is off. -/
def Machine.uncompensated (s : Machine T M) : Machine T M :=
  { s with disableEndstops := false, compensationTransform := none }

/-- The part of the test between saving and giving back. -/
def testHoming (r : Repeatability) (n : ℕ) (axes : List AxisLetter) (s : Machine T M) :
    Machine T M :=
  let s := processHomeCommand cfg world r.letters s.uncompensated
  if s.halted then s
  else
    match testAxes cfg world r n axes s with
    | (s, true) => processHomeCommand cfg world r.letters s
    | (s, false) => s

/-- `Endstops::test_endstop_repeatability`. -/
def testEndstopRepeatability (r : Repeatability) (s : Machine T M) : Machine T M :=
  if s.halted || r.isPlaying then s
  else
    let s := s.waitForIdle cfg world
    let n := (max 1 (min 50 (r.repeatCount.getD 5))).toNat
    let axes := testedAxes cfg r.letters
    if axes = [] then s
    else
      let s := if (.x ∈ axes ∨ .y ∈ axes) ∧ r.belowClearance then s.sendGcode cfg world else s
      { testHoming cfg world r n axes s with
        disableEndstops := s.disableEndstops
        compensationTransform := s.compensationTransform }

end CarveraFirmware.Homing
