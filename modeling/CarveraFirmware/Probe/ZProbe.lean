import Mathlib

/-!
# The probe

`ZProbe`: the two 1 ms timers that watch the pins, and the three commands that probe. While a command
waits, the timers run, and a halt can come and go. Positions are exact, and no compensation or
rotation is in use.
-/

namespace CarveraFirmware.Probe

/-- What the actuators say of where they are. -/
structure Position where
  x : ℚ
  y : ℚ
  z : ℚ
  deriving DecidableEq

structure ProbeConfig where
  pinConnected : Bool := true
  debounceMs : Nat := 0
  probeCalibrationSafetyMargin : ℚ := 1 / 10
  requireProbeTriggerForCalibration : Bool := true

/-- What one tick of the timers reads: the two pins, and the actuators as they are where nothing has
stopped them. -/
structure Sample where
  pin : Bool := false
  calibratePin : Bool := false
  xMoving : Bool := false
  yMoving : Bool := false
  zMoving : Bool := false
  position : Position := ⟨0, 0, 0⟩

/-- Whether the machine moves at all. -/
def Sample.moving (t : Sample) : Bool := t.xMoving || t.yMoving || t.zMoving

structure ZProbe where
  probing : Bool := false
  calibrating : Bool := false
  tloCalibrating : Bool := false
  invertProbe : Bool := false
  probeDetected : Bool := false
  calibrateDetected : Bool := false
  probeTriggered : Bool := false
  haltPending : Bool := false
  probeCrashCount : Nat := 0
  is3dprobeActive : Bool := false
  debounce : Nat := 0
  caliDebounce : Nat := 0
  calibratePinPosition : ℚ := 0
  probePinPosition : ℚ := 0
  calibrateCurrentZ : ℚ := 0
  safetyMarginExceeded : Bool := false
  distanceMoved : ℚ := 0
  /-- The kernel's flags. -/
  halted : Bool := false
  zprobing : Bool := false
  /-- Where `stop_moving` ended the last move that was started, if it did. -/
  stoppedAt : Option Position := none
  /-- Where the machine stands, as the robot has it. -/
  position : Position := ⟨0, 0, 0⟩
  /-- `get_last_probe_position`. -/
  lastProbe : Option (Position × Bool) := none

namespace ZProbe

variable (cfg : ProbeConfig)

/-- `stop_moving` on every actuator. -/
def stopMoving (s : ZProbe) (t : Sample) : ZProbe := { s with stoppedAt := some t.position }

/-- A machine that has been stopped does not move. -/
def seen (s : ZProbe) (t : Sample) : Sample :=
  match s.stoppedAt with
  | none => t
  | some p => { t with xMoving := false, yMoving := false, zMoving := false, position := p }

/-- The crash detection at the head of `read_probe`. -/
def detectCrash (s : ZProbe) (t : Sample) : ZProbe :=
  let s := if s.probeTriggered && !(t.pin != s.invertProbe) then { s with probeTriggered := false } else s
  if t.moving && (t.pin != s.invertProbe) && s.is3dprobeActive && !s.probeTriggered then
    let s := { s with probeTriggered := true }
    if !s.probing && !s.calibrating && !s.tloCalibrating then
      { s with halted := true, haltPending := true, probeCrashCount := s.probeCrashCount + 1 }
    else s
  else s

/-- The rest of `read_probe`. -/
def watchProbe (s : ZProbe) (t : Sample) : ZProbe :=
  if !s.probing then s
  else if t.moving then
    if t.pin != s.invertProbe then
      if s.debounce < cfg.debounceMs then { s with debounce := s.debounce + 1 }
      else if !s.probeDetected then { s with probeDetected := true, probePinPosition := t.position.z }
      else if !s.calibrating then { s.stopMoving t with debounce := 0 }
      else s
    else { s with debounce := 0 }
  else s

/-- `read_probe`. -/
def readProbe (s : ZProbe) (t : Sample) : ZProbe := (s.detectCrash t).watchProbe cfg t

/-- `read_calibrate` once the calibrate pin has been on long enough. -/
def calibrateHit (s : ZProbe) (t : Sample) : ZProbe :=
  let s :=
    if !s.calibrateDetected then
      { s with calibrateDetected := true, calibratePinPosition := t.position.z }
    else s
  if !s.probing || s.probeDetected then { s.stopMoving t with caliDebounce := 0 }
  else
    let s :=
      { s with
        calibrateCurrentZ := t.position.z
        distanceMoved := |t.position.z - s.calibratePinPosition| }
    if s.distanceMoved > cfg.probeCalibrationSafetyMargin then
      { s.stopMoving t with safetyMarginExceeded := true }
    else s

/-- `read_calibrate`. -/
def readCalibrate (s : ZProbe) (t : Sample) : ZProbe :=
  if !s.calibrating then s
  else if t.zMoving then
    if t.calibratePin then
      if s.caliDebounce < cfg.debounceMs then { s with caliDebounce := s.caliDebounce + 1 }
      else s.calibrateHit cfg t
    else { s with caliDebounce := 0 }
  else s

/-- One millisecond: the timers run in the order they were attached in. -/
def tick (s : ZProbe) (t : Sample) : ZProbe :=
  let s := s.readProbe cfg (s.seen t)
  s.readCalibrate cfg (s.seen t)

end ZProbe

/-- What can happen while the machine waits, and between two commands. -/
inductive Interrupt where
  | tick (t : Sample)
  | moveStarts
  | halt
  | clearHalt

def Interrupt.apply (cfg : ProbeConfig) (s : ZProbe) : Interrupt → ZProbe
  | .tick t => s.tick cfg t
  | .moveStarts => { s with stoppedAt := none }
  | .halt => { s with halted := true }
  | .clearHalt => { s with halted := false }

namespace ZProbe

variable (cfg : ProbeConfig)

def wait (s : ZProbe) (interrupts : List Interrupt) : ZProbe := interrupts.foldl (Interrupt.apply cfg) s

def resetProbeTracking (s : ZProbe) : ZProbe :=
  { s with
    safetyMarginExceeded := false, calibratePinPosition := 0, probePinPosition := 0, calibrateCurrentZ := 0 }

/-- `call_event(ON_HALT, nullptr)`. -/
def onHalt (s : ZProbe) : ZProbe := { s with halted := true }

end ZProbe

/-- A move as a probing command meets it: what happens before its pin is checked, whether the robot
queues it when nothing has halted the machine, and what happens until it has ended. -/
structure ProbeMove where
  before : List Interrupt := []
  /-- Whether the pin that is checked before the move is on. -/
  triggered : Bool := false
  queues : Bool := true
  during : List Interrupt := []
  /-- Where the move ends if nothing stops it. -/
  target : Position := ⟨0, 0, 0⟩

namespace ZProbe

variable (cfg : ProbeConfig)

/-- Whether `delta_move` queues the move. -/
def queued (s : ZProbe) (m : ProbeMove) : Bool := !s.halted && m.queues

def setZprobing (s : ZProbe) (f : Bool) : ZProbe := { s with zprobing := f }

def setInvertProbe (s : ZProbe) (f : Bool) : ZProbe := { s with invertProbe := f }

/-- `wait_for_idle` after a move that was queued. -/
def moveAndWait (s : ZProbe) (m : ProbeMove) : ZProbe :=
  let s := ({ s with stoppedAt := none }).wait cfg m.during
  { s with position := s.stoppedAt.getD m.target }

/-- What `run_probe` and `probe_XYZ` set before they move. -/
def startProbing (s : ZProbe) : ZProbe :=
  ({ s with
    probing := true, calibrating := false, probeDetected := false
    debounce := 0, caliDebounce := 0 }).resetProbeTracking

/-- What `calibrate_Z` sets before it moves. -/
def startCalibrating (s : ZProbe) (probeTool : Bool) : ZProbe :=
  let s := ({ s with
    probing := false, calibrating := true, probeDetected := false, calibrateDetected := false
    debounce := 0, caliDebounce := 0 }).resetProbeTracking
  if cfg.requireProbeTriggerForCalibration && probeTool then { s with probing := true } else s

/-- `run_probe` once its move has ended. -/
def runProbeResult (s : ZProbe) (zStartPos : ℚ) : ZProbe × Bool :=
  if s.halted then (s, false)
  else
    let mm := zStartPos - s.position.z
    ({ s with lastProbe := some (⟨0, 0, mm⟩, s.probeDetected), probing := false }, s.probeDetected)

/-- `run_probe(mm, feedrate, max_dist, reverse)`, and what it returns. The robot's answer to the move is
not looked at. -/
def runProbe (s : ZProbe) (m : ProbeMove) : ZProbe × Bool :=
  let s := s.wait cfg m.before
  if m.triggered then (s, false)
  else
    let zStartPos := s.position.z
    let s := s.startProbing.setZprobing true
    let s :=
      if s.queued m then (s.setZprobing false).moveAndWait cfg m
      else (s.setZprobing false).wait cfg m.during
    s.runProbeResult zStartPos

/-- `probe_XYZ` once its move has ended. -/
def probeXYZResult (s : ZProbe) (subcode : Nat) : ZProbe × Bool :=
  let s := { s with probing := false }
  let s := { s with lastProbe := some (s.position, s.probeDetected) }
  if !s.probeDetected && (subcode == 2 || subcode == 4) then (s.onHalt, false)
  else (s, s.probeDetected)

/-- `probe_XYZ(gcode)`, and what it returns. -/
def probeXYZ (s : ZProbe) (nothingGiven : Bool) (subcode : Nat) (m : ProbeMove) : ZProbe × Bool :=
  if nothingGiven then (s, false)
  else
    let s := s.wait cfg m.before
    if m.triggered then (s.onHalt, false)
    else
      let s := s.startProbing.setZprobing true
      if !s.queued m then ({ s.onHalt with probing := false, zprobing := false }, false)
      else ((s.setZprobing false).moveAndWait cfg m).probeXYZResult subcode

/-- `calibrate_Z` once its move has ended. -/
def calibrateZResult (s : ZProbe) : ZProbe × Bool :=
  let s := { s with calibrating := false, probing := false }
  if s.safetyMarginExceeded then (({ s with safetyMarginExceeded := false }).onHalt, false)
  else
    let s := { s with lastProbe := some (s.position, s.calibrateDetected) }
    if !s.calibrateDetected then (s.onHalt, false) else (s, true)

/-- `calibrate_Z(gcode)`, and whether it reports a hit. -/
def calibrateZ (s : ZProbe) (noZ : Bool) (probeTool : Bool) (m : ProbeMove) : ZProbe × Bool :=
  if noZ then (s, false)
  else
    let s := s.wait cfg m.before
    if m.triggered then (s, false)
    else
      let s := (s.startCalibrating cfg probeTool).setZprobing true
      if !s.queued m then ({ s.onHalt with calibrating := false, zprobing := false }, false)
      else ((s.setZprobing false).moveAndWait cfg m).calibrateZResult

end ZProbe

/-- A probing command, with what it meets. -/
inductive ProbeCommand where
  /-- `G30`: what happens until its first check of the pin, and the way back that is taken unless `Z`
  is to be set. -/
  | g30 (before : List Interrupt) (triggered : Bool) (setZ : Bool) (m : ProbeMove) (back : List Interrupt)
  /-- `G38.2` to `G38.6`, and what other subcodes there are. -/
  | g38 (subcode : Nat) (nothingGiven : Bool) (probeTool : Bool) (m : ProbeMove)

/-- `on_gcode_received`, for the codes that probe. -/
def ZProbe.onGcodeReceived (cfg : ProbeConfig) (s : ZProbe) : ProbeCommand → ZProbe
  | .g30 before triggered setZ m back =>
    let s := s.setInvertProbe false
    if !cfg.pinConnected then s
    else
      let s := s.wait cfg before
      if triggered then s
      else
        let s := (s.runProbe cfg m).1
        if setZ then s else s.wait cfg back
  | .g38 subcode nothingGiven probeTool m =>
    if subcode < 2 || subcode > 6 then s
    else if !cfg.pinConnected then s
    else
      let s := s.setInvertProbe (subcode == 4 || subcode == 5)
      let s :=
        if subcode == 6 then (s.calibrateZ cfg nothingGiven probeTool m).1
        else (s.probeXYZ cfg nothingGiven subcode m).1
      s.setInvertProbe false

/-- `on_main_loop`: the halt a crash asked for, and the tool that `check_probe_tool` finds. -/
def ZProbe.onMainLoop (s : ZProbe) (threeAxisProbe : Bool) : ZProbe :=
  let s := if s.haltPending then ({ s with haltPending := false }).onHalt else s
  { s with is3dprobeActive := threeAxisProbe }

end CarveraFirmware.Probe
