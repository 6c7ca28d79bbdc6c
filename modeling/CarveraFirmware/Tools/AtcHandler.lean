import Mathlib
import CarveraFirmware.Library.Reached

/-!
# Tool changes

`ATCHandler`: the codes that begin an operation, the main loop that runs its script lines and ends
it, and aborts. `Modal` is what `Robot::push_state` saves. A script is as long as it is; what its
lines do to the modal state is not looked at, and what they do to the handler are codes and halts of
their own.
-/

namespace CarveraFirmware.Tools

inductive AtcStatus where
  | none | drop | pick | change | cali | automation
  deriving DecidableEq

/-- What a code reads of the rest of the machine. -/
structure AtcMachine where
  /-- `FuncSetting & (1<<2)`: a tool changer, not a manual change. -/
  atc : Bool := true
  carvera : Bool := true
  laserMode : Bool := false
  homedAllAxes : Bool := true
  /-- The spindle is still on after it was turned off. -/
  spindleRuns : Bool := false
  activeTool : Int := 1
  /-- `eeprom_data->TOOL`. -/
  eepromTool : Int := 1
  /-- The player plays a file, and takes the inner playing flag. -/
  playingJob : Bool := false
  customToolDefined : Int → Bool := fun _ => false
  lowestToolNumber : Int := 1
  toolNumber : Int := 6
  maxManualToolNumber : Int := 999999

/-- The tool is in the range of the changer, or one of its custom slots. -/
def AtcMachine.isAtcTool (machine : AtcMachine) (tool : Int) : Bool :=
  (machine.lowestToolNumber ≤ tool && tool ≤ machine.toolNumber) || machine.customToolDefined tool

/-- The tool is a 3-axis probe. -/
def AtcMachine.isProbe (machine : AtcMachine) : Bool :=
  machine.activeTool == 0 || machine.activeTool == 9999 || machine.activeTool ≥ 999990

inductive AtcCode where
  /-- `M6 T`, with whether it has an `H`, and what its `C` says. -/
  | m6 (newTool : Int) (hasH : Bool) (c : Option Bool)
  | m491
  /-- `M491.1`, and whether its tolerance is too small. -/
  | m491_1 (tooSmall : Bool)
  | m460 (subcode : Nat)
  | m469 (subcode : Nat)
  | m495 (subcode : Nat) (hasLetter : Char → Bool)

structure Atc (Modal : Type) where
  modal : Modal
  stateStack : List Modal
  atcStatus : AtcStatus := .none
  scriptQueue : Nat := 0
  playingFile : Bool := false
  toolNotCalibrated : Bool := false
  tloCalibrating : Bool := false
  halted : Bool := false
  /-- How many states the operation in progress has pushed; not the firmware's. -/
  pushed : Nat := 0

namespace Atc

variable {Modal : Type}

def pushState (s : Atc Modal) : Atc Modal :=
  { s with stateStack := s.modal :: s.stateStack, pushed := s.pushed + 1 }

def popState (s : Atc Modal) : Atc Modal :=
  match s.stateStack with
  | [] => s
  | m :: rest => { s with stateStack := rest, modal := m }

/-- `abort()`; a halt or an abort reaches the player first, which then plays no file any more. -/
def abort (s : Atc Modal) : Atc Modal :=
  { s with
    toolNotCalibrated := s.toolNotCalibrated || s.atcStatus == .cali
    atcStatus := .none, scriptQueue := 0, playingFile := false }

/-- `call_event(ON_HALT, nullptr)`. -/
def onHalt (s : Atc Modal) : Atc Modal := ({ s with halted := true }).abort

/-- `is_homed_all_axes()`, which halts a machine that is not homed. -/
def checkHomed (s : Atc Modal) (machine : AtcMachine) : Atc Modal :=
  if machine.homedAllAxes then s else s.onHalt

/-- `set_inner_playing(true)`, the status, and a fresh queue with the lines that are filled in. -/
def start (s : Atc Modal) (machine : AtcMachine) (status : AtcStatus) (lines : Nat) : Atc Modal :=
  { s with playingFile := machine.playingJob, atcStatus := status, scriptQueue := lines }

/-- The TLO calibration flag is set to switch off crash detection, and the script is filled in,
for which the machine is to be homed. -/
def calibrate (s : Atc Modal) (machine : AtcMachine) (lines : Nat) : Atc Modal :=
  ({ s.pushState.start machine .cali lines with tloCalibrating := true }).checkHomed machine

def setStatus (s : Atc Modal) (status : AtcStatus) : Atc Modal := { s with atcStatus := status }

/-- The tool in the spindle is put back, by the changer or by hand. -/
def dropTool (s : Atc Modal) (machine : AtcMachine) : Atc Modal :=
  if machine.isAtcTool machine.activeTool then (s.setStatus .drop).checkHomed machine
  else if machine.activeTool ≠ -1 then s.setStatus .change
  else s

/-- The new tool is picked up, by hand or by the changer, and measured. -/
def pickTool (s : Atc Modal) (machine : AtcMachine) (newTool : Int) (autoCalibrate : Bool) :
    Atc Modal :=
  if !machine.isAtcTool newTool && newTool ≠ -1 then
    if autoCalibrate then (s.setStatus .change).checkHomed machine else s.setStatus .change
  else if machine.isAtcTool newTool then (s.setStatus .pick).checkHomed machine
  else if newTool = -1 && machine.laserMode then (s.pushState.setStatus .cali).checkHomed machine
  else s

/-- The lines that are in the queue at the end. -/
def setQueue (s : Atc Modal) (lines : Nat) : Atc Modal := { s with scriptQueue := lines }

/-- `M6 T` on a machine with a tool changer, where the tool is another one. -/
def changeTool (s : Atc Modal) (machine : AtcMachine) (newTool : Int) (autoCalibrate : Bool)
    (lines : Nat) : Atc Modal :=
  (((s.pushState.start machine s.atcStatus 0).dropTool machine).pickTool machine newTool
    autoCalibrate).setQueue lines

/-- `M6 T` on a manual-change machine, where the tool is another one. -/
def changeByHand (s : Atc Modal) (machine : AtcMachine) (lines : Nat) : Atc Modal :=
  (s.pushState.start machine .change lines).checkHomed machine

/-- `M6 T`, once the machine stands and the spindle is off. -/
def selectTool (s : Atc Modal) (machine : AtcMachine) (newTool : Int) (autoCalibrate : Bool)
    (lines : Nat) : Atc Modal :=
  if machine.atc then
    if newTool > machine.maxManualToolNumber then s.onHalt
    else if newTool ≥ 0 && !machine.customToolDefined newTool && newTool ≤ machine.toolNumber &&
        machine.carvera then s.onHalt
    else if newTool ≠ machine.activeTool then
      if newTool > -1 && machine.laserMode && machine.carvera then s
      else s.changeTool machine newTool autoCalibrate lines
    else if s.toolNotCalibrated && (newTool != -1 || (machine.carvera && machine.laserMode)) then
      s.calibrate machine lines
    else s
  else if newTool ≠ machine.activeTool then s.changeByHand machine lines
  else if s.toolNotCalibrated && newTool != -1 then s.calibrate machine lines
  else s

/-- `M469`, with what each subcode asks for before it fills in its script. -/
def calibrateAnchors (s : Atc Modal) (machine : AtcMachine) (subcode lines : Nat) : Atc Modal :=
  match subcode with
  | 1 | 2 | 4 | 5 => (s.start machine .automation lines).checkHomed machine
  | 3 => s
  | 6 =>
    let s := s.start machine .automation lines
    if !machine.homedAllAxes then s.onHalt
    else if !(machine.isProbe || machine.eepromTool == 9999) then s.onHalt
    else if s.toolNotCalibrated then s.onHalt
    else s
  | _ => s.start machine .automation lines

/-- `M495`. -/
def automate (s : Atc Modal) (machine : AtcMachine) (subcode : Nat) (has : Char → Bool)
    (lines : Nat) : Atc Modal :=
  if !machine.homedAllAxes then { s.onHalt with atcStatus := .none, scriptQueue := 0 }
  else if subcode = 3 then s.pushState.start machine .automation lines
  else if has 'X' && has 'Y' then
    if machine.laserMode then s
    else if machine.isProbe && s.toolNotCalibrated then s.onHalt
    else
      let margin := has 'C' && has 'D'
      let zprobe := has 'O'
      let leveling := has 'A' && has 'B' && has 'I' && has 'J' && has 'H'
      if margin || zprobe || leveling then s.pushState.start machine .automation lines
      else if has 'P' then s.start machine .automation lines
      else s
  else s

/-- `on_gcode_received`, for the codes that begin an operation. -/
def onGcodeReceived (s : Atc Modal) (machine : AtcMachine) (code : AtcCode) (lines : Nat) :
    Atc Modal :=
  match code with
  | .m6 newTool hasH c =>
    if s.atcStatus ≠ .none then s
    else if machine.spindleRuns then s.onHalt
    else s.selectTool machine newTool (c.getD !hasH) lines
  | .m491 => s.calibrate machine lines
  | .m491_1 tooSmall => if tooSmall then s.onHalt else s.calibrate machine lines
  | .m460 subcode =>
    if subcode = 3 then (s.start machine .automation lines).checkHomed machine else s
  | .m469 subcode => s.calibrateAnchors machine subcode lines
  | .m495 subcode has => s.automate machine subcode has lines

/-- The end of an operation in the main loop. -/
def finish (s : Atc Modal) : Atc Modal :=
  ({ s with atcStatus := .none, tloCalibrating := false }).popState

/-- What one turn of the main loop finds. -/
structure Turn (Modal : Type) where
  /-- Suspending, waiting, or waiting for the tool. -/
  waits : Bool := false
  /-- The player's answer to whether it plays. -/
  playing : Bool := true
  /-- What the script line leaves of the modal state. -/
  modal : Modal
  /-- A halt comes while the machine moves back. -/
  haltsOnReturn : Bool := false

/-- `on_main_loop`, as far as operations go. -/
def onMainLoop (s : Atc Modal) (turn : Turn Modal) : Atc Modal :=
  if s.atcStatus = .none then s
  else if s.halted then s
  else if turn.waits then s
  else if s.playingFile && !turn.playing then ({ s with scriptQueue := 0 }).finish
  else if s.scriptQueue > 0 then { s with scriptQueue := s.scriptQueue - 1, modal := turn.modal }
  else
    -- a halt there aborts the operation, and its end goes on all the same
    let s := if s.atcStatus ≠ .automation && turn.haltsOnReturn then s.onHalt else s
    s.finish

end Atc

inductive AtcEvent (Modal : Type) where
  | code (machine : AtcMachine) (code : AtcCode) (lines : Nat)
  | mainLoop (turn : Atc.Turn Modal)
  | abort
  | halt
  | clearHalt

namespace Atc

variable {Modal : Type}

/-- What an event does. -/
def act (s : Atc Modal) : AtcEvent Modal → Atc Modal
  | .code machine code lines => s.onGcodeReceived machine code lines
  | .mainLoop turn => s.onMainLoop turn
  | .abort => s.abort
  | .halt => s.onHalt
  | .clearHalt => { s with halted := false }

/-- Nothing is in progress, so it has pushed nothing. -/
def settle (s : Atc Modal) : Atc Modal := if s.atcStatus = .none then { s with pushed := 0 } else s

def step (s : Atc Modal) (e : AtcEvent Modal) : Atc Modal := (s.act e).settle

/-- The main loop ends the operation: the job was stopped, or the script has run out. -/
def Completes (s : Atc Modal) : AtcEvent Modal → Prop
  | .mainLoop turn =>
    s.atcStatus ≠ .none ∧ s.halted = false ∧ turn.waits = false ∧
      ((s.playingFile = true ∧ turn.playing = false) ∨ s.scriptQueue = 0)
  | _ => False

/-- The stack holds what the operation in progress has pushed, over what others have. -/
def Stacked (base : List Modal) (s : Atc Modal) : Prop :=
  ∃ own, s.stateStack = own ++ base ∧ own.length = s.pushed

variable {base : List Modal} {s : Atc Modal}

theorem Stacked.pushState (h : s.Stacked base) : s.pushState.Stacked base := by
  obtain ⟨own, hstack, hlength⟩ := h
  refine ⟨s.modal :: own, ?_, ?_⟩
  · exact congrArg (s.modal :: ·) hstack
  · exact congrArg (· + 1) hlength

variable {machine : AtcMachine}

theorem Stacked.checkHomed (h : s.Stacked base) : (s.checkHomed machine).Stacked base := by
  rw [Atc.checkHomed]
  split <;> exact h

theorem Stacked.dropTool (h : s.Stacked base) : (s.dropTool machine).Stacked base := by
  rw [Atc.dropTool]
  split_ifs
  · exact Stacked.checkHomed (s := s.setStatus .drop) h
  · exact h
  · exact h

end Atc

open Atc

end CarveraFirmware.Tools
