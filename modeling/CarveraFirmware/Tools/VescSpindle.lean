import Mathlib
import CarveraFirmware.Library.Reached

/-!
# The VESC spindle

`VESCSpindleControl` over its USB link: the commands, the five states of a transfer, and the alarms
that stop the spindle. The last `SET_RPM` that was delivered is kept beside the code's own
variables. The speed a command asks for is computed in floating point and is a parameter; stall
detection and the faults the controller reports are halts from outside.
-/

namespace CarveraFirmware.Tools

inductive CommState where
  | idle | sendPending | sendWait | recvWait | process
  deriving DecidableEq

inductive VescCommand where
  | getValues | setRpm | alive
  deriving DecidableEq

/-- `usb.poll()`: a transfer goes on, or how it ended. -/
inductive CdcXfer where
  | busy | complete | error
  deriving DecidableEq

/-- What `append_rx_packet_bytes` finds. -/
inductive RxState where
  | incomplete | complete | invalid
  deriving DecidableEq

structure VescConfig (F : Type) where
  /-- `commanded_rpm() * pole_pairs` for a target and a factor. -/
  commandedErpm : Int → F → Int
  maxRpm : Int
  minRpm : Int
  ignoreOnHalt : Bool := false
  pollIntervalMs : UInt32 := 200

structure Vesc (F : Type) where
  factor : F
  targetRpm : Int
  spindleOn : Bool := false
  halted : Bool := false
  initPending : Bool := true
  failedInit : Bool := false
  protocolOk : Bool := false
  commErrorHalted : Bool := false
  speedUpdatePending : Bool := false
  commState : CommState := .idle
  pendingCmd : VescCommand := .getValues
  /-- The speed in the packet, where that is a `SET_RPM`. -/
  packetErpm : Int := 0
  lastAliveTime : UInt32 := 0
  lastPollTime : UInt32 := 0
  rxStartTime : UInt32 := 0
  /-- The speed of the last `SET_RPM` whose transfer completed. -/
  delivered : Int := 0

/-- What one call of `on_idle` meets on the USB side. -/
structure UsbPoll where
  now : UInt32
  connected : Bool := true
  initOk : Bool := true
  verifyOk : Bool := true
  xfer : CdcXfer := .busy
  sendStarts : Bool := true
  recvStarts : Bool := true
  rx : RxState := .complete
  parses : Bool := true

namespace Vesc

variable {F : Type} (cfg : VescConfig F)

def turnOff (s : Vesc F) : Vesc F := { s with spindleOn := false, speedUpdatePending := true }

/-- `call_event(ON_HALT, nullptr)`, as far as the spindle goes. -/
def onHalt (s : Vesc F) : Vesc F :=
  let s := { s with halted := true }
  if !cfg.ignoreOnHalt && s.spindleOn then s.turnOff else s

def turnOn (s : Vesc F) : Vesc F :=
  if !s.protocolOk then s.onHalt cfg else { s with spindleOn := true, speedUpdatePending := true }

def setSpeed (s : Vesc F) (rpm : Int) : Vesc F :=
  let rpm := if rpm > cfg.maxRpm then cfg.maxRpm else rpm
  let rpm := if rpm > 0 ∧ rpm < cfg.minRpm then cfg.minRpm else rpm
  { s with targetRpm := rpm, speedUpdatePending := true }

def setFactor (s : Vesc F) (f : F) : Vesc F := { s with factor := f, speedUpdatePending := true }

def handleCommError (s : Vesc F) : Vesc F :=
  if !s.commErrorHalted || !s.halted then ({ s with commErrorHalted := true }).onHalt cfg else s

def queueSetRpm (s : Vesc F) (erpm : Int) (now : UInt32) : Vesc F :=
  { s with
    packetErpm := erpm
    pendingCmd := .setRpm
    lastAliveTime := now
    commState := .sendPending }

def queueGetValues (s : Vesc F) : Vesc F :=
  { s with pendingCmd := .getValues, commState := .sendPending }

def queueAlive (s : Vesc F) (now : UInt32) : Vesc F :=
  { s with pendingCmd := .alive, lastAliveTime := now, commState := .sendPending }

def handleUsbDisconnected (s : Vesc F) : Vesc F :=
  let s := { s with commState := .idle }
  if s.spindleOn && (!s.commErrorHalted || !s.halted) then
    ({ s with commErrorHalted := true }).onHalt cfg
  else s

def scheduleNextVescCommand (s : Vesc F) (now : UInt32) : Vesc F :=
  let backgroundAllowed := !s.halted || (s.spindleOn && cfg.ignoreOnHalt)
  let telemetryIntervalMs := if s.spindleOn then cfg.pollIntervalMs else 1000
  if s.speedUpdatePending then
    ({ s with speedUpdatePending := false }).queueSetRpm
      (if s.spindleOn then cfg.commandedErpm s.targetRpm s.factor else 0) now
  else if backgroundAllowed then
    if s.spindleOn && (now - s.lastAliveTime) / 1000 ≥ 200 then s.queueAlive now
    else if (now - s.lastPollTime) / 1000 ≥ telemetryIntervalMs then
      ({ s with lastPollTime := now }).queueGetValues
    else s
  else s

def startPendingSend (s : Vesc F) (p : UsbPoll) : Vesc F :=
  if p.sendStarts then { s with commState := .sendWait } else s

def handleSendWait (s : Vesc F) (p : UsbPoll) : Vesc F :=
  match p.xfer with
  | .error => ({ s with commState := .idle }).handleCommError cfg
  | .busy => s
  | .complete =>
    let s := if s.pendingCmd = .setRpm then { s with delivered := s.packetErpm } else s
    if s.pendingCmd ≠ .getValues then { s with commState := .idle }
    else if p.recvStarts then { s with rxStartTime := p.now, commState := .recvWait }
    else ({ s with rxStartTime := p.now, commState := .idle }).handleCommError cfg

def handleRecvWait (s : Vesc F) (p : UsbPoll) : Vesc F :=
  match p.xfer with
  | .complete =>
    match p.rx with
    | .complete => { s with commState := .process }
    | .invalid => ({ s with commState := .idle }).handleCommError cfg
    | .incomplete =>
      if p.recvStarts then s else ({ s with commState := .idle }).handleCommError cfg
  | .error => ({ s with commState := .idle }).handleCommError cfg
  | .busy =>
    -- no answer within `VESC_RESPONSE_TIMEOUT_US`
    if p.now - s.rxStartTime ≥ 400000 then ({ s with commState := .idle }).handleCommError cfg else s

def processPendingResponse (s : Vesc F) (p : UsbPoll) : Vesc F :=
  if s.pendingCmd = .getValues ∧ p.parses = false then
    ({ s with commState := .idle }).handleCommError cfg
  else { s with commState := .idle }

def commPoll (s : Vesc F) (p : UsbPoll) : Vesc F :=
  if !p.connected then s.handleUsbDisconnected cfg
  else
    match s.commState with
    | .idle => s.scheduleNextVescCommand cfg p.now
    | .sendPending => s.startPendingSend p
    | .sendWait => s.handleSendWait cfg p
    | .recvWait => s.handleRecvWait cfg p
    | .process => s.processPendingResponse cfg p

def onIdle (s : Vesc F) (p : UsbPoll) : Vesc F :=
  if s.failedInit then ({ s with failedInit := false }).onHalt cfg
  else if s.initPending then
    let s := { s with initPending := false }
    if !p.initOk || !p.verifyOk then s.onHalt cfg
    else ({ s with protocolOk := true }).commPoll cfg p
  else s.commPoll cfg p

end Vesc

inductive VescEvent (F : Type) where
  | turnOn
  | turnOff
  | setSpeed (rpm : Int)
  | setFactor (f : F)
  | halt
  /-- `set_halted(true)` without the event, as the crash detection of the probe does. -/
  | setHalted
  | clearHalt
  | idle (p : UsbPoll)

namespace Vesc

variable {F : Type} (cfg : VescConfig F)

def step (s : Vesc F) : VescEvent F → Vesc F
  | .turnOn => s.turnOn cfg
  | .turnOff => s.turnOff
  | .setSpeed rpm => s.setSpeed cfg rpm
  | .setFactor f => s.setFactor f
  | .halt => s.onHalt cfg
  | .setHalted => { s with halted := true }
  | .clearHalt => { s with halted := false }
  | .idle p => s.onIdle cfg p

/-- A `SET_RPM` is waiting to be sent or being sent. -/
def Sending (s : Vesc F) : Prop :=
  (s.commState = .sendPending ∨ s.commState = .sendWait) ∧ s.pendingCmd = .setRpm

/-- A stop is still to be delivered. -/
def StopOutstanding (s : Vesc F) : Prop :=
  s.speedUpdatePending = true ∨ (s.Sending ∧ s.packetErpm = 0)

/-- The poll drops the packet that waits or is being sent. -/
def Drops (s : Vesc F) (p : UsbPoll) : Prop :=
  (p.connected = false ∧ (s.commState = .sendPending ∨ s.commState = .sendWait)) ∨
  (p.connected = true ∧ s.commState = .sendWait ∧ p.xfer = .error)

/-- The event drops the stop of a spindle that is off but was last told to turn. -/
def LosesStop (s : Vesc F) : VescEvent F → Prop
  | .idle p =>
    s.failedInit = false ∧ (s.initPending = true → p.initOk = true ∧ p.verifyOk = true) ∧
    s.spindleOn = false ∧ s.delivered ≠ 0 ∧ s.speedUpdatePending = false ∧
    s.pendingCmd = .setRpm ∧ s.Drops p
  | _ => False

/-- While the spindle is off, a stop is on its way unless the last speed delivered was zero and no
other is being sent. -/
def Stops (s : Vesc F) : Prop :=
  s.spindleOn = false → s.StopOutstanding ∨ (s.delivered = 0 ∧ ¬ s.Sending)

variable {cfg} {s : Vesc F}

/-! ## Each operation keeps the stop -/

theorem stops_of_pending (h : s.speedUpdatePending = true) : s.Stops := fun _ => .inl (.inl h)

theorem Stops.onHalt (h : s.Stops) : (s.onHalt cfg).Stops := by
  simp only [Vesc.onHalt]
  split
  · exact stops_of_pending rfl
  · exact h

theorem Stops.handleCommError (h : s.Stops) : (s.handleCommError cfg).Stops := by
  rw [Vesc.handleCommError]
  split
  · exact Stops.onHalt h
  · exact h

theorem not_sending (hpending : s.commState ≠ .sendPending) (hwait : s.commState ≠ .sendWait) :
    ¬ s.Sending := by
  rintro ⟨h | h, -⟩
  · exact hpending h
  · exact hwait h

/-- Going back to idle drops a packet that was being sent. -/
theorem Stops.toIdle (h : s.Stops)
    (hkept : s.spindleOn = false → s.delivered ≠ 0 → s.speedUpdatePending = false → ¬ s.Sending) :
    ({ s with commState := .idle } : Vesc F).Stops := by
  intro hoff
  have hidle : ¬ ({ s with commState := .idle } : Vesc F).Sending := not_sending nofun nofun
  obtain (hpending | ⟨hsending, -⟩) | ⟨hzero, -⟩ := h hoff
  · exact .inl (.inl hpending)
  · by_cases hzero : s.delivered = 0
    · exact .inr ⟨hzero, hidle⟩
    · left
      left
      by_contra hpending
      exact hkept hoff hzero (by simpa using hpending) hsending
  · exact .inr ⟨hzero, hidle⟩

theorem Stops.scheduleNextVescCommand (h : s.Stops) (hidle : s.commState = .idle) (now : UInt32) :
    (s.scheduleNextVescCommand cfg now).Stops := by
  have hfree : ¬ s.Sending := not_sending (by simp [hidle]) (by simp [hidle])
  have hquiet : s.speedUpdatePending = false → s.spindleOn = false → s.delivered = 0 := by
    intro hpending hoff
    obtain (hset | ⟨hsending, -⟩) | ⟨hzero, -⟩ := h hoff
    · simp [hpending] at hset
    · exact absurd hsending hfree
    · exact hzero
  simp only [Vesc.scheduleNextVescCommand]
  generalize (if s.spindleOn then cfg.pollIntervalMs else 1000) = interval
  split
  · intro hoff
    have hoff : s.spindleOn = false := hoff
    exact .inl (.inr ⟨⟨.inl rfl, rfl⟩, by simp [queueSetRpm, hoff]⟩)
  · rename_i hpending
    have hzero := hquiet (by simpa using hpending)
    have hother {s' : Vesc F} (hon : s'.spindleOn = s.spindleOn) (hdelivered : s'.delivered = s.delivered)
        (hcmd : s'.pendingCmd ≠ .setRpm) : s'.Stops := by
      intro hoff
      exact .inr ⟨hdelivered.trans (hzero (hon.symm.trans hoff)), fun hsending => hcmd hsending.2⟩
    split
    · split
      · exact hother rfl rfl (by simp [queueAlive])
      · split
        · exact hother rfl rfl (by simp [queueGetValues])
        · exact h
    · exact h

theorem Stops.startPendingSend (h : s.Stops) (hstate : s.commState = .sendPending) (p : UsbPoll) :
    (s.startPendingSend p).Stops := by
  rw [Vesc.startPendingSend]
  split
  · intro hoff
    obtain (hpending | ⟨hsending, hzero⟩) | ⟨hzero, hfree⟩ := h hoff
    · exact .inl (.inl hpending)
    · exact .inl (.inr ⟨⟨.inr rfl, hsending.2⟩, hzero⟩)
    · exact .inr ⟨hzero, fun hsending => hfree ⟨.inl hstate, hsending.2⟩⟩
  · exact h

theorem Stops.handleSendWait (h : s.Stops) (hstate : s.commState = .sendWait) {p : UsbPoll}
    (hkept : p.xfer = .error → s.spindleOn = false → s.delivered ≠ 0 →
      s.speedUpdatePending = false → s.pendingCmd ≠ .setRpm) :
    (s.handleSendWait cfg p).Stops := by
  rw [Vesc.handleSendWait]
  cases hxfer : p.xfer with
  | busy => exact h
  | error =>
    exact (h.toIdle fun hoff hzero hpending hsending =>
      hkept hxfer hoff hzero hpending hsending.2).handleCommError
  | complete =>
    simp only
    by_cases hcmd : s.pendingCmd = .setRpm
    · -- the packet has been delivered
      rw [if_pos hcmd]
      simp only [hcmd, ne_eq, reduceCtorEq, not_false_eq_true, if_true]
      intro hoff
      obtain (hpending | ⟨-, hzero⟩) | ⟨-, hsending⟩ := h hoff
      · exact .inl (.inl hpending)
      · exact .inr ⟨hzero, not_sending nofun nofun⟩
      · exact absurd ⟨.inr hstate, hcmd⟩ hsending
    · rw [if_neg hcmd]
      have hidle : ({ s with rxStartTime := p.now, commState := .idle } : Vesc F).Stops :=
        h.toIdle fun _ _ _ hsending => hcmd hsending.2
      split
      · exact hidle
      · split
        · intro hoff
          obtain (hpending | ⟨hsending, -⟩) | ⟨hzero, -⟩ := hidle hoff
          · exact .inl (.inl hpending)
          · exact absurd hsending (not_sending nofun nofun)
          · exact .inr ⟨hzero, not_sending nofun nofun⟩
        · exact Stops.handleCommError hidle

/-- A transfer that is not of a speed drops none. -/
theorem Stops.leave (h : s.Stops) (hfree : ¬ s.Sending) :
    ({ s with commState := .idle } : Vesc F).Stops := h.toIdle fun _ _ _ => hfree

theorem Stops.handleRecvWait (h : s.Stops) (hstate : s.commState = .recvWait) (p : UsbPoll) :
    (s.handleRecvWait cfg p).Stops := by
  have hfree : ¬ s.Sending := not_sending (by simp [hstate]) (by simp [hstate])
  have hidle := @Stops.handleCommError F cfg _ (h.leave hfree)
  rw [Vesc.handleRecvWait]
  split
  · split
    · intro hoff
      obtain (hpending | ⟨hsending, -⟩) | ⟨hzero, -⟩ := h hoff
      · exact .inl (.inl hpending)
      · exact absurd hsending hfree
      · exact .inr ⟨hzero, not_sending nofun nofun⟩
    · exact hidle
    · split
      · exact h
      · exact hidle
  · exact hidle
  · split
    · exact hidle
    · exact h

theorem Stops.processPendingResponse (h : s.Stops) (hstate : s.commState = .process) (p : UsbPoll) :
    (s.processPendingResponse cfg p).Stops := by
  have hfree : ¬ s.Sending := not_sending (by simp [hstate]) (by simp [hstate])
  rw [Vesc.processPendingResponse]
  split
  · exact Stops.handleCommError (h.leave hfree)
  · exact h.leave hfree

theorem Stops.handleUsbDisconnected (h : s.Stops)
    (hkept : s.spindleOn = false → s.delivered ≠ 0 → s.speedUpdatePending = false → ¬ s.Sending) :
    (s.handleUsbDisconnected cfg).Stops := by
  have hidle := h.toIdle hkept
  simp only [Vesc.handleUsbDisconnected]
  split
  · exact Stops.onHalt hidle
  · exact hidle

/-- A poll that does not drop the stop keeps it. -/
theorem Stops.commPoll (h : s.Stops) {p : UsbPoll}
    (hkept : s.spindleOn = false → s.delivered ≠ 0 → s.speedUpdatePending = false →
      s.pendingCmd = .setRpm → ¬ s.Drops p) : (s.commPoll cfg p).Stops := by
  rw [Vesc.commPoll]
  cases hconnected : p.connected with
  | false =>
    exact Stops.handleUsbDisconnected h fun hoff hzero hpending hsending =>
      hkept hoff hzero hpending hsending.2 (.inl ⟨hconnected, hsending.1⟩)
  | true =>
    cases hstate : s.commState with
    | idle => exact Stops.scheduleNextVescCommand h hstate p.now
    | sendPending => exact Stops.startPendingSend h hstate p
    | sendWait =>
      exact Stops.handleSendWait h hstate fun herror hoff hzero hpending hcmd =>
        hkept hoff hzero hpending hcmd (.inr ⟨hconnected, hstate, herror⟩)
    | recvWait => exact Stops.handleRecvWait h hstate p
    | process => exact Stops.processPendingResponse h hstate p

theorem Stops.step (h : s.Stops) {e : VescEvent F} (hok : ¬ s.LosesStop e) : (s.step cfg e).Stops := by
  -- Every command leaves a speed pending; only a poll can lose it.
  cases e with
  | turnOn =>
    rw [Vesc.step, Vesc.turnOn]
    split
    · exact Stops.onHalt h
    · exact stops_of_pending rfl
  | turnOff => exact stops_of_pending rfl
  | setSpeed rpm => exact stops_of_pending rfl
  | setFactor f => exact stops_of_pending rfl
  | halt => exact Stops.onHalt h
  | setHalted => exact h
  | clearHalt => exact h
  | idle p =>
    simp only [Vesc.step, Vesc.onIdle]
    by_cases hfailed : s.failedInit = true
    · rw [if_pos hfailed]
      exact Stops.onHalt (s := { s with failedInit := false }) h
    rw [if_neg hfailed]
    have hfailed : s.failedInit = false := by simpa using hfailed
    by_cases hinit : s.initPending = true
    · rw [if_pos hinit]
      split
      · exact Stops.onHalt (s := { s with initPending := false }) h
      · rename_i hready
        have hready : p.initOk = true ∧ p.verifyOk = true := by simpa using hready
        exact Stops.commPoll (s := { s with initPending := false, protocolOk := true }) h
          fun hoff hzero hpending hcmd hdrops =>
            hok ⟨hfailed, fun _ => hready, hoff, hzero, hpending, hcmd, hdrops⟩
    · rw [if_neg hinit]
      exact Stops.commPoll h fun hoff hzero hpending hcmd hdrops =>
        hok ⟨hfailed, fun hset => absurd hset hinit, hoff, hzero, hpending, hcmd, hdrops⟩

/-- A poll that drops the stop leaves nothing to deliver it. -/
theorem lost_of_losesStop {e : VescEvent F} (h : s.LosesStop e) :
    (s.step cfg e).spindleOn = false ∧ (s.step cfg e).delivered ≠ 0 ∧ ¬ (s.step cfg e).StopOutstanding := by
  have hquiet {s : Vesc F} (hoff : s.spindleOn = false) (hdelivered : s.delivered ≠ 0)
      (hpending : s.speedUpdatePending = false) (hidle : s.commState = .idle) :
      s.spindleOn = false ∧ s.delivered ≠ 0 ∧ ¬ s.StopOutstanding := by
    refine ⟨hoff, hdelivered, ?_⟩
    rintro (hset | ⟨hsending, -⟩)
    · simp [hpending] at hset
    · exact not_sending (by simp [hidle]) (by simp [hidle]) hsending
  have hpoll {s : Vesc F} {p : UsbPoll} (hoff : s.spindleOn = false) (hdelivered : s.delivered ≠ 0)
      (hpending : s.speedUpdatePending = false) (hdrops : s.Drops p) :
      (s.commPoll cfg p).spindleOn = false ∧ (s.commPoll cfg p).delivered ≠ 0 ∧
        ¬ (s.commPoll cfg p).StopOutstanding := by
    obtain ⟨hconnected, -⟩ | ⟨hconnected, hstate, herror⟩ := hdrops
    · have heq : s.commPoll cfg p = { s with commState := .idle } := by
        simp [commPoll, hconnected, handleUsbDisconnected, hoff]
      rw [heq]
      refine hquiet ?_ ?_ ?_ ?_
      exacts [hoff, hdelivered, hpending, rfl]
    · have heq : s.commPoll cfg p
          = ({ s with commState := .idle } : Vesc F).handleCommError cfg := by
        simp [commPoll, hconnected, hstate, handleSendWait, herror]
      rw [heq, handleCommError]
      -- the alarm finds the spindle off, and does not ask for a stop
      split
      · rw [onHalt, if_neg (by simp [hoff])]
        refine hquiet ?_ ?_ ?_ ?_
        exacts [hoff, hdelivered, hpending, rfl]
      · refine hquiet ?_ ?_ ?_ ?_
        exacts [hoff, hdelivered, hpending, rfl]
  cases e with
  | idle p =>
    obtain ⟨hfailed, hinit, hoff, hdelivered, hpending, -, hdrops⟩ := h
    simp only [step, onIdle]
    rw [if_neg (by simp [hfailed])]
    split
    · rename_i hset
      have hready := hinit hset
      simp only [hready.1, hready.2, Bool.not_true, Bool.or_self, Bool.false_eq_true, if_false]
      exact hpoll (s := { s with initPending := false, protocolOk := true }) hoff hdelivered hpending hdrops
    · exact hpoll hoff hdelivered hpending hdrops
  | _ => exact h.elim

end Vesc

open Vesc

/-- While the spindle is off and the VESC was last told to turn, a stop is outstanding, in every run
in which no poll drops a stop that nothing else asks for. -/
theorem stop_outstanding {F : Type} (cfg : VescConfig F) (factor : F) (targetRpm : Int)
    (failedInit : Bool) {s : Vesc F}
    (h : Reached (Vesc.step cfg) (fun s e => ¬ s.LosesStop e)
      { factor := factor, targetRpm := targetRpm, failedInit := failedInit } s)
    (hoff : s.spindleOn = false) (hdelivered : s.delivered ≠ 0) : s.StopOutstanding := by
  have hstops : s.Stops := h.invariant (fun _ => .inr ⟨rfl, not_sending nofun nofun⟩)
    fun _ _ hstops hok => Stops.step hstops hok
  obtain hout | ⟨hzero, -⟩ := hstops hoff
  · exact hout
  · exact absurd hzero hdelivered

/-! ## A stop that is lost -/

def twoPolePairs : VescConfig Unit where
  commandedErpm := fun rpm _ => rpm * 2
  maxRpm := 15000
  minRpm := 3000

def startedVesc : Vesc Unit := { factor := (), targetRpm := 10000 }

/-- The spindle is told to turn, and then turned off. -/
def onAndOff : List (VescEvent Unit) :=
  [.idle { now := 0 }, .turnOn, .idle { now := 0 }, .idle { now := 0 },
    .idle { now := 0, xfer := .complete }, .turnOff]

theorem stop_outstanding_turned_off :
    (onAndOff.foldl (Vesc.step twoPolePairs) startedVesc).StopOutstanding := by
  have hok : AllOk (Vesc.step twoPolePairs) (fun s e => ¬ s.LosesStop e) startedVesc onAndOff := by
    refine ⟨fun h => h.2.2.2.1 rfl, id, fun h => h.2.2.2.1 rfl, fun h => h.2.2.2.1 rfl,
      fun h => h.2.2.2.1 rfl, id, trivial⟩
  exact stop_outstanding twoPolePairs () 10000 false (Reached.start.run hok) rfl (by decide)

def failedTransfer : List (VescEvent Unit) :=
  [.idle { now := 0 }, .idle { now := 0 }, .idle { now := 0, xfer := .error }]

/-- The transfer of the stop fails after the spindle has been turned off. -/
theorem stop_lost :
    ((onAndOff ++ failedTransfer).foldl (Vesc.step twoPolePairs) startedVesc).spindleOn = false ∧
    ((onAndOff ++ failedTransfer).foldl (Vesc.step twoPolePairs) startedVesc).delivered ≠ 0 ∧
    ¬ ((onAndOff ++ failedTransfer).foldl (Vesc.step twoPolePairs) startedVesc).StopOutstanding := by
  refine ⟨rfl, by decide, ?_⟩
  rintro (hpending | ⟨⟨hstate | hstate, -⟩, -⟩)
  · exact absurd hpending (by decide)
  · exact absurd hstate (by decide)
  · exact absurd hstate (by decide)

end CarveraFirmware.Tools
