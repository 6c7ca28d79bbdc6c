import Mathlib
import CarveraFirmware.Clients.Check
import CarveraFirmware.Clients.Classify

/-!
# The two links

`WifiProvider` and `SerialConsole` around the shared client table, identity check and control
token: what each does with a frame, from its idle loop, and when the main loop dispatches the
command it has waiting. Publishing to the other clients is left out; the answers to hellos,
the questions asked and the commands dispatched are kept in `sent`.

Two fields are not the firmware's. `session` numbers the connections at each seat: it goes up
when a seat's entry is created, removed or cleared. `seizures` lists the commands by which
control was taken.
-/

namespace CarveraFirmware.Clients

open WrapClock

/-- The `result` byte of a hello ack. -/
inductive HelloResult where
  | accepted | capReached | oldControllerPresent | identityConnected | busy
  deriving DecidableEq, Repr

/-- A command a link has waiting, with the session it was sent in and whether its sender was
identified when it arrived. -/
structure Waiting where
  command : Command
  session : Nat
  identified : Bool
  deriving DecidableEq

/-- A command that took control: sent in session `sentIn` of `seat`, let through the gate in
session `passedIn`, where its sender was `sender`. -/
structure Seizure where
  seat : Seat
  sentIn : Nat
  passedIn : Nat
  sender : Identity
  deriving DecidableEq

inductive Sent where
  | helloAck (seat : Seat) (result : HelloResult)
  | presenceCheck (seat : Seat) (question : List UInt8)
  | refused (seat : Seat) (reason : RefusalReason)
  | dispatched (seat : Seat) (waiting : Waiting)
  deriving DecidableEq

/-- The part of the configuration both links read. -/
structure Config where
  mode : Mode := .singleUser
  rights : PassiveRights := .watchStopUpload

/-- `usb_activity`. -/
structure UsbActivity where
  lastActivityUs : UInt32 := 0
  rxDetached : Bool := false

def UsbActivity.sessionExpired (a : UsbActivity) (helloWindowStarted : Bool) (now : UInt32) :
    Bool :=
  !a.rxDetached && usbSessionExpired helloWindowStarted now a.lastActivityUs

structure Links where
  table : ClientTable
  check : IdentityCheck := {}
  control : ControlToken := {}
  wifiWaiting : Option (Fin maxWifiClients × Waiting) := none
  usbWaiting : Option Waiting := none
  usbActivity : UsbActivity := {}
  sent : List Sent := []
  session : Seat → Nat := fun _ => 0
  seizures : List Seizure := []

/-- After start-up: nobody on WiFi, and the USB entry always there. -/
def Links.init (now : UInt32) : Links := { table := ({} : ClientTable).setUsbPresent true now }

/-- Frames as the receive loops tell them apart. `other` are those that change nothing here. -/
inductive WireFrame where
  | hello (hello : Hello)
  | heartbeat
  | presenceReply (data : List UInt8)
  | controlRelease
  | command (c : Command)
  | other
  deriving DecidableEq

namespace Links

variable (cfg : Config)

def emit (s : Links) (x : Sent) : Links := { s with sent := s.sent ++ [x] }

def newSession (s : Links) (seat : Seat) : Links :=
  { s with session := Function.update s.session seat (s.session seat + 1) }

/-- `must_identify_first(table, client)`. -/
def mustIdentifyFirst (table : ClientTable) (client : Option Client) : Bool :=
  client.any (!·.identified) && table.anyIdentifiedPresent

/-! ## Entries coming and going -/

/-- `forget_wifi_client(index)`, as far as the waiting command goes. -/
def forgetWifiClient (s : Links) (i : Fin maxWifiClients) : Links :=
  { s with wifiWaiting := if s.wifiWaiting.any (·.1 == i) then none else s.wifiWaiting }

/-- `retire_wifi_client`, and the removals of `reconcile_wifi_clients`. -/
def retireWifiClient (s : Links) (i : Fin maxWifiClients) : Links :=
  if (s.table.wifi i).isNone then s
  else
    { s.forgetWifiClient i with table := s.table.removeWifi i }.newSession (.wifi i)

def clearUsbIdentity (s : Links) : Links :=
  { s with table := s.table.clearUsbIdentity }.newSession .usb

/-- `route_makera_client`: the slot for an address, admitting it if it is new. -/
def routeMakeraClient (s : Links) (address : Address) (now : UInt32) :
    Option (Fin maxWifiClients) × Links :=
  match s.table.findWifi address with
  | some i => (some i, s)
  | none =>
    match s.table.addWifi address now with
    | (some i, table) => (some i, { s with table := table }.newSession (.wifi i))
    | (none, table) => (none, { s with table := table })

/-! ## Hellos -/

/-- `admit_wifi_hello` and `admit_usb_hello`. -/
def admitAt (s : Links) (seat : Seat) (hello : Hello) : Links :=
  match s.table.clientAt seat with
  | none => s
  | some self =>
    let r := admitHello self hello s.control
    { s with table := s.table.setAt seat (some r.1), control := r.2.2 }.emit
      (.helloAck seat .accepted)

/-- What the links do for `CheckStep::retire`. -/
def retireOld (s : Links) : Links :=
  match s.check.old with
  | .wifi i => s.retireWifiClient i
  | .usb => s.clearUsbIdentity

/-- One round of a link's `drive_identity_check` loop: the state, and whether it goes round again. -/
def driveRound (s : Links) (link : Link) (now : UInt32) (canRead : Bool) : Bool × Links :=
  let r := s.check.nextStep s.table link now canRead
  let s := { s with check := r.2 }
  match r.1 with
  | .ask =>
    (true, { s.emit (.presenceCheck s.check.old s.check.buildQuestion) with
      check := s.check.asked now })
  | .retire => let s := s.retireOld; (true, { s with check := s.check.retired })
  | .refuse =>
    let s := s.emit (.helloAck s.check.newcomer .identityConnected)
    let e := s.check.endCheck s.table
    (false, { s with check := e.1, table := e.2 })
  | .admits =>
    let hello := s.check.hello
    let seat := s.check.newcomer
    let e := s.check.endCheck s.table
    (false, { s with check := e.1, table := e.2 }.admitAt seat hello)
  | .drop => let e := s.check.endCheck s.table; (false, { s with check := e.1, table := e.2 })
  | .wait => (false, s)

/-- The loop of `drive_identity_check`, cut off after `fuel` rounds. -/
def driveLoop (link : Link) (now : UInt32) (canRead : Bool) : Nat → Links → Links
  | 0, s => s
  | fuel + 1, s =>
    let r := s.driveRound link now canRead
    if r.1 then driveLoop link now canRead fuel r.2 else r.2

/-- `drive_identity_check(now)` of a link. Three rounds are enough (`driveLoop_settled`). -/
def driveIdentityCheck (s : Links) (link : Link) (now : UInt32) (canRead : Bool) : Links :=
  driveLoop link now canRead 3 s

theorem check_retireWifiClient (s : Links) (i : Fin maxWifiClients) :
    (s.retireWifiClient i).check = s.check := by
  unfold retireWifiClient
  split <;> rfl

theorem check_retireOld (s : Links) : s.retireOld.check = s.check := by
  unfold retireOld
  split
  · exact check_retireWifiClient s _
  · rfl

/-- The loop goes round again after asking and after retiring. -/
theorem driveRound_again (s : Links) (link : Link) (now : UInt32) (canRead : Bool) :
    (s.driveRound link now canRead).1 = true ↔
      (s.check.nextStep s.table link now canRead).1 = .ask ∨
        (s.check.nextStep s.table link now canRead).1 = .retire := by
  unfold driveRound
  rcases s.check.nextStep s.table link now canRead with ⟨step, check⟩
  cases step <;> simp

theorem nextStep_of_phase {check : IdentityCheck} {table : ClientTable} {link : Link}
    {now : UInt32} {canRead : Bool}
    (h : check.settlePhase table link now canRead = .waiting ∨
      check.settlePhase table link now canRead = .admits) :
    (check.nextStep table link now canRead).1 ≠ .ask ∧
      (check.nextStep table link now canRead).1 ≠ .retire := by
  unfold IdentityCheck.nextStep
  split
  · simp
  split
  · simp
  · rcases h with h | h
    · simp [h, IdentityCheck.stepFor]
    · simp only [h, IdentityCheck.stepFor]
      split <;> simp

/-- A round that goes round again has asked, and then waits, or retired the old entry, and then
admits the newcomer. -/
theorem driveRound_phase (s : Links) (link : Link) (now : UInt32) (canRead : Bool)
    (h : (s.driveRound link now canRead).1 = true) {t : Links}
    (ht : t = (s.driveRound link now canRead).2) :
    (s.check.nextStep s.table link now canRead).1 = .ask ∧
        t.check.settlePhase t.table link now canRead = .waiting ∨
      (s.check.nextStep s.table link now canRead).1 = .retire ∧
        t.check.settlePhase t.table link now canRead = .admits := by
  rw [driveRound_again] at h
  subst ht
  unfold driveRound
  rcases hr : s.check.nextStep s.table link now canRead with ⟨step, check⟩
  rw [hr] at h
  simp only at h ⊢
  rcases h with rfl | rfl
  · obtain ⟨-, -, hcheck, hstep⟩ := IdentityCheck.nextStep_spec hr (by simp) (by simp)
    simp only at hcheck hstep
    obtain ⟨hph, rfl⟩ := (IdentityCheck.stepFor_eq hstep.symm).1 rfl
    have hold := IdentityCheck.settlePhase_ask hph
    have hasked : check.asked now = { check with askedUs := now, phase := .waiting } := by
      rw [IdentityCheck.asked, if_neg (by simp [hcheck, hph])]
    refine .inl ⟨rfl, IdentityCheck.settlePhase_of_waiting _ ?_ ?_ ?_ ?_⟩
    · rw [hasked]
    · rw [hasked, hcheck]
      exact hold
    · rw [hasked, hcheck]
    · rw [hasked]
  · obtain ⟨-, -, hcheck, hstep⟩ := IdentityCheck.nextStep_spec hr (by simp) (by simp)
    simp only at hcheck hstep
    have hph := ((IdentityCheck.stepFor_eq hstep.symm).2.1 rfl).1
    refine .inr ⟨rfl, IdentityCheck.settlePhase_of_admits _ _ _ _ ?_⟩
    rw [check_retireOld]
    simp [IdentityCheck.retired, hcheck, hph]

/-- The round behind it ends. -/
theorem driveRound_driveRound (s : Links) (link : Link) (now : UInt32) (canRead : Bool)
    (h : (s.driveRound link now canRead).1 = true) :
    ((s.driveRound link now canRead).2.driveRound link now canRead).1 = false := by
  have hphase := driveRound_phase s link now canRead h rfl
  rw [Bool.eq_false_iff, ne_eq, driveRound_again, not_or]
  exact nextStep_of_phase (hphase.imp And.right And.right)

def answerBusy (s : Links) (seat : Seat) (now : UInt32) : Links :=
  { s with table := s.table.modifyAt seat (·.restartHelloWindow now) }.emit (.helloAck seat .busy)

/-- A hello repeated by a client that has identified. -/
def repeatHello (s : Links) (seat : Seat) (hello : Hello) : Links :=
  { s with table := s.table.modifyAt seat fun c =>
      { c with features := hello.features, hasLaunch := hello.hasLaunch, launch := hello.launch }
    }.emit (.helloAck seat .accepted)

def handleWifiHello (s : Links) (i : Fin maxWifiClients) (hello : Hello) (now : UInt32) : Links :=
  match s.table.wifi i with
  | none => s
  | some self =>
    if self.identified then s.repeatHello (.wifi i) hello
    else if s.check.holds (.wifi i) then s
    else if s.table.hasOldClient now (some i) false then
      s.emit (.helloAck (.wifi i) .oldControllerPresent)
    else
      let decision := decideHello s.table (.wifi i) hello s.check
      match decision.action, decision.other with
      | .replace, some .usb => s.clearUsbIdentity.admitAt (.wifi i) hello
      | .replace, some (.wifi j) => (s.retireWifiClient j).admitAt (.wifi i) hello
      | .ask, some other =>
        match s.check.beginCheck s.table (.wifi i) other hello true now with
        | (true, check, table) =>
          { s with check := check, table := table }.driveIdentityCheck .wifi now true
        | (false, _, _) => s.answerBusy (.wifi i) now
      | .busy, _ => s.answerBusy (.wifi i) now
      | _, _ => s.admitAt (.wifi i) hello

/-- `SerialConsole::handle_hello`. `now` is the time of the last byte, `later` the reading taken
when a check starts. -/
def handleUsbHello (s : Links) (hello : Hello) (now later : UInt32) (canRead : Bool) : Links :=
  match s.table.usb with
  | none => s
  | some self =>
    if self.identified then s.repeatHello .usb hello
    else if s.check.holds .usb then s
    else if s.table.hasOldClient now none true then s.emit (.helloAck .usb .oldControllerPresent)
    else
      let decision := decideHello s.table .usb hello s.check
      match decision.action, decision.other with
      | .busy, _ => s.answerBusy .usb now
      | .admits, _ => s.admitAt .usb hello
      | action, some other =>
        match s.check.beginCheck s.table .usb other hello (action == .ask) later with
        | (true, check, table) =>
          { s with check := check, table := table }.driveIdentityCheck .usb later canRead
        | (false, _, _) => s.answerBusy .usb now
      | _, none => s.answerBusy .usb now

/-! ## Frames arriving -/

def gateInputsFor (s : Links) (seat : Seat) (c : Command) (motion : MotionState) : GateInputs :=
  { sender := identityOf (s.table.clientAt seat), traffic := c.traffic, motion := motion
    mode := cfg.mode, action := c.action, rights := cfg.rights }

/-- `handle_wifi_control_release` and `handle_control_release`. -/
def handleControlRelease (s : Links) (seat : Seat) : Links :=
  match s.table.clientAt seat with
  | none => s
  | some self =>
    if !self.identified then s
    else { s with control := (s.control.releaseIfHolder self.id).2 }

/-- Whether a command frame is kept for dispatch: an automatic one from an identified client, any
other one with data that the gate does not refuse on arrival. -/
def commandTaken (s : Links) (seat : Seat) (c : Command) (motion : MotionState) : Bool :=
  if c.data.isEmpty then false
  else if c.type = .autoCommand then (identityOf (s.table.clientAt seat)).identified
  else !(s.control.peek (s.gateInputsFor cfg seat c motion)).refused

def waitingFor (s : Links) (seat : Seat) (c : Command) : Waiting :=
  { command := c, session := s.session seat
    identified := (identityOf (s.table.clientAt seat)).identified }

def takenBeforeIdentifying : WireFrame → Bool
  | .hello _ => true
  | _ => false

/-- One frame decoded from a WiFi client, handled by `receive_wifi_data`. -/
def wifiFrame (s : Links) (i : Fin maxWifiClients) (frame : WireFrame) (motion : MotionState)
    (now : UInt32) : Links :=
  if mustIdentifyFirst s.table (s.table.wifi i) && !takenBeforeIdentifying frame then s
  else
    match frame with
    | .hello hello => s.handleWifiHello i hello now
    | .heartbeat => { s with table := s.table.modifyAt (.wifi i) (·.recordHeartbeat now) }
    | .presenceReply data => { s with check := (s.check.noteAnswer (.wifi i) data).2 }
    | .controlRelease => if cfg.mode = .multiUser then s.handleControlRelease (.wifi i) else s
    | .command c =>
      if s.commandTaken cfg (.wifi i) c motion then
        { s with wifiWaiting := some (i, s.waitingFor (.wifi i) c) }
      else s
    | .other => s

/-- One frame decoded from the USB link, handled by `process_makera_byte`. -/
def usbFrame (s : Links) (frame : WireFrame) (motion : MotionState) (later : UInt32)
    (cachewait : Bool) : Links :=
  let now := s.usbActivity.lastActivityUs
  if mustIdentifyFirst s.table s.table.usb && !takenBeforeIdentifying frame then s
  else
    match frame with
    | .hello hello => s.handleUsbHello hello now later (!s.usbActivity.rxDetached && !cachewait)
    | .heartbeat => { s with table := s.table.modifyAt .usb (·.recordHeartbeat now) }
    | .presenceReply data => { s with check := (s.check.noteAnswer .usb data).2 }
    | .controlRelease => if cfg.mode = .multiUser then s.handleControlRelease .usb else s
    | .command c =>
      if s.commandTaken cfg .usb c motion then { s with usbWaiting := some (s.waitingFor .usb c) }
      else s
    | .other => s

/-! ## Dispatch -/

/-- `gate_dispatch`, after the refusal while a job start is held. A command that changes the
holder is recorded. -/
def gateDispatch (s : Links) (seat : Seat) (w : Waiting) (motion : MotionState) : Bool × Links :=
  let i := s.gateInputsFor cfg seat w.command motion
  let r := s.control.gate i
  let s := { s with control := r.2 }
  if r.1.refused then (false, s.emit (.refused seat r.1.reason))
  else if r.1.holderChanged then
    (true, { s with seizures := s.seizures ++
      [{ seat := seat, sentIn := w.session, passedIn := s.session seat, sender := i.sender }] })
  else (true, s)

/-- What `on_main_loop` does with the command that was waiting. `startPending` says the command
is refused because a job start is held; `automaticRefused` that an automatic command is not on
the list of allowed ones. -/
def dispatch (s : Links) (seat : Seat) (w : Waiting) (motion : MotionState)
    (startPending automaticRefused : Bool) : Links :=
  if w.command.type = .autoCommand then
    if automaticRefused then s else s.emit (.dispatched seat w)
  else if w.command.type = .ctrlMulti && startPending then s
  else
    let r := s.gateDispatch cfg seat w motion
    if r.1 then r.2.emit (.dispatched seat w) else r.2

end Links

/-- What can happen next on the machine. Readings of the clock and the motion state are those of
the moment; the WiFi and USB loops read no frame while a command is waiting. -/
inductive LinkEvent where
  | wifiData (address : Address) (frame : Option WireFrame) (motion : MotionState)
      (admitted now : UInt32)
  | wifiGone (i : Fin maxWifiClients)
  | usbByte (now : UInt32)
  | usbRx (enabled : Bool) (now : UInt32)
  | usbData (frame : WireFrame) (motion : MotionState) (later : UInt32) (cachewait : Bool)
  | usbExpiry (now : UInt32)
  | driveWifi (now : UInt32)
  | driveUsb (now : UInt32) (cachewait : Bool)
  | dispatchWifi (motion : MotionState) (startPending automaticRefused : Bool)
  | dispatchUsb (motion : MotionState) (startPending automaticRefused : Bool)
  | secondTick

namespace Links

def step (cfg : Config) (s : Links) : LinkEvent → Links
  | .wifiData address frame motion admitted now =>
    if s.wifiWaiting.isSome then s
    else
      match s.routeMakeraClient address admitted, frame with
      | (some i, s), some frame => s.wifiFrame cfg i frame motion now
      | (_, s), _ => s
  | .wifiGone i => s.retireWifiClient i
  | .usbByte now =>
    { s with
      table := s.table.startUsbHelloWindow now
      usbActivity := { s.usbActivity with lastActivityUs := now } }
  | .usbRx enabled now =>
    { s with usbActivity :=
      { lastActivityUs := if enabled then now else s.usbActivity.lastActivityUs
        rxDetached := !enabled } }
  | .usbData frame motion later cachewait =>
    if s.usbWaiting.isSome then s else s.usbFrame cfg frame motion later cachewait
  | .usbExpiry now =>
    match s.table.usb with
    | none => s
    | some usb =>
      if s.usbActivity.sessionExpired usb.helloWindowStarted now then s.clearUsbIdentity else s
  | .driveWifi now => s.driveIdentityCheck .wifi now true
  | .driveUsb now cachewait =>
    s.driveIdentityCheck .usb now (!s.usbActivity.rxDetached && !cachewait)
  | .dispatchWifi motion startPending automaticRefused =>
    match s.wifiWaiting with
    | none => s
    | some (i, w) =>
      { s with wifiWaiting := none }.dispatch cfg (.wifi i) w motion startPending automaticRefused
  | .dispatchUsb motion startPending automaticRefused =>
    match s.usbWaiting with
    | none => s
    | some w => { s with usbWaiting := none }.dispatch cfg .usb w motion startPending automaticRefused
  | .secondTick => { s with control := (reconcileHolder s.control s.table).2 }

def run (cfg : Config) (s : Links) (events : List LinkEvent) : Links := events.foldl (step cfg) s

end Links

end CarveraFirmware.Clients
