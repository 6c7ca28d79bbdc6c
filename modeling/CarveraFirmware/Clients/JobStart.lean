import Mathlib
import CarveraFirmware.Library.WrapClock
import CarveraFirmware.Clients.Table
import CarveraFirmware.Clients.Control
import CarveraFirmware.Clients.Check
import CarveraFirmware.Frames.Decoder

/-!
# A held job start

`JobStartWait` of `libs/JobStartWait.cpp`, with what `Player` and the links do around it. The MD5
of the file is left out: nothing here depends on its value.
-/

namespace CarveraFirmware.Clients

open WrapClock

def helloFeatureJobStartWait : UInt8 := 0x01
def helloFeatureKeepWaiting : UInt8 := 0x02
def microsecondsPerSecond : UInt32 := 1000000
def settleTicksAfterTransfer : UInt8 := 2

/-- `connected(table, id)`. -/
def connected (table : ClientTable) (id : UInt64) : Bool :=
  (table.findWifiById id none).isSome || table.usbHasId id

/-- `features_of(table, id)`: the features of the connected client with `id`, 0 if there is none. -/
def featuresOf (table : ClientTable) (id : UInt64) : UInt8 :=
  match (table.findWifiById id none).bind table.wifi with
  | some client => client.features
  | none => if table.usbHasId id then (table.usb.map (·.features)).getD 0 else 0

inductive StartCheck where
  | keepWaiting | allReady | timeLimit | timedOut | timeLimitInTransfer | starterLeft | cancelled
  deriving DecidableEq, Repr

structure JobStartWait where
  limitS : UInt8 := 0
  pending : Bool := false
  hashingFlag : Bool := false
  hashComplete : Bool := false
  startId : UInt16 := 0
  timedOutFlag : Bool := false
  keepWaitingRequested : Bool := false
  starterId : UInt64 := 0
  startedUs : UInt32 := 0
  hashedSize : UInt32 := 0
  settleTicks : UInt8 := 0
  cancelRequested : Bool := false
  limitRanOutInTransfer : Bool := false

namespace JobStartWait

/-- An identified client whose hello said it takes part in start waits. -/
def takesPart (client : Client) : Bool :=
  client.identified && client.features &&& helloFeatureJobStartWait != 0

def begin (w : JobStartWait) (starter : Identity) : JobStartWait :=
  let startId := w.startId + 1
  { limitS := w.limitS
    startId := if startId = 0 then 1 else startId
    starterId := starter.id
    startedUs := 0
    pending := true
    hashingFlag := true
    hashComplete := false
    cancelRequested := false
    limitRanOutInTransfer := false
    timedOutFlag := false
    keepWaitingRequested := false
    settleTicks := 0
    hashedSize := 0 }

def stop (w : JobStartWait) : JobStartWait := { w with pending := false }

def hashing (w : JobStartWait) : Bool := w.pending && w.hashingFlag

/-- `hash_step`, given what reading the next chunk of the file returned. -/
def hashStep (w : JobStartWait) (count : Int) (now : UInt32) : Bool × JobStartWait :=
  if !w.hashing then (false, w)
  else if count > 0 then
    (false, { w with hashedSize := w.hashedSize + UInt32.ofInt count })
  else
    (true, { w with
      hashComplete := if count = 0 then true else w.hashComplete
      hashingFlag := false
      startedUs := now })

def awaited (w : JobStartWait) (client : Client) : Bool :=
  client.identified && client.features &&& helloFeatureJobStartWait != 0 &&
    client.id != w.starterId && client.jobStartReady != w.startId

def settling (w : JobStartWait) : Bool := w.pending && w.settleTicks != 0

def timedOut (w : JobStartWait) : Bool := w.pending && w.timedOutFlag

def secondsLeft (w : JobStartWait) (now : UInt32) : UInt8 :=
  if w.hashing then w.limitS
  else
    let elapsedUs := now - w.startedUs
    let limitUs := w.limitS.toUInt32 * microsecondsPerSecond
    if elapsedUs ≥ limitUs then 0
    else ((limitUs - elapsedUs + microsecondsPerSecond - 1) / microsecondsPerSecond).toUInt8

/-- `not_ready`: the ids of the clients still awaited, WiFi slots in order and then USB. -/
def notReady (w : JobStartWait) (table : ClientTable) (capacity : Nat) : List UInt64 :=
  ((ClientTable.slots.filterMap table.wifi ++ table.usb.toList).filter w.awaited).map (·.id)
    |>.take capacity

def check (w : JobStartWait) (table : ClientTable) (now : UInt32) : StartCheck :=
  if w.cancelRequested then .cancelled
  else if !connected table w.starterId then .starterLeft
  else if w.settling then .keepWaiting
  else if (w.notReady table (maxWifiClients + 1)).length = 0 then .allReady
  else if w.timedOutFlag then .keepWaiting
  else if !w.hashing && w.secondsLeft now == 0 then
    if featuresOf table w.starterId &&& helloFeatureKeepWaiting != 0 then .timedOut
    else if w.limitRanOutInTransfer then .timeLimitInTransfer else .timeLimit
  else .keepWaiting

/-- `keep_waiting(sender_id, now_us)`; the flag says whether it was taken. -/
def keepWaiting (w : JobStartWait) (senderId : UInt64) (now : UInt32) : Bool × JobStartWait :=
  if !w.pending || senderId != w.starterId then (false, w)
  else
    (true, { w with
      startedUs := if !w.hashing then now else w.startedUs
      timedOutFlag := false
      limitRanOutInTransfer := false })

def requestKeepWaiting (w : JobStartWait) (senderId : UInt64) : Bool × JobStartWait :=
  if !w.pending || senderId != w.starterId then (false, w)
  else (true, { w with keepWaitingRequested := true })

def requestCancel (w : JobStartWait) : JobStartWait :=
  if w.pending then { w with cancelRequested := true } else w

def markTimedOut (w : JobStartWait) : JobStartWait :=
  if w.pending then { w with timedOutFlag := true } else w

def transferEnded (w : JobStartWait) (now : UInt32) : JobStartWait :=
  if !w.pending then w
  else
    let w := { w with settleTicks := settleTicksAfterTransfer }
    let w := if w.keepWaitingRequested then
        ({ w with keepWaitingRequested := false }.keepWaiting w.starterId now).2
      else w
    if !w.hashing && w.secondsLeft now == 0 then { w with limitRanOutInTransfer := true } else w

def secondTick (w : JobStartWait) : JobStartWait :=
  if w.settleTicks ≠ 0 then { w with settleTicks := w.settleTicks - 1 } else w

/-- `mark_ready`: the flag says whether the message was taken, and then the client is marked. -/
def markReady (w : JobStartWait) (client : Client) (payload : List UInt8) : Bool × Client :=
  match payload with
  | high :: low :: _ =>
    let startId := Frames.be16 high low
    if !w.pending || !client.identified then (false, client)
    else if startId ≠ w.startId then (false, client)
    else (true, { client with jobStartReady := startId })
  | _ => (false, client)

end JobStartWait

/-! ## The player and the links around it -/

/-- The wait, the clients it looks at, and whether a file transfer keeps the main loop stopped. -/
structure HeldStart where
  wait : JobStartWait := {}
  table : ClientTable := {}
  transferring : Bool := false

/-- What can happen while jobs are started. A cancel or a keep-waiting is one the control gate let
through; a refused one never reaches the wait. -/
inductive StartEvent where
  | begins (starter : Identity)
  | ready (seat : Seat) (payload : List UInt8)
  | keepWaiting (sender : UInt64)
  | cancel
  | hash (count : Int)
  | transferStarts
  | transferEnds
  | secondTick
  | mainLoop
  | ends
  | joins (address : Address)
  | usbPresent (present : Bool)
  | leaves (i : Fin maxWifiClients)
  | clearsWifi
  | clearsUsb
  | hello (seat : Seat) (hello : Hello)

namespace HeldStart

/-- `check_held_start`: starting and cancelling both end the hold. -/
def checkHeldStart (s : HeldStart) (now : UInt32) : HeldStart :=
  match s.wait.check s.table now with
  | .keepWaiting => s
  | .timedOut => { s with wait := s.wait.markTimedOut }
  | .allReady | .timeLimit | .timeLimitInTransfer | .starterLeft | .cancelled =>
    { s with wait := s.wait.stop }

/-- A hello that is accepted: it identifies a client that has no identity yet, and a later one only
brings new features and launch data. -/
def acceptHello (client : Client) (hello : Hello) : Client :=
  let client := if client.identified then client else client.setIdentity hello.id hello.name
  { client with features := hello.features, hasLaunch := hello.hasLaunch, launch := hello.launch }

/-- One event, at true time `t`. -/
def step (s : HeldStart) (t : Nat) : StartEvent → HeldStart
  | .begins starter => { s with wait := s.wait.begin starter }
  | .ready seat payload =>
    { s with table := s.table.modifyAt seat fun c => (s.wait.markReady c payload).2 }
  | .keepWaiting sender =>
    if s.transferring then { s with wait := (s.wait.requestKeepWaiting sender).2 }
    else { s with wait := (s.wait.keepWaiting sender (stamp t)).2 }
  | .cancel =>
    if s.transferring then { s with wait := s.wait.requestCancel }
    else { s with wait := s.wait.stop }
  | .hash count => { s with wait := (s.wait.hashStep count (stamp t)).2 }
  | .transferStarts => { s with transferring := true }
  | .transferEnds => { s with transferring := false, wait := s.wait.transferEnded (stamp t) }
  | .secondTick =>
    if s.wait.pending && !s.transferring then { s with wait := s.wait.secondTick } else s
  | .mainLoop =>
    if s.wait.pending && !s.transferring then s.checkHeldStart (stamp t) else s
  | .ends => { s with wait := s.wait.stop }
  | .joins address => { s with table := (s.table.addWifi address (stamp t)).2 }
  | .usbPresent present => { s with table := s.table.setUsbPresent present (stamp t) }
  | .leaves i => { s with table := s.table.removeWifi i }
  | .clearsWifi => { s with table := s.table.clearWifi }
  | .clearsUsb => { s with table := s.table.clearUsbIdentity }
  | .hello seat hello => { s with table := s.table.modifyAt seat (acceptHello · hello) }

end HeldStart

end CarveraFirmware.Clients
