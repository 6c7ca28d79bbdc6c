import Mathlib
import CarveraFirmware.Library.RingIndex

/-!
# The conveyor

`modules/robot/Conveyor.cpp` and `BlockQueue.cpp`: the ring of blocks between the main program,
which appends at the head and collects at the tail, and the step interrupt, which works at a
tail of its own. The main program is a stack of calls, each at the point where the interrupt
may come in: a wait calls `ON_IDLE`, whose handlers may halt, flush or abort in turn. The
interrupt runs to its end once it has begun.

The continuous mode the interrupt tests for is never entered, since its counter is only ever
set to one.
-/

namespace CarveraFirmware.Motion

open RingIndex

/-- Where a call of `append_block` with `queue_head_block` stands. -/
inductive AppendPoint where
  | fill (hasSteps : Bool) | clear | room | queue
  deriving DecidableEq

/-- Where the collection of `on_idle` stands. -/
inductive CollectPoint where
  | test | clear | consume
  deriving DecidableEq

/-- Where `flush_queue` stands; `on_halt` lifts the hold after it. -/
inductive FlushPoint where
  | fetch | flag | loop | unflag | unhold
  deriving DecidableEq

inductive WaitPoint where
  | enter | loop | motors
  deriving DecidableEq

/-- A call in progress in the main program. -/
inductive Call where
  | append (point : AppendPoint)
  | idle
  | collect (point : CollectPoint)
  | flushQueue (halting : Bool) (point : FlushPoint)
  | halt
  | unhalt
  | requestAbort (flagged : Bool)
  | clearAbort
  | waitForIdle (point : WaitPoint)
  | setHold (f : Bool)
  deriving DecidableEq

namespace Call

/-- Below a call that was made from an `ON_IDLE` it waits in. -/
def Suspended : Call → Prop
  | idle | append .room | flushQueue _ .loop | waitForIdle .loop | waitForIdle .motors => True
  | _ => False

/-- Neither an append nor a flush. -/
def quiet : Call → Bool
  | append _ | flushQueue _ _ => false
  | _ => true

/-- How the calls begin. -/
inductive Begins : Call → Prop
  | append (hasSteps : Bool) : Begins (append (.fill hasSteps))
  | idle : Begins idle
  | collect : Begins (collect .test)
  | flushQueue : Begins (flushQueue false .fetch)
  | halt : Begins halt
  | unhalt : Begins unhalt
  | requestAbort : Begins (requestAbort false)
  | clearAbort : Begins clearAbort
  | waitForIdle : Begins (waitForIdle .enter)
  | setHold (f : Bool) : Begins (setHold f)

/-- A handler of `ON_IDLE` appends only when neither an append nor a flush is under way, and the
abort is cleared by the main loop alone. -/
def Allowed (stack : List Call) : Call → Prop
  | append _ => ∀ c ∈ stack, c.quiet = true
  | clearAbort => stack = []
  | _ => True

end Call

/-- The queue, its flags, the step ticker's side and the main program's calls. `slots` holds the
number of the block in each slot. The last fields count: the blocks appended, passed by the
interrupt and collected, in which order blocks were handed over, and how many had been
appended when a flush or a halt last began. -/
structure Conveyor where
  head : ℕ := 0
  tail : ℕ := 0
  isrTail : ℕ := 0
  slots : ℕ → Option ℕ := fun _ => none
  running : Bool := true
  allowFetch : Bool := false
  flush : Bool := false
  hold : Bool := false
  abortMotion : Bool := false
  halted : Bool := false
  tickerRunning : Bool := false
  currentBlock : Option ℕ := none
  stack : List Call := []
  appended : ℕ := 0
  passed : ℕ := 0
  collected : ℕ := 0
  handed : List ℕ := []
  lastStop : ℕ := 0

namespace Conveyor

variable (length : ℕ)

def isFull (s : Conveyor) : Bool := next length s.head = s.tail

def isEmpty (s : Conveyor) : Bool := s.head = s.tail

/-! ## The interrupt -/

/-- `get_next_block`; `locked` is the state of the block it looks at. With the flush flag up, the
loop over the queue ends with `isr_tail_i` at the head. -/
def getNextBlock (locked : Bool) (s : Conveyor) : Bool × Conveyor :=
  if s.hold then (false, s)
  else
    let s := if s.flush then { s with isrTail := s.head, passed := s.appended } else s
    if s.halted || s.isrTail = s.head then (false, s)
    else if !s.allowFetch then (false, s)
    else if locked then (false, s)
    else
      (true, { s with
        currentBlock := some s.isrTail
        handed := s.handed ++ (s.slots s.isrTail).toList })

def blockFinished (s : Conveyor) : Conveyor :=
  { s with isrTail := next length s.isrTail, passed := s.passed + 1 }

/-- `start_next_block` drops a block without steps. -/
def startNextBlock (hasSteps : Bool) (s : Conveyor) : Conveyor :=
  if hasSteps then { s with tickerRunning := true }
  else { s.blockFinished length with tickerRunning := false }

/-- What a tick finds: whether motors are still moving at its end, and the blocks it looks at. -/
structure TickFinds where
  stillMoving : Bool
  locked : Bool × Bool
  hasSteps : Bool × Bool

/-- `step_tick` with a block to run. -/
def tickBlock (finds : TickFinds) (s : Conveyor) : Conveyor :=
  if s.halted then { s with tickerRunning := false, currentBlock := none }
  else if finds.stillMoving then s
  else
    match (s.blockFinished length).getNextBlock finds.locked.2 with
    | (true, s) => s.startNextBlock length finds.hasSteps.2
    | (false, s) => { s with tickerRunning := false, currentBlock := none }

def stepTick (finds : TickFinds) (s : Conveyor) : Conveyor :=
  if s.tickerRunning then s.tickBlock length finds
  else
    match s.getNextBlock finds.locked.1 with
    | (false, s) => s
    | (true, s) =>
      let s := s.startNextBlock length finds.hasSteps.1
      if s.tickerRunning then s.tickBlock length finds else s

/-! ## The main program -/

/-- `check_queue(force)`; `timedOut` when the queue has waited long enough. -/
def checkQueue (force timedOut : Bool) (s : Conveyor) : Conveyor :=
  if s.isEmpty then { s with allowFetch := false }
  else if (force || s.isFull length || timedOut) && !s.flush then { s with allowFetch := true }
  else s

/-- One step of `append_block` and `queue_head_block`; `rest` are the calls it was made from. -/
def appendStep (s : Conveyor) (rest : List Call) : AppendPoint → Conveyor
  | .fill hasSteps =>
    if s.abortMotion then { s with stack := rest }
    else
      { s with
        slots := Function.update s.slots s.head (some s.appended)
        stack := .append (if hasSteps then .room else .clear) :: rest }
  | .clear => { s with slots := Function.update s.slots s.head none, stack := rest }
  | .room =>
    if s.isFull length && !s.halted && !s.abortMotion then
      { s with stack := .idle :: .append .room :: rest }
    else { s with stack := .append .queue :: rest }
  | .queue =>
    if s.halted || s.abortMotion then
      { s with slots := Function.update s.slots s.head none, stack := rest }
    else if s.isFull length then s
    else { s with head := next length s.head, appended := s.appended + 1, stack := rest }

/-- One step of `on_idle`. -/
def collectStep (timedOut : Bool) (s : Conveyor) (rest : List Call) : CollectPoint → Conveyor
  | .test =>
    let s := if s.running then s.checkQueue length false timedOut else s
    if s.tail ≠ s.isrTail ∧ s.isEmpty = false then { s with stack := .collect .clear :: rest }
    else { s with stack := rest }
  | .clear =>
    { s with slots := Function.update s.slots s.tail none, stack := .collect .consume :: rest }
  | .consume =>
    if s.isEmpty then { s with stack := rest }
    else { s with tail := next length s.tail, collected := s.collected + 1, stack := rest }

/-- One step of `flush_queue`, with `wait_for_idle(false)` inside it. -/
def flushStep (s : Conveyor) (rest : List Call) (halting : Bool) : FlushPoint → Conveyor
  | .fetch => { s with allowFetch := false, stack := .flushQueue halting .flag :: rest }
  | .flag =>
    { s with
      flush := true, running := false, lastStop := s.appended
      stack := .flushQueue halting .loop :: rest }
  | .loop =>
    if s.isEmpty then { s with running := true, stack := .flushQueue halting .unflag :: rest }
    else
      { s.checkQueue length true false with stack := .idle :: .flushQueue halting .loop :: rest }
  | .unflag =>
    { s with flush := false, stack := if halting then .flushQueue halting .unhold :: rest else rest }
  | .unhold => { s with hold := false, stack := rest }

/-- One step of `wait_for_idle(true)`. -/
def waitStep (motorsMoving : Bool) (s : Conveyor) (rest : List Call) : WaitPoint → Conveyor
  | .enter => { s with running := false, stack := .waitForIdle .loop :: rest }
  | .loop =>
    if s.isEmpty then { s with stack := .waitForIdle .motors :: rest }
    else { s.checkQueue length true false with stack := .idle :: .waitForIdle .loop :: rest }
  | .motors =>
    if motorsMoving then { s with stack := .idle :: .waitForIdle .motors :: rest }
    else { s with running := true, stack := rest }

/-- One step of the call on top; `found` is what it finds out by itself. A halt goes on as a
flush, once `halted` is set. -/
def callStep (found : Bool) (s : Conveyor) (call : Call) (rest : List Call) : Conveyor :=
  match call with
  | .append point => s.appendStep length rest point
  | .idle => { s with stack := rest }
  | .collect point => s.collectStep length found rest point
  | .flushQueue halting point => s.flushStep length rest halting point
  | .halt =>
    { s with halted := true, lastStop := s.appended, stack := .flushQueue true .fetch :: rest }
  | .unhalt => { s with halted := false, stack := rest }
  | .requestAbort false =>
    { s with abortMotion := true, allowFetch := false, stack := .requestAbort true :: rest }
  | .requestAbort true => { s with flush := true, lastStop := s.appended, stack := rest }
  | .clearAbort => { s with flush := false, abortMotion := false, stack := rest }
  | .waitForIdle point => s.waitStep length found rest point
  | .setHold f => { s with hold := f, stack := rest }

/-- A step of the machine: a tick of the step interrupt, or a step of the main program, which in its
main loop and in the handlers of `ON_IDLE` may begin a new call. -/
inductive Step : Conveyor → Conveyor → Prop
  | tick (s : Conveyor) (finds : TickFinds) : Step s (s.stepTick length finds)
  | go (s : Conveyor) (found : Bool) (call : Call) (rest : List Call) (h : s.stack = call :: rest) :
    Step s (s.callStep length found call rest)
  | begins (s : Conveyor) (call : Call) (hcall : call.Begins) (hallowed : call.Allowed s.stack)
    (hstack : s.stack = [] ∨ ∃ rest, s.stack = .idle :: rest) :
    Step s { s with stack := call :: s.stack }

/-- The states the machine can get to. -/
inductive Reachable : Conveyor → Prop
  | init : Reachable {}
  | step {s t : Conveyor} (hs : Reachable s) (h : Step length s t) : Reachable t

end Conveyor

end CarveraFirmware.Motion
