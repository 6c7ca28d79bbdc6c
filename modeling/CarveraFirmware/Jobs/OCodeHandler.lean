import Mathlib

/-!
# O-codes

`OCodeHandler` of `modules/utils/player` runs the flow control of a job file: it keeps a stack of
open blocks and moves the file to and fro. An error in a line halts the machine, which comes back
through `Player::on_halt` and empties the stack before the line is done.

Floating-point values are of any type; what the handler asks of one is whether it is nonzero and its
integer part. A file is its characters and a position, and `fgets` takes up to 129 of them.
-/

namespace CarveraFirmware.Jobs.OCode

def ocodeMaxStackDepth : Nat := 10

/-! ## Lines -/

def isSpace (c : Char) : Bool :=
  c = ' ' || c = '\t' || c = '\n' || c = '\x0b' || c = '\x0c' || c = '\r'

/-- `ltrim_cstr`. -/
def ltrim (l : List Char) : List Char := l.dropWhile isSpace

/-- `strtol(p, &end, 10)`: the number, which a 32-bit `long` holds, and the end, or nothing where
there are no digits. -/
def strtol (l : List Char) : Option (Int × List Char) :=
  let l := ltrim l
  let (negative, l) :=
    match l with
    | '-' :: l => (true, l)
    | '+' :: l => (false, l)
    | l => (false, l)
  let digits := l.takeWhile Char.isDigit
  if digits = [] then none
  else
    let n : Int := digits.foldl (fun n c => 10 * n + (c.toNat - '0'.toNat : Nat)) 0
    some (max (-2 ^ 31) (min (2 ^ 31 - 1) (if negative then -n else n)),
      l.dropWhile Char.isDigit)

/-- An O-code line: its number, its keyword in lower case, and the rest. -/
structure OLine where
  num : Int
  keyword : String
  rest : List Char
  deriving DecidableEq

/-- `parse_ocode(line, num, keyword, rest)`. -/
def parseOcode (line : List Char) : Option OLine :=
  match ltrim line with
  | 'O' :: p =>
    match strtol p with
    | none => none
    | some (num, p) =>
      let p := ltrim p
      let keyword := p.takeWhile fun c => !isSpace c && c != '['
      let rest := ltrim (p.dropWhile fun c => !isSpace c && c != '[')
      if keyword = [] then none
      else some
        { num := num, keyword := String.ofList (keyword.map Char.toLower)
          rest := (rest.reverse.dropWhile fun c => c = '\n' || c = '\r').reverse }
  | _ => none

/-- A line of a file as `fgets` takes it: up to the end of the line, or 129 characters. -/
def fgetsLine : Nat → List Char → List Char
  | _, [] => []
  | 0, _ => []
  | n + 1, c :: l => if c = '\n' then [c] else c :: fgetsLine n l

/-- What one `fgets` after another takes of a text. -/
def fgetsAll : Nat → List Char → List (List Char)
  | 0, _ => []
  | n + 1, l =>
    if l = [] then [] else fgetsLine 129 l :: fgetsAll n (l.drop (fgetsLine 129 l).length)

/-- The lines from a position on. -/
def linesFrom (content : List Char) (pos : Nat) : List (List Char) :=
  fgetsAll content.length (content.drop pos)

/-! ## Scans -/

/-- What `skip_to` has found: the rest of the line that ends the block, if there is one. -/
structure ScanResult where
  matchedRest : Option (List Char)
  linesRead : Nat
  pos : Nat

/-- `do_nums[i] = do_nums[--do_count]` for the last `i` that holds `n`, or nothing if none does. -/
def closeDo (doNums : List Int) (n : Int) : Option (List Int) :=
  match (List.range doNums.length).reverse.find? fun i => doNums.getD i 0 == n with
  | none => none
  | some i => some ((doNums.set i (doNums.getLastD 0)).dropLast)

/-- The loop of `skip_to`. -/
def skipLoop (openKw closeKw : String) (target : Int) :
    List (List Char) → (depth : Nat) → (doNums : List Int) → ScanResult → ScanResult
  | [], _, _, r => r
  | line :: lines, depth, doNums, r =>
    let r := { r with linesRead := r.linesRead + 1, pos := r.pos + line.length }
    match parseOcode line with
    | none => skipLoop openKw closeKw target lines depth doNums r
    | some o =>
      if openKw = "while" ∧ o.keyword = "do" then
        skipLoop openKw closeKw target lines depth
          (if doNums.length < ocodeMaxStackDepth then doNums ++ [o.num] else doNums) r
      else if o.keyword = openKw then
        match (if openKw = "while" then closeDo doNums o.num else none) with
        | some doNums => skipLoop openKw closeKw target lines depth doNums r
        | none => skipLoop openKw closeKw target lines (depth + 1) doNums r
      else if o.keyword = closeKw then
        if depth = 0 then
          if target < 0 ∨ o.num = target then { r with matchedRest := some o.rest }
          else skipLoop openKw closeKw target lines depth doNums r
        else skipLoop openKw closeKw target lines (depth - 1) doNums r
      else skipLoop openKw closeKw target lines depth doNums r

def scan (content : List Char) (pos : Nat) (openKw closeKw : String) (target : Int) : ScanResult :=
  skipLoop openKw closeKw target (linesFrom content pos) 0 [] ⟨none, 0, pos⟩

/-- `SubEntry`: where the body of a subroutine begins. -/
structure SubEntry where
  offset : Nat
  line : Nat

/-- The loop of `pre_scan`: the subroutines by number, and whether one is defined twice. -/
def preScanLoop : List (List Char) → (pos lineNum : Nat) → List (Int × SubEntry) × Bool →
    List (Int × SubEntry) × Bool
  | [], _, _, t => t
  | line :: lines, pos, lineNum, t =>
    let pos := pos + line.length
    let t :=
      match parseOcode line with
      | none => t
      | some o =>
        if o.keyword = "sub" then
          if t.1.any (·.1 == o.num) then (t.1, true)
          else (t.1 ++ [(o.num, ⟨pos, lineNum + 2⟩)], t.2)
        else t
    preScanLoop lines pos (lineNum + 1) t

/-! ## The handler -/

inductive BlockType where
  | IF | WHILE | DO | REPEAT | SUB
  deriving DecidableEq, Repr

section Handler

variable {V : Type}

/-- `savedParams` is set for a subroutine. -/
structure Frame (V : Type) where
  num : Int
  type : BlockType
  loopOffset : Int := 0
  executing : Bool
  branchTaken : Bool := false
  repeatCount : Int := 0
  savedParams : Option (Nat → V) := none
  returnOffset : Int := 0
  jumpLine : UInt32 := 0

/-- What is noted of a call of `process_line`: the frames that are read, written and removed by
their index, with the count at that moment; what is done with the file; errors that halt. -/
inductive Access where
  | read (index count : Int)
  | wrote (index count : Int)
  | removed (index count : Int)
  | file
  | haltError
  deriving DecidableEq

/-- The evaluation of an expression: its value, whether that is a number other than 0, its integer
part, where the expression ends, and whether evaluating it halts the machine. -/
structure Evaluation (V : Type) where
  value : V
  nonzero : Bool
  toInt : Int
  rest : Option (List Char)
  halts : Bool

/-- What a call of `process_line` cannot know: the values of its expressions, whether the machine is
halted from `ON_IDLE` while it scans the file, and what is read of a file that is closed. -/
structure Env (V : Type) where
  eval : Nat → List Char → Evaluation V
  idleHalts : Bool
  closedScan : ScanResult
  closedTell : Int

/-- The job file, which is open while a job is played. -/
structure JobFile where
  content : List Char
  pos : Int

/-- `OCodeHandler`, and what it uses of the player and of the kernel. `data` and `count` are the
stack. -/
structure Handler (V : Type) where
  data : Nat → Frame V
  count : Int := 0
  subTable : List (Int × SubEntry) := []
  preScanned : Bool := false
  preScanFailed : Bool := false
  tolerantAfterJump : Bool := false
  localParams : Nat → V
  file : Option JobFile := none
  fileLine : UInt32 := 0
  log : List Access := []

namespace Handler

def reset (s : Handler V) : Handler V :=
  { s with
    count := 0, subTable := [], preScanned := false, preScanFailed := false
    tolerantAfterJump := false }

/-- `Player::on_halt`: a job that is played is aborted. -/
def onHalt (s : Handler V) : Handler V :=
  if s.file.isSome then { s.reset with file := none, fileLine := 0 } else s

def note (s : Handler V) (a : Access) : Handler V := { s with log := s.log ++ [a] }

def haltError (s : Handler V) : Handler V := s.onHalt.note .haltError

/-- A label that does not fit is only warned of after a jump. -/
def labelError (s : Handler V) : Handler V := if s.tolerantAfterJump then s else s.haltError

/-! ### The stack -/

/-- `stack_[i]`, to read. -/
def frame (s : Handler V) (i : Nat) : Frame V × Handler V := (s.data i, s.note (.read i s.count))

/-- `stack_[i]`, to write. -/
def setFrame (s : Handler V) (i : Nat) (f : Frame V) : Handler V :=
  { s with data := Function.update s.data i f : Handler V }.note (.wrote i s.count)

def pushBack (s : Handler V) (f : Frame V) : Handler V :=
  { s with data := Function.update s.data s.count.toNat f, count := s.count + 1 }

def resize (s : Handler V) (n : Nat) : Handler V := { s with count := n }

/-- `stack_.erase(stack_.begin() + i)`. -/
def erase (s : Handler V) (i : Nat) : Handler V :=
  { s with
    data := fun k => if i ≤ k ∧ (k : Int) + 1 < s.count then s.data (k + 1) else s.data k
    count := s.count - 1 : Handler V }.note (.removed i s.count)

/-- A loop over frames that ends at the first that fits. -/
def search (fits : Frame V → Bool) : List Nat → Handler V → Option Nat × Handler V
  | [], s => (none, s)
  | i :: is, s =>
    let (f, s) := s.frame i
    if fits f then (some i, s) else search fits is s

def anyFrameSkipping (s : Handler V) : Bool × Handler V :=
  let (i, s) := search (fun f => !f.executing) (List.range s.count.toNat) s
  (i.isSome, s)

def isSkipping (s : Handler V) : Bool := s.anyFrameSkipping.1

/-- The topmost frame of one of these types with this number. -/
def findFrame (s : Handler V) (types : List BlockType) (num : Int) : Option Nat × Handler V :=
  search (fun f => types.contains f.type && f.num == num) (List.range s.count.toNat).reverse s

def findLoopFrame (s : Handler V) (num : Int) : Option Nat × Handler V :=
  s.findFrame [.WHILE, .DO, .REPEAT] num

/-! ### The file and the expressions -/

variable (env : Env V)

/-- `ftell`. -/
def tell (s : Handler V) : Int × Handler V :=
  ((s.file.map JobFile.pos).getD env.closedTell, s.note .file)

/-- `fseek`. -/
def seek (s : Handler V) (pos : Int) : Handler V :=
  { s with file := s.file.map fun f : JobFile => { f with pos := pos } : Handler V }.note .file

/-- The `k`th expression of a call. -/
def evalExpr (s : Handler V) (k : Nat) (expr : List Char) : Evaluation V × Handler V :=
  (env.eval k expr, if (env.eval k expr).halts then s.onHalt else s)

/-- `skip_to`: after a halt the scan goes on in the closed file. -/
def skipTo (s : Handler V) (openKw closeKw : String) (num : Int) : ScanResult × Handler V :=
  match s.file with
  | none => (env.closedScan, s.note .file)
  | some f =>
    if env.idleHalts then (env.closedScan, s.onHalt.note .file)
    else
      let r := scan f.content f.pos.toNat openKw closeKw num
      (r, { s with file := some { f with pos := r.pos } : Handler V }.note .file)

/-- `file_line += lines_read`. -/
def skipLines (s : Handler V) (r : ScanResult) : Handler V :=
  { s with fileLine := s.fileLine + UInt32.ofNat r.linesRead }

/-- A scan to the end of a block, which has to be there. -/
def skipBlock (s : Handler V) (openKw closeKw : String) (num : Int) : ScanResult × Handler V :=
  let (r, s) := s.skipTo env openKw closeKw num
  (r, (if r.matchedRest.isNone then s.haltError else s).skipLines r)

def preScan (s : Handler V) : Handler V :=
  match s.file with
  | none => { s with preScanned := true }
  | some f =>
    if env.idleHalts then
      { s.onHalt with preScanned := false, preScanFailed := true : Handler V }.note .file
    else
      let t := preScanLoop (linesFrom f.content 0) 0 0 ([], false)
      { s with
        subTable := t.1, preScanned := true
        preScanFailed := s.preScanFailed || t.2 : Handler V }.note .file

/-! ### The keywords -/

variable (num : Int) (rest : List Char)

def doSub (s : Handler V) : Handler V :=
  let (skipping, s) := s.anyFrameSkipping
  if skipping then s else (s.skipBlock env "sub" "endsub" num).2

/-- `endsub` and `return`. -/
def doReturn (s : Handler V) : Handler V :=
  let (skipping, s) := s.anyFrameSkipping
  if skipping then s
  else
    match search (fun f => f.type = .SUB) (List.range s.count.toNat).reverse s with
    | (none, s) => s
    | (some i, s) =>
      let (f, s) := s.frame i
      { s.resize i with
        localParams := fun p =>
          if p < 30 then (f.savedParams.map fun params => params p).getD (s.localParams p)
          else s.localParams p
        fileLine := f.jumpLine - 1 : Handler V }.seek f.returnOffset

/-- The arguments in brackets, for the parameters from `p` on. -/
def bindArgs : (n p : Nat) → List Char → Handler V → Handler V
  | 0, _, _, s => s
  | n + 1, p, rp, s =>
    match ltrim rp with
    | '[' :: l =>
      let (r, s) := s.evalExpr env p ('[' :: l)
      bindArgs n (p + 1) (r.rest.getD l)
        { s with localParams := Function.update s.localParams p r.value }
    | _ => s

/-- A call of a subroutine that is known. -/
def enterSub (s : Handler V) (entry : SubEntry) : Handler V :=
  let (returnOffset, s) := s.tell env
  let frame : Frame V :=
    { num := num, type := .SUB, executing := true, savedParams := some s.localParams
      returnOffset := returnOffset, jumpLine := s.fileLine + 1 }
  let s := bindArgs env 30 0 rest s
  { { s with tolerantAfterJump := false : Handler V }.pushBack frame with
    fileLine := UInt32.ofNat entry.line - 1 : Handler V }.seek entry.offset

def doCall (s : Handler V) : Handler V :=
  let (skipping, s) := s.anyFrameSkipping
  if skipping then s
  else if s.count ≥ ocodeMaxStackDepth then s.haltError
  else
    let scanned := if s.preScanned then s else s.preScan env
    if !s.preScanned && scanned.preScanFailed then scanned.haltError
    else
      match scanned.subTable.find? (·.1 == num) with
      | none => scanned.haltError
      | some entry => scanned.enterSub env num rest entry.2

def doIf (s : Handler V) : Handler V :=
  if s.count ≥ ocodeMaxStackDepth then s.haltError
  else
    let (skipping, s) := s.anyFrameSkipping
    if skipping then
      { s with tolerantAfterJump := false : Handler V }.pushBack
        { num := num, type := .IF, executing := false, branchTaken := true }
    else
      let (val, s) := s.evalExpr env 0 rest
      { s with tolerantAfterJump := false : Handler V }.pushBack
        { num := num, type := .IF, executing := val.nonzero, branchTaken := val.nonzero }

def doElseif (s : Handler V) : Handler V :=
  match s.findFrame [.IF] num with
  | (none, s) => s.labelError
  | (some i, s) =>
    let (f, s) := s.frame i
    if f.branchTaken then s.setFrame i { f with executing := false }
    else
      let (val, s) := s.evalExpr env 0 rest
      s.setFrame i { f with executing := val.nonzero, branchTaken := val.nonzero }

def doElse (s : Handler V) : Handler V :=
  match s.findFrame [.IF] num with
  | (none, s) => s.labelError
  | (some i, s) =>
    let (f, s) := s.frame i
    s.setFrame i { f with executing := !f.branchTaken, branchTaken := true }

def doEndif (s : Handler V) : Handler V :=
  match s.findFrame [.IF] num with
  | (none, s) => s.labelError
  | (some i, s) => s.erase i

/-- Back to where the frame begins. -/
def goBack (s : Handler V) (f : Frame V) : Handler V :=
  { s with fileLine := f.jumpLine - 1 : Handler V }.seek f.loopOffset

/-- A `while` that is not the end of a `do`. -/
def standaloneWhile (s : Handler V) (line : List Char) : Handler V :=
  if s.count ≥ ocodeMaxStackDepth then s.haltError
  else
    let (pos, s) := s.tell env
    let frame : Frame V :=
      { num := num, type := .WHILE, loopOffset := pos - line.length, executing := false
        jumpLine := s.fileLine }
    let (skipping, s) := s.anyFrameSkipping
    if skipping then { s with tolerantAfterJump := false : Handler V }.pushBack frame
    else
      let (val, s) := s.evalExpr env 0 rest
      if val.nonzero then
        { s with tolerantAfterJump := false : Handler V }.pushBack { frame with executing := true }
      else (s.skipBlock env "while" "endwhile" num).2

def doWhile (s : Handler V) (line : List Char) : Handler V :=
  match s.findFrame [.DO] num with
  | (none, s) => s.standaloneWhile env num rest line
  | (some i, s) =>
    let (skipping, s) := s.anyFrameSkipping
    if skipping then s.erase i
    else
      let (val, s) := s.evalExpr env 0 rest
      if val.nonzero then
        let (f, s) := s.frame i
        s.goBack f
      else s.erase i

def doEndwhile (s : Handler V) : Handler V :=
  match s.findFrame [.WHILE] num with
  | (none, s) => s.labelError
  | (some i, s) =>
    let (skipping, s) := s.anyFrameSkipping
    if skipping then s.erase i
    else
      let (f, s) := s.frame i
      (s.goBack f).erase i

def doDo (s : Handler V) : Handler V :=
  if s.count ≥ ocodeMaxStackDepth then s.haltError
  else
    let (pos, s) := s.tell env
    let (skipping, s) := s.anyFrameSkipping
    { s with tolerantAfterJump := false : Handler V }.pushBack
      { num := num, type := .DO, loopOffset := pos, executing := !skipping
        jumpLine := s.fileLine + 1 }

def doRepeat (s : Handler V) : Handler V :=
  if s.count ≥ ocodeMaxStackDepth then s.haltError
  else
    let (skipping, s) := s.anyFrameSkipping
    let (count, s) :=
      if skipping then (0, s)
      else
        let (val, s) := s.evalExpr env 0 rest
        (val.toInt, s)
    let (pos, s) := s.tell env
    let (skipping, s) := s.anyFrameSkipping
    if !skipping && count > 0 then
      { s with tolerantAfterJump := false : Handler V }.pushBack
        { num := num, type := .REPEAT, loopOffset := pos, executing := true, repeatCount := count
          jumpLine := s.fileLine + 1 }
    else (s.skipBlock env "repeat" "endrepeat" num).2

def doEndrepeat (s : Handler V) : Handler V :=
  match s.findFrame [.REPEAT] num with
  | (none, s) => s.labelError
  | (some i, s) =>
    let (skipping, s) := s.anyFrameSkipping
    if skipping then s.erase i
    else
      let (f, s) := s.frame i
      let f := { f with repeatCount := f.repeatCount - 1 }
      let s := s.setFrame i f
      if f.repeatCount > 0 then s.goBack f else s.erase i

def doBreak (s : Handler V) : Handler V :=
  let (skipping, s) := s.anyFrameSkipping
  if skipping then s
  else
    match s.findLoopFrame num with
    | (none, s) => s.labelError
    | (some i, s) =>
      let (f, s) := s.frame i
      let s := s.resize i
      match f.type with
      | .WHILE => (s.skipBlock env "while" "endwhile" num).2
      | .DO => (s.skipBlock env "do" "while" num).2
      | _ => (s.skipBlock env "repeat" "endrepeat" num).2

/-- `continue` in the `do` at index `i`: after an error the source goes on, with an empty
condition. -/
def continueDo (s : Handler V) (i : Nat) (f : Frame V) : Handler V :=
  let (r, s) := (s.resize (i + 1)).skipBlock env "do" "while" num
  let (val, s) := s.evalExpr env 0 (r.matchedRest.getD [])
  if val.nonzero then s.goBack f else s.erase i

/-- `continue` in the `repeat` at index `i`: that its end is missing is not noticed. -/
def continueRepeat (s : Handler V) (i : Nat) (f : Frame V) : Handler V :=
  let f := { f with repeatCount := f.repeatCount - 1 }
  let s := (s.resize (i + 1)).setFrame i f
  if f.repeatCount > 0 then s.goBack f
  else
    let (r, s) := s.skipTo env "repeat" "endrepeat" num
    (s.skipLines r).erase i

def doContinue (s : Handler V) : Handler V :=
  let (skipping, s) := s.anyFrameSkipping
  if skipping then s
  else
    match s.findLoopFrame num with
    | (none, s) => s.labelError
    | (some i, s) =>
      let (f, s) := s.frame i
      match f.type with
      | .WHILE => (s.resize i).goBack f
      | .DO => s.continueDo env num i f
      | _ => s.continueRepeat env num i f

def processLine (s : Handler V) (line : List Char) : Handler V :=
  match parseOcode line with
  | none => s
  | some o =>
    match o.keyword with
    | "sub" => s.doSub env o.num
    | "endsub" => s.doReturn
    | "return" => s.doReturn
    | "call" => s.doCall env o.num o.rest
    | "if" => s.doIf env o.num o.rest
    | "elseif" => s.doElseif env o.num o.rest
    | "else" => s.doElse o.num
    | "endif" => s.doEndif o.num
    | "while" => s.doWhile env o.num o.rest line
    | "endwhile" => s.doEndwhile o.num
    | "do" => s.doDo env o.num
    | "repeat" => s.doRepeat env o.num o.rest
    | "endrepeat" => s.doEndrepeat o.num
    | "break" => s.doBreak env o.num
    | "continue" => s.doContinue env o.num
    | _ => s.haltError

/-- `prepare_jump`. -/
def prepareJump (s : Handler V) : Handler V :=
  let s : Handler V := { s with count := 0, tolerantAfterJump := true }
  if s.preScanned then s else s.preScan env

end Handler

/-! ## Jobs -/

/-- What happens to the handler: a file is opened for a job, with a pre-scan or without; a line of it
comes to `process_line`, wherever the file then is; the job jumps to a line; it is over. -/
inductive JobEvent (V : Type) where
  | play (content : List Char) (prescan : Bool) (env : Env V)
  | line (text : List Char) (pos : Int) (fileLine : UInt32) (env : Env V)
  | jump (env : Env V)
  | stop

/-- The handler as `process_line` finds it, if a job is played. -/
def Handler.called (s : Handler V) (pos : Int) (fileLine : UInt32) : Option (Handler V) :=
  s.file.map fun f =>
    { s with file := some { f with pos := pos }, fileLine := fileLine, log := [] }

def Handler.step (s : Handler V) : JobEvent V → Handler V
  | .play content prescan env =>
    let s : Handler V := { s.reset with file := some ⟨content, 0⟩, fileLine := 0, log := [] }
    if prescan then
      let s := s.preScan env
      if s.preScanFailed then { s with file := none } else s
    else s
  | .line text pos fileLine env =>
    match s.called pos fileLine with
    | none => s
    | some s => s.processLine env text
  | .jump env => if s.file.isSome then s.prepareJump env else s
  | .stop => { s.reset with file := none, fileLine := 0 }

end Handler

end CarveraFirmware.Jobs.OCode
