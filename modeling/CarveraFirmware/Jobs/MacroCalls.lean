import Mathlib
import CarveraFirmware.Library.Runs

/-!
# Macro calls

`M98` and `M99` of `Player::on_gcode_received`, with `select_file`, `goto_line_number`,
`end_of_file` and the reading loop of `on_main_loop`. A job file is a list of lines as `fgets`
returns them, every line short enough for the buffer.
-/

namespace CarveraFirmware.Jobs

abbrev Path := List Char

def quoteChar : Char := Char.ofNat 34

/-- What `on_gcode_received` reads of an `M98`: `get_value('P')`, `get_value('L')`, the subcode and
the text of the command. -/
structure M98Word where
  p : Option ℚ := none
  l : Option ℚ := none
  subcode : Nat := 0
  command : List Char := []
  deriving DecidableEq

/-- A line of a job file. A `plain` one neither calls nor returns, nor does anything else to the
file being played. -/
inductive Line where
  | blank
  | plain (text : List Char)
  | m98 (word : M98Word)
  | m99
  deriving DecidableEq

def underGcodes (name : Path) : Path :=
  if "sd/gcodes/".toList.isPrefixOf name then "/".toList ++ name
  else if "gcodes/".toList.isPrefixOf name then "/sd/".toList ++ name
  else "/sd/gcodes/".toList ++ name

def withExtension (name : Path) : Path :=
  if ".cnc".toList.isSuffixOf name then name else name ++ ".cnc".toList

/-- The file name `select_file` makes of its argument. -/
def selectName (argument : Path) : Path :=
  let name := argument.filter (· != quoteChar)
  withExtension (underGcodes (if "/".toList.isPrefixOf name then name.drop 1 else name))

/-- The digits the loop of `M98` prepends one by one. -/
def fileNumber (n : Int) : List Char := if n > 0 then Nat.toDigits 10 n.toNat else []

namespace M98Word

/-- `new_filepath` from the number in `P`; `none` where the command is refused. -/
def numberedPath (word : M98Word) : Option Path :=
  match word.p with
  | none => some []
  | some p =>
    let filenumber := p.num.tdiv p.den
    if filenumber = 0 then none
    else some ("/sd/gcodes/macros/".toList ++ fileNumber filenumber ++ ".cnc".toList)

def numRepeats (word : M98Word) : Option Nat :=
  match word.l with
  | none => some 1
  | some l => if l.floor < 1 then none else some l.floor.toNat

/-- The path between the first and the last quote of `M98.1`. -/
def quotedPath (word : M98Word) : Option Path :=
  let first := word.command.idxOf quoteChar
  let last := word.command.length - 1 - word.command.reverse.idxOf quoteChar
  if quoteChar ∈ word.command ∧ first ≠ last then
    let path := (word.command.drop (first + 1)).take (last - first - 1)
    some (if "/sd/gcodes/".toList.isPrefixOf path then path else "/sd/gcodes/".toList ++ path)
  else none

/-- The file and the repeat count of an `M98` that is not refused. -/
def target (word : M98Word) : Option (Path × Nat) := do
  let numbered ← word.numberedPath
  let repeats ← word.numRepeats
  (if word.subcode = 1 then word.quotedPath else some numbered).map fun path => (path, repeats)

end M98Word

/-- The job files on the card. -/
abbrev Files := Path → Option (List Line)

/-- What `Player` keeps of the file it plays. `rest` is what is still to be read of it. -/
structure Player where
  filename : Path := []
  isOpen : Bool := false
  rest : List Line := []
  fileLine : Nat := 0
  macroFileQueue : List (Path × Nat) := []
  playingFile : Bool := false
  halted : Bool := false
  deriving DecidableEq

namespace Player

def selectFile (files : Files) (s : Player) (argument : Path) : Player :=
  let name := selectName argument
  let playing := if s.isOpen then false else s.playingFile
  match files name with
  | none => { s with filename := name, isOpen := false, rest := [], playingFile := playing }
  | some lines =>
    { s with
      filename := name
      isOpen := true
      rest := lines
      fileLine := 0
      playingFile := playing }

/-- The file is read again from its first line, up to the one before `lineNumber`. -/
def gotoLineNumber (files : Files) (s : Player) (lineNumber : Nat) : Player :=
  let gotoLine := max lineNumber 1
  let lines := (files s.filename).getD []
  { s with rest := lines.drop (gotoLine - 1), fileLine := min (gotoLine - 1) lines.length }

def playOpenedFile (s : Player) : Player :=
  if s.isOpen then { s with playingFile := true } else s

/-- `end_of_file()`: the front of the queue is where the macro returns to. -/
def endOfFile (files : Files) (s : Player) : Player :=
  match s.macroFileQueue with
  | [] => s
  | (path, line) :: queue =>
    (({ s with macroFileQueue := queue }.selectFile files path).gotoLineNumber files line
      ).playOpenedFile

/-- What dispatching a line does to the player. -/
def dispatch (files : Files) (s : Player) : Line → Player
  | .blank => s
  | .plain _ => s
  | .m98 word =>
    match word.target with
    | none => { s with halted := true }
    | some (path, repeats) =>
      let queue := s.macroFileQueue ++ [(s.filename, s.fileLine + 1)]
        ++ List.replicate (repeats - 1) (path, 0)
      ({ s with macroFileQueue := queue }.selectFile files path).playOpenedFile
  | .m99 => s.endOfFile files

/-- The next line to dispatch, the lines after it and its number; empty lines only count. -/
def readLine : List Line → Nat → Option (Line × List Line × Nat)
  | [], _ => none
  | .blank :: rest, n => readLine rest (n + 1)
  | line :: rest, n => some (line, rest, n + 1)

/-- A dispatched line: its file, its number in it, and the line. -/
structure Dispatched where
  path : Path
  number : Nat
  line : Line
  deriving DecidableEq

/-- The job is over when the file ends. -/
def finishJob (s : Player) : Player :=
  { s with playingFile := false, filename := [], isOpen := false, rest := [], fileLine := 0 }

/-- One main loop. -/
def mainLoop (files : Files) (s : Player) : Option Dispatched × Player :=
  if !s.playingFile || s.halted then (none, s)
  else
    match readLine s.rest s.fileLine with
    | none => (none, s.finishJob)
    | some (line, rest, number) =>
      (some ⟨s.filename, number, line⟩, { s with rest := rest, fileLine := number }.dispatch files line)

/-- The job `main` as `M32` or `play` leaves it: open at its first line, the queue empty. -/
def started (main : Path) (lines : List Line) : Player :=
  { filename := main, isOpen := true, rest := lines, playingFile := true }

end Player

/-! ## Inlined calls -/

open Player (Dispatched)

end CarveraFirmware.Jobs
