import Mathlib
import CarveraFirmware.Clients.Control

/-!
# Sorting commands

The text side of `libs/ControlToken.cpp`: which command lines are automatic traffic and which
are passive actions. A position in a line is the rest of the line from there.
-/

namespace CarveraFirmware.Clients

/-- The bytes of an ASCII literal of the source. -/
def ascii (s : String) : List UInt8 := s.toList.map fun c => UInt8.ofNat c.toNat

def isSpaceTab (c : UInt8) : Bool := c == 0x20 || c == 0x09
def isLineEnd (c : UInt8) : Bool := c == 0x0D || c == 0x0A

/-- `word_is`: the first token is exactly `word`. -/
def wordIs (rest : List UInt8) (word : String) : Bool :=
  (ascii word).isPrefixOf rest &&
    match rest.drop (ascii word).length with
    | [] => true
    | next :: _ => isSpaceTab next || isLineEnd next

def skipSpaces (rest : List UInt8) : List UInt8 := rest.dropWhile isSpaceTab

def endOfWord (rest : List UInt8) : List UInt8 :=
  rest.dropWhile fun c => !(isSpaceTab c || isLineEnd c)

/-- The loop of `config-get-all` over its `-e` arguments. -/
def skipDashE : Nat → List UInt8 → List UInt8
  | 0, rest => rest
  | n + 1, rest => if wordIs rest "-e" then skipDashE n (skipSpaces (endOfWord rest)) else rest

def configGetAllAlone (start : List UInt8) : Bool :=
  let rest := skipSpaces (endOfWord start)
  (skipDashE rest.length rest).isEmpty

def getWcs (start : List UInt8) : Bool :=
  let arg := skipSpaces (endOfWord start)
  wordIs arg "wcs" && (skipSpaces (endOfWord arg)).isEmpty

/-- `classify_command_line(line, length)`. -/
def classifyCommandLine (line : List UInt8) : Traffic :=
  let start := skipSpaces line
  if start.isEmpty then .userCaused
  else if wordIs start "model" then .automatic
  else if wordIs start "version" then .automatic
  else if wordIs start "ftype" then .automatic
  else if wordIs start "time" then .automatic
  else if wordIs start "ls" then .automatic
  else if wordIs start "md5sum" then .automatic
  else if wordIs start "config-get" then .automatic
  else if wordIs start "config-get-all" && configGetAllAlone start then .automatic
  else if wordIs start "get" && getWcs start then .automatic
  else .userCaused

def classifyFileTransferStart : Traffic := .userCaused

/-- `classify_passive_action(line, length)`. -/
def classifyPassiveAction (line : List UInt8) : PassiveAction :=
  let start := skipSpaces line
  if start.isEmpty then .none
  else if wordIs start "suspend" then .pause
  else if wordIs start "abort" then .stop
  else if wordIs start "upload" then .upload
  else .none

/-- A command frame with something in it: its type and its data. -/
inductive CommandType where
  | ctrlMulti | fileStart | autoCommand
  deriving DecidableEq, Repr

structure Command where
  type : CommandType
  data : List UInt8
  deriving DecidableEq

/-- The classification `gate_inputs_for` gives a frame on either link. -/
def Command.traffic (c : Command) : Traffic :=
  if c.type = .fileStart then classifyFileTransferStart else classifyCommandLine c.data

def Command.action (c : Command) : PassiveAction := classifyPassiveAction c.data

-- `timex` is not the word `time`.
example : wordIs (ascii "time 5") "time" = true ∧ wordIs (ascii "timex") "time" = false := by decide

end CarveraFirmware.Clients
