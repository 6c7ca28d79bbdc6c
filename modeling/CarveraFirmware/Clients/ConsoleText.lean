import Mathlib
import CarveraFirmware.Clients.Classify

/-!
# Console text

The functions of `libs/utils.cpp` that take a console line apart: `ltrim` and `shift_parameter`.
-/

namespace CarveraFirmware.Clients

/-- A byte of `" \t\n\r\f\v"`. -/
def isTrimmed (c : UInt8) : Bool := isSpaceTab c || isLineEnd c || c == 0x0C || c == 0x0B

def ltrim (line : List UInt8) : List UInt8 := line.dropWhile isTrimmed

def isQuote (c : UInt8) : Bool := c == 0x22 || c == 0x27

/-- The bytes that stand for a space and for `?`, `*`, `!` and `~`. -/
def decodeSpecial (c : UInt8) : UInt8 :=
  if c = 0x01 then 0x20
  else if c = 0x02 then 0x3F
  else if c = 0x03 then 0x2A
  else if c = 0x04 then 0x21
  else if c = 0x05 then 0x7E
  else c

/-- The first parameter where no quote closes: it ends at the first space. -/
def shiftUnquoted (parameters : List UInt8) : List UInt8 × List UInt8 :=
  ((parameters.takeWhile (· != 0x20)).map decodeSpecial, (parameters.dropWhile (· != 0x20)).drop 1)

/-- `shift_parameter`: the first parameter, and what is left of the parameters. -/
def shiftParameter (parameters : List UInt8) : List UInt8 × List UInt8 :=
  match parameters.dropWhile isSpaceTab with
  | [] => ([], [])
  | first :: rest =>
    if isQuote first && rest.contains first then
      ((rest.takeWhile (· != first)).map decodeSpecial,
        ((rest.dropWhile (· != first)).drop 1).dropWhile isSpaceTab)
    else shiftUnquoted parameters

end CarveraFirmware.Clients
