import Mathlib
import CarveraFirmware.Jobs.OCodeHandler

/-!
# Expressions in G-code

The evaluator of `modules/communication/utils/Gcode.cpp`. Floating-point values are of any type, with the
operations that the evaluator uses. A string is its characters up to the end. Each error is printed and
halts the machine, so an evaluation gives its value, where it has stopped, and the errors in order.
-/

namespace CarveraFirmware.Gcode

open Jobs.OCode (isSpace ltrim strtol)

/-- The functions of the C library that the evaluator calls. -/
inductive Libm where
  | sin | cos | tan | asin | acos | atan | sqrt | fabs | round | floor | ceil | log | exp
  deriving DecidableEq, Repr

/-- `float`, as far as the evaluator sees it. -/
structure FloatOps (F : Type) where
  nan : F
  ofNat : Nat → F
  /-- What `strtof` makes of the text of a number. -/
  ofText : List Char → F
  add : F → F → F
  sub : F → F → F
  mul : F → F → F
  div : F → F → F
  fmod : F → F → F
  pow : F → F → F
  libm : Libm → F → F
  degToRad : F
  /-- `x == 0`. -/
  isZero : F → Bool
  lt : F → F → Bool
  le : F → F → Bool
  /-- The two are less than `equal_tolerance` apart. -/
  near : F → F → Bool
  /-- `x != x`. -/
  isNan : F → Bool
  /-- `x > -100000`, which says that a variable has been set. -/
  isSet : F → Bool

/-! ## Numbers -/

/-- Digits with at most one point, and what follows them. -/
def mantissa (digit : Char → Bool) (l : List Char) : Option (List Char × List Char) :=
  let whole := l.takeWhile digit
  match l.dropWhile digit with
  | '.' :: frac =>
    if whole = [] ∧ frac.takeWhile digit = [] then none
    else some (whole ++ '.' :: frac.takeWhile digit, frac.dropWhile digit)
  | rest => if whole = [] then none else some (whole, rest)

def isHexDigit (c : Char) : Bool :=
  c.isDigit || ('a' ≤ c && c ≤ 'f') || ('A' ≤ c && c ≤ 'F')

/-- The exponent behind a hexadecimal mantissa. -/
def hexExponent (l : List Char) : List Char × List Char :=
  match l with
  | p :: rest =>
    if p = 'p' ∨ p = 'P' then
      let sign := rest.take 1 |>.filter fun c => c = '+' || c = '-'
      let digits := (rest.drop sign.length).takeWhile Char.isDigit
      if digits = [] then ([], l)
      else (p :: sign ++ digits, (rest.drop sign.length).dropWhile Char.isDigit)
    else ([], l)
  | [] => ([], [])

def hexText (l : List Char) : Option (List Char × List Char) :=
  match l with
  | '0' :: x :: rest =>
    if x = 'x' ∨ x = 'X' then
      (mantissa isHexDigit rest).map fun r =>
        ('0' :: x :: r.1 ++ (hexExponent r.2).1, (hexExponent r.2).2)
    else none
  | _ => none

/-- `inf`, `infinity` and `nan`, in capitals or not. -/
def wordText (l : List Char) : Option (List Char × List Char) :=
  let begins (word : List Char) : Bool := word.isPrefixOf (l.map Char.toLower)
  if begins ['i', 'n', 'f', 'i', 'n', 'i', 't', 'y'] then some (l.take 8, l.drop 8)
  else if begins ['i', 'n', 'f'] then some (l.take 3, l.drop 3)
  else if begins ['n', 'a', 'n'] then
    match l.drop 3 with
    | '(' :: rest =>
      let inside := rest.takeWhile fun c => c.isAlphanum || c = '_'
      match rest.drop inside.length with
      | ')' :: rest => some (l.take 4 ++ inside ++ [')'], rest)
      | _ => some (l.take 3, l.drop 3)
    | _ => some (l.take 3, l.drop 3)
  else none

/-- The number that `strtof` reads from a text, and what follows it. The texts here have no `e` in them,
so that a decimal number has no exponent. -/
def strtofText (l : List Char) : Option (List Char × List Char) :=
  let l := ltrim l
  let sign := l.take 1 |>.filter fun c => c = '+' || c = '-'
  let l := l.drop sign.length
  (hexText l <|> mantissa Char.isDigit l <|> wordText l).map fun r => (sign ++ r.1, r.2)

/-! ## Words -/

/-- The first of some words that the text begins with, and what follows it. -/
def readWord {α : Type} (word : α → List Char) (all : List α) (l : List Char) : Option (α × List Char) :=
  (all.find? fun a => (word a).isPrefixOf l).map fun a => (a, l.drop (word a).length)

/-- The functions that an expression can call. -/
inductive Function where
  | sin | cos | tan | asin | acos | atan | sqrt | abs | round | fix | fup | ln | exp
  deriving DecidableEq, Repr

namespace Function

def word : Function → List Char
  | sin => ['s', 'i', 'n']
  | cos => ['c', 'o', 's']
  | tan => ['t', 'a', 'n']
  | asin => ['a', 's', 'i', 'n']
  | acos => ['a', 'c', 'o', 's']
  | atan => ['a', 't', 'a', 'n']
  | sqrt => ['s', 'q', 'r', 't']
  | abs => ['a', 'b', 's']
  | round => ['r', 'o', 'u', 'n', 'd']
  | fix => ['f', 'i', 'x']
  | fup => ['f', 'u', 'p']
  | ln => ['l', 'n']
  | exp => ['e', 'x', 'p']

def all : List Function :=
  [sin, cos, tan, asin, acos, atan, sqrt, abs, round, fix, fup, ln, exp]

/-- Angles are in degrees, and a tangent that is not defined is `NAN`. -/
def value {F : Type} (A : FloatOps F) (x : F) : Function → F
  | sin => A.libm .sin (A.mul x A.degToRad)
  | cos => A.libm .cos (A.mul x A.degToRad)
  | tan =>
    if A.isZero (A.fmod (A.sub x (A.ofNat 90)) (A.ofNat 180)) then A.nan
    else A.libm .tan (A.mul x A.degToRad)
  | asin => A.div (A.libm .asin x) A.degToRad
  | acos => A.div (A.libm .acos x) A.degToRad
  | atan => A.div (A.libm .atan x) A.degToRad
  | sqrt => A.libm .sqrt x
  | abs => A.libm .fabs x
  | round => A.libm .round x
  | fix => A.libm .floor x
  | fup => A.libm .ceil x
  | ln => A.libm .log x
  | exp => A.libm .exp x

end Function

/-- The operators between the factors of a term. -/
inductive TermOp where
  | mul | div | mod
  deriving DecidableEq, Repr

namespace TermOp

def word : TermOp → List Char
  | mul => ['*']
  | div => ['/']
  | mod => ['m', 'o', 'd']

def all : List TermOp := [mul, div, mod]

/-- The result, or the error where the divisor is zero. -/
def value {F : Type} (A : FloatOps F) (x y : F) : TermOp → Except String F
  | mul => .ok (A.mul x y)
  | div => if A.isZero y then .error "ERROR: Division by zero\n" else .ok (A.div x y)
  | mod => if A.isZero y then .error "ERROR: Modulo by zero\n" else .ok (A.fmod x y)

end TermOp

/-- The operators between the terms of a sum. -/
inductive SumOp where
  | add | sub
  deriving DecidableEq, Repr

namespace SumOp

def word : SumOp → List Char
  | add => ['+']
  | sub => ['-']

def all : List SumOp := [add, sub]

def value {F : Type} (A : FloatOps F) (x y : F) : SumOp → F
  | add => A.add x y
  | sub => A.sub x y

end SumOp

inductive Comparison where
  | eq | ne | gt | ge | lt | le
  deriving DecidableEq, Repr

namespace Comparison

def word : Comparison → List Char
  | eq => ['e', 'q']
  | ne => ['n', 'e']
  | gt => ['g', 't']
  | ge => ['g', 'e']
  | lt => ['l', 't']
  | le => ['l', 'e']

def all : List Comparison := [eq, ne, gt, ge, lt, le]

def holds {F : Type} (A : FloatOps F) (x y : F) : Comparison → Bool
  | eq => A.near x y
  | ne => !A.near x y
  | gt => A.lt y x
  | ge => A.le y x
  | lt => A.lt x y
  | le => A.le x y

end Comparison

inductive Connective where
  | and | or | xor | nor
  deriving DecidableEq, Repr

namespace Connective

def word : Connective → List Char
  | and => ['a', 'n', 'd']
  | or => ['o', 'r']
  | xor => ['x', 'o', 'r']
  | nor => ['n', 'o', 'r']

def all : List Connective := [and, or, xor, nor]

def holds {F : Type} (A : FloatOps F) (x y : F) : Connective → Bool
  | and => !A.isZero x && !A.isZero y
  | or => !A.isZero x || !A.isZero y
  | xor => !A.isZero x != !A.isZero y
  | nor => A.isZero x && A.isZero y

end Connective

/-- `cond ? 1.0f : 0.0f`. -/
def ofBool {F : Type} (A : FloatOps F) (b : Bool) : F := if b then A.ofNat 1 else A.ofNat 0

/-! ## Variables -/

/-- The variables of the kernel. What the machine gives for the system variables, from the tool length
offset to the position in work coordinates, is a function of the number. -/
structure Variables (F : Type) where
  localParams : Nat → F
  localVars : Nat → F
  probeTipDiameter : F
  probeOutputs : Nat → F
  permVars : Nat → F
  system : Int → F

def systemVariables : List Int :=
  [2000, 3026, 3027, 3033, 5021, 5022, 5023, 5024, 5041, 5042, 5043, 5044]

/-- The value of a variable that may not be set. -/
def ifSet {F : Type} (A : FloatOps F) (num : Int) (x : F) : Except String F :=
  if A.isSet x then .ok x else .error s!"ERROR: Variable {num} not set \n"

/-- What `get_variable_value` gives for a number, or the error that halts the machine. -/
def variableValue {F : Type} (A : FloatOps F) (vars : Variables F) (num : Int) : Except String F :=
  if 1 ≤ num ∧ num ≤ 30 then .ok (vars.localParams (num - 1).toNat)
  else if 101 ≤ num ∧ num ≤ 120 then ifSet A num (vars.localVars (num - 101).toNat)
  else if num = 150 then .ok vars.probeTipDiameter
  else if 151 ≤ num ∧ num ≤ 156 then ifSet A num (vars.probeOutputs (num - 151).toNat)
  else if 501 ≤ num ∧ num ≤ 520 then ifSet A num (vars.permVars (num - 501).toNat)
  else if num ∈ systemVariables then .ok (vars.system num)
  else .error s!"ERROR: Variable {num} not found \n"

/-! ## The evaluator -/

/-- What an evaluation has come to: its value, where it stands, and the errors. -/
structure Parsed (F : Type) where
  value : F
  expr : List Char
  errors : List String := []
  deriving DecidableEq, Repr

namespace Parsed

variable {F : Type}

/-- The evaluation stands behind white space. -/
def skip (r : Parsed F) : Parsed F := { r with expr := ltrim r.expr }

/-- An error, and `NAN`. -/
def fail (r : Parsed F) (A : FloatOps F) (text : String) : Parsed F :=
  { r with value := A.nan, errors := r.errors ++ [text] }

/-- Another evaluation comes after this one, with a value made of both. -/
def andThen (r next : Parsed F) (value : F) : Parsed F := ⟨value, next.expr, r.errors ++ next.errors⟩

end Parsed

variable {F : Type} (A : FloatOps F) (vars : Variables F)

/-- `get_variable_value(expr, &expr)`. -/
def getVariableValue (expr : List Char) : Parsed F :=
  match expr with
  | '#' :: digits =>
    let (num, rest) := (strtol digits).getD (0, digits)
    match variableValue A vars num with
    | .ok value => ⟨value, rest, []⟩
    | .error text => ⟨A.nan, rest, [text]⟩
  | _ => ⟨A.ofNat 0, expr, []⟩

/-- The number of a factor, read up to the first `e`. -/
def readNumber (expr : List Char) : Except String (F × List Char) :=
  let cut := expr.dropWhile fun c => c ≠ 'E' && c ≠ 'e'
  match strtofText (expr.takeWhile fun c => c ≠ 'E' && c ≠ 'e') with
  | some (text, rest) => .ok (A.ofText text, rest ++ cut)
  | none => .error s!"ERROR: Invalid number in expression, {cut.headD (Char.ofNat 0)}\n"

/-- An expression up to the bracket that closes it, with the exponents behind the bracket. -/
def inBrackets (value : F → F) (text : String) (parse : List Char → Option (Parsed F))
    (powers : Parsed F → Option (Parsed F)) (expr : List Char) : Option (Parsed F) :=
  (parse expr).bind fun arg =>
    match arg.expr with
    | ']' :: rest => powers { arg with value := value arg.value, expr := rest }
    | _ => some (arg.fail A text)

/-- An operator between what has been read and all of the expression that follows it. -/
def applyWord {α : Type} (word : α → List Char) (all : List α) (value : α → F → F → F)
    (parse : List Char → Option (Parsed F)) (r : Parsed F) : Option (Parsed F) :=
  match readWord word all r.expr with
  | none => some r
  | some (op, rest) =>
    (parse (ltrim rest)).map fun next => r.andThen next (value op r.value next.value)

mutual

/-- `parse_expression`. -/
def parseExpression : Nat → List Char → Option (Parsed F)
  | 0, _ => none
  | fuel + 1, expr =>
    if expr.head? = some ']' then
      some ⟨A.nan, expr, ["ERROR: Mismatched closing bracket ']' without opening '['\n"]⟩
    else
      (parseTerm fuel expr).bind fun term =>
      (parseSums fuel term.skip).bind fun sum =>
      (applyWord Comparison.word Comparison.all (fun op x y => ofBool A (op.holds A x y))
        (parseExpression fuel) sum).bind
      (applyWord Connective.word Connective.all (fun op x y => ofBool A (op.holds A x y))
        (parseExpression fuel))

/-- The loop of `parse_expression` over the terms of a sum. -/
def parseSums : Nat → Parsed F → Option (Parsed F)
  | 0, _ => none
  | fuel + 1, sum =>
    match readWord SumOp.word SumOp.all sum.expr with
    | none => some sum
    | some (op, rest) =>
      (parseTerm fuel rest).bind fun term =>
        parseSums fuel (sum.andThen term (op.value A sum.value term.value)).skip

/-- `parse_term`. -/
def parseTerm : Nat → List Char → Option (Parsed F)
  | 0, _ => none
  | fuel + 1, expr => (parseFactor fuel expr).bind fun factor => parseProducts fuel factor.skip

/-- The loop of `parse_term` over its factors; a division by zero ends it. -/
def parseProducts : Nat → Parsed F → Option (Parsed F)
  | 0, _ => none
  | fuel + 1, term =>
    match readWord TermOp.word TermOp.all term.expr with
    | none => some term
    | some (op, rest) =>
      (parseFactor fuel (if op = .mod then ltrim rest else rest)).bind fun factor =>
        match op.value A term.value factor.value with
        | .ok value => parseProducts fuel (term.andThen factor value).skip
        | .error text => some ((term.andThen factor A.nan).fail A text)

/-- `parse_factor`. -/
def parseFactor : Nat → List Char → Option (Parsed F)
  | 0, _ => none
  | fuel + 1, expr =>
    let expr := ltrim expr
    match readWord Function.word Function.all expr with
    | some (f, '[' :: rest) =>
      inBrackets A (fun x => f.value A x) "ERROR: Mismatched brackets in function argument\n"
        (parseExpression fuel) (parsePowers fuel) rest
    | some (_, rest) => some ⟨A.nan, rest, ["ERROR: Expected '[' after function name\n"]⟩
    | none =>
      match expr with
      | '[' :: rest =>
        inBrackets A id "ERROR: Mismatched brackets in expression\n" (parseExpression fuel)
          (parsePowers fuel) rest
      | '#' :: _ => parsePowers fuel (getVariableValue A vars expr)
      | _ =>
        match readNumber A expr with
        | .ok (value, rest) => parsePowers fuel ⟨value, rest, []⟩
        | .error text => some ⟨A.nan, expr.dropWhile fun c => c ≠ 'E' && c ≠ 'e', [text]⟩

/-- The loop of `parse_factor` over exponents. -/
def parsePowers : Nat → Parsed F → Option (Parsed F)
  | 0, _ => none
  | fuel + 1, factor =>
    match factor.expr with
    | '^' :: rest =>
      (parseFactor fuel rest).bind fun exponent =>
        parsePowers fuel (factor.andThen exponent (A.pow factor.value exponent.value))
    | _ => some factor

end

/-- Deep enough for the recursion over a text. -/
def parseFuel (expr : List Char) : Nat := 3 * expr.length + 4

/-- What an evaluation gives back: `endptr` stays as it was where a bracket is closed that was not
opened. -/
structure Evaluated (F : Type) where
  value : F
  endptr : Option (List Char)
  errors : List String := []
  deriving DecidableEq, Repr

/-- `evaluate_expression`. -/
def evaluateExpression (expr : List Char) : Option (Evaluated F) :=
  let expr := ltrim expr
  if expr.head? = some ']' then
    some ⟨A.nan, none, ["ERROR: Mismatched closing bracket ']' without opening '['\n"]⟩
  else
    (parseExpression A vars (parseFuel expr) expr).map fun r =>
      if r.expr.head? = some ']' then
        ⟨A.nan, none, r.errors ++ ["ERROR: Mismatched closing bracket at end of expression\n"]⟩
      else ⟨r.value, some r.expr, r.errors⟩

end CarveraFirmware.Gcode
