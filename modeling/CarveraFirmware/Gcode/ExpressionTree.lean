import Mathlib
import CarveraFirmware.Gcode.Expression

/-!
# What an expression means

Expressions as trees, with their meaning, and the spellings of a tree. Multiplication binds closer than
addition; a comparison, or an operator such as `and`, takes all that follows it for its right side. An
exponent binds closest of all, closer than the sign of the number in front of it.
-/

namespace CarveraFirmware.Gcode

open Jobs.OCode (isSpace ltrim strtol)

/-- An expression. A number is given by its text. -/
inductive Expr where
  | number (text : List Char)
  | var (num : Int)
  | call (f : Function) (x : Expr)
  | pow (x y : Expr)
  | term (op : TermOp) (x y : Expr)
  | sum (op : SumOp) (x y : Expr)
  | compare (op : Comparison) (x y : Expr)
  | connect (op : Connective) (x y : Expr)
  deriving DecidableEq, Repr

namespace Expr

variable {F : Type} (A : FloatOps F) (vars : Variables F)

/-- The meaning of an expression: its value, or the first error on the way from left to right. -/
def value : Expr → Except String F
  | number text => .ok (A.ofText text)
  | var num => variableValue A vars num
  | call f x => x.value.bind fun x => .ok (f.value A x)
  | pow x y => x.value.bind fun x => y.value.bind fun y => .ok (A.pow x y)
  | term op x y => x.value.bind fun x => y.value.bind fun y => op.value A x y
  | sum op x y => x.value.bind fun x => y.value.bind fun y => .ok (op.value A x y)
  | compare op x y => x.value.bind fun x => y.value.bind fun y => .ok (ofBool A (op.holds A x y))
  | connect op x y => x.value.bind fun x => y.value.bind fun y => .ok (ofBool A (op.holds A x y))

end Expr

/-! ## Spellings -/

def IsSign (sign : List Char) : Prop := sign = [] ∨ sign = ['+'] ∨ sign = ['-']

/-- A decimal number, with a sign or without one. -/
inductive Decimal : List Char → Prop
  | whole {sign digits : List Char} (hsign : IsSign sign) (hdigits : ∀ c ∈ digits, c.isDigit)
      (hne : digits ≠ []) : Decimal (sign ++ digits)
  | point {sign whole frac : List Char} (hsign : IsSign sign)
      (hwhole : ∀ c ∈ whole, c.isDigit) (hfrac : ∀ c ∈ frac, c.isDigit) (hne : whole ≠ [] ∨ frac ≠ []) :
      Decimal (sign ++ (whole ++ '.' :: frac))

/-- How close the operators of a text bind. -/
inductive Level where
  | primary | factor | term | sum | expression
  deriving DecidableEq, Repr

/-- White space. -/
def Spaces (ws : List Char) : Prop := ∀ c ∈ ws, isSpace c = true

/-- The texts that spell a tree, with numbers that satisfy `num`. -/
inductive Spells (num : List Char → Prop) : Level → List Char → Expr → Prop
  | number {text : List Char} (h : num text) : Spells num .primary text (.number text)
  | var {digits : List Char} {n : Int} (h : strtol digits = some (n, [])) :
      Spells num .primary ('#' :: digits) (.var n)
  | call {s : List Char} {x : Expr} (f : Function) (h : Spells num .expression s x) :
      Spells num .primary (f.word ++ '[' :: (s ++ [']'])) (.call f x)
  | bracket {s : List Char} {x : Expr} (h : Spells num .expression s x) :
      Spells num .primary ('[' :: (s ++ [']'])) x
  | factor {ws s : List Char} {x : Expr} (hws : Spaces ws) (h : Spells num .primary s x) :
      Spells num .factor (ws ++ s) x
  | pow {ws s t : List Char} {x y : Expr} (hws : Spaces ws) (hx : Spells num .primary s x)
      (hy : Spells num .factor t y) : Spells num .factor (ws ++ (s ++ '^' :: t)) (.pow x y)
  | term {s : List Char} {x : Expr} (h : Spells num .factor s x) : Spells num .term s x
  | product {ws s t : List Char} {x y : Expr} (op : TermOp) (hx : Spells num .term s x)
      (hws : Spaces ws) (hy : Spells num .factor t y) :
      Spells num .term (s ++ (ws ++ (op.word ++ t))) (.term op x y)
  | sum {s : List Char} {x : Expr} (h : Spells num .term s x) : Spells num .sum s x
  | plus {ws s t : List Char} {x y : Expr} (op : SumOp) (hx : Spells num .sum s x) (hws : Spaces ws)
      (hy : Spells num .term t y) : Spells num .sum (s ++ (ws ++ (op.word ++ t))) (.sum op x y)
  | expression {ws s : List Char} {x : Expr} (h : Spells num .sum s x) (hws : Spaces ws) :
      Spells num .expression (s ++ ws) x
  | compare {ws s t : List Char} {x y : Expr} (op : Comparison) (hx : Spells num .sum s x)
      (hws : Spaces ws) (hy : Spells num .expression t y) :
      Spells num .expression (s ++ (ws ++ (op.word ++ t))) (.compare op x y)
  | connect {ws s t : List Char} {x y : Expr} (op : Connective) (hx : Spells num .sum s x)
      (hws : Spaces ws) (hy : Spells num .expression t y) :
      Spells num .expression (s ++ (ws ++ (op.word ++ t))) (.connect op x y)

/-! ## What may follow -/

/-- The text up to the first `e`. -/
def upToE (l : List Char) : List Char := l.takeWhile fun c => c ≠ 'E' && c ≠ 'e'

/-- A decimal number ends in front of the text: no digit, no point, and nothing that would make a
hexadecimal number of a zero. -/
def numberStops (rest : List Char) : Prop :=
  (∀ c ∈ rest.head?, c.isDigit = false ∧ c ≠ '.') ∧ hexText ('0' :: upToE rest) = none

/-- A factor ends in front of the text. -/
def factorStops (rest : List Char) : Prop := numberStops rest ∧ rest.head? ≠ some '^'

/-- A term ends in front of the text. -/
def termStops (rest : List Char) : Prop :=
  factorStops rest ∧ readWord TermOp.word TermOp.all (ltrim rest) = none

def sumStops (rest : List Char) : Prop :=
  termStops rest ∧ readWord SumOp.word SumOp.all (ltrim rest) = none

/-- An expression ends in front of the text. -/
def expressionStops (rest : List Char) : Prop :=
  sumStops rest ∧ readWord Comparison.word Comparison.all (ltrim rest) = none ∧
    readWord Connective.word Connective.all (ltrim rest) = none

end CarveraFirmware.Gcode
