import Mathlib
import CarveraFirmware.Gcode.ExpressionReads

/-!
# The parts of the evaluator

With the depth of the recursion out of the way: what each part of the evaluator comes to, from what the
parts that it calls come to.
-/

namespace CarveraFirmware.Gcode

open Jobs.OCode (isSpace ltrim strtol)

variable {F : Type}

section Parts

variable (A : FloatOps F) (vars : Variables F) (e : List Char) (x r : Parsed F)

/-- With enough fuel `parse_expression` comes to `r`. -/
def ExpressionIs : Prop := Settles (fun n => parseExpression A vars n e) r

/-- What `parse_expression` comes to in front of a comparison or a connective. -/
def SumIs : Prop :=
  Settles (fun n => (parseTerm A vars n e).bind fun term => parseSums A vars n term.skip) r

def SumsIs : Prop := Settles (fun n => parseSums A vars n x) r

def TermIs : Prop := Settles (fun n => parseTerm A vars n e) r

def ProductsIs : Prop := Settles (fun n => parseProducts A vars n x) r

def FactorIs : Prop := Settles (fun n => parseFactor A vars n e) r

def PowersIs : Prop := Settles (fun n => parsePowers A vars n x) r

end Parts

variable {A : FloatOps F} {vars : Variables F} {e rest : List Char} {x y r : Parsed F}

/-! ## Each part comes to something -/

theorem exists_settles {f : Nat → Option (Parsed F)} (hgrow : Grows f) {n : Nat} {errors : List String}
    (h : Ends (f n) e errors) : ∃ r, Settles f r ∧ errors <+: r.errors := by
  obtain ⟨r, hr, -, hprefix⟩ := h
  exact ⟨r, hgrow.settles hr, hprefix⟩

theorem exists_expressionIs (A : FloatOps F) (vars : Variables F) (e : List Char) :
    ∃ r, ExpressionIs A vars e r := by
  obtain ⟨r, hr, -⟩ := exists_settles (fun n r => (growAt n).expression e r)
    ((endAt A vars (3 * e.length + 4)).expression e le_rfl)
  exact ⟨r, hr⟩

theorem exists_sumsIs (A : FloatOps F) (vars : Variables F) (x : Parsed F) :
    ∃ r, SumsIs A vars x r ∧ x.errors <+: r.errors :=
  exists_settles (fun n r => (growAt n).sums x r) ((endAt A vars (3 * x.expr.length + 2)).sums x le_rfl)

theorem exists_productsIs (A : FloatOps F) (vars : Variables F) (x : Parsed F) :
    ∃ r, ProductsIs A vars x r ∧ x.errors <+: r.errors :=
  exists_settles (fun n r => (growAt n).products x r)
    ((endAt A vars (3 * x.expr.length + 1)).products x le_rfl)

theorem exists_powersIs (A : FloatOps F) (vars : Variables F) (x : Parsed F) :
    ∃ r, PowersIs A vars x r ∧ x.errors <+: r.errors :=
  exists_settles (fun n r => (growAt n).powers x r) ((endAt A vars (3 * x.expr.length + 1)).powers x le_rfl)

/-! ## How the parts are put together -/

theorem powers_stop (h : x.expr.head? ≠ some '^') : PowersIs A vars x x := by
  refine ((Settles.const x).imp fun m hx => ?_).succ
  rw [parsePowers]
  split
  · next heq => rw [heq] at h; exact absurd rfl h
  · exact hx

theorem powers_step (hx : x.expr = '^' :: rest) (hy : FactorIs A vars rest y)
    (hr : PowersIs A vars (x.andThen y (A.pow x.value y.value)) r) : PowersIs A vars x r := by
  refine (hy.join hr fun m hy hr => ?_).succ
  rw [parsePowers, hx]
  show (parseFactor A vars m rest).bind _ = _
  rw [hy]
  exact hr

theorem products_stop (h : readWord TermOp.word TermOp.all x.expr = none) : ProductsIs A vars x x := by
  refine ((Settles.const x).imp fun m hx => ?_).succ
  rw [parseProducts, h]

theorem factor_ltrim (n : Nat) (e : List Char) : parseFactor A vars n (ltrim e) = parseFactor A vars n e := by
  cases n with
  | zero => rfl
  | succ n => rw [parseFactor, parseFactor, ltrim_ltrim]

theorem term_ltrim (n : Nat) (e : List Char) : parseTerm A vars n (ltrim e) = parseTerm A vars n e := by
  cases n with
  | zero => rfl
  | succ n => rw [parseTerm, parseTerm, factor_ltrim]

/-- The white space that is skipped behind `mod` would be skipped by the factor. -/
theorem factor_behind (op : TermOp) (n : Nat) (e : List Char) :
    parseFactor A vars n (if op = .mod then ltrim e else e) = parseFactor A vars n e := by
  split
  · exact factor_ltrim n e
  · rfl

theorem products_step {op : TermOp} {value : F}
    (hx : readWord TermOp.word TermOp.all x.expr = some (op, rest))
    (hy : FactorIs A vars rest y) (hvalue : op.value A x.value y.value = .ok value)
    (hr : ProductsIs A vars (x.andThen y value).skip r) : ProductsIs A vars x r := by
  refine (hy.join hr fun m hy hr => ?_).succ
  rw [parseProducts, hx]
  show (parseFactor A vars m (if op = .mod then ltrim rest else rest)).bind _ = _
  rw [factor_behind, hy, Option.bind_some, hvalue]
  exact hr

/-- A division by zero ends the term. -/
theorem products_error {op : TermOp} {text : String}
    (hx : readWord TermOp.word TermOp.all x.expr = some (op, rest)) (hy : FactorIs A vars rest y)
    (hvalue : op.value A x.value y.value = .error text) :
    ProductsIs A vars x ((x.andThen y A.nan).fail A text) := by
  refine (hy.imp fun m hy => ?_).succ
  rw [parseProducts, hx]
  show (parseFactor A vars m (if op = .mod then ltrim rest else rest)).bind _ = _
  rw [factor_behind, hy, Option.bind_some, hvalue]

theorem term_of (hy : FactorIs A vars e y) (hr : ProductsIs A vars y.skip r) : TermIs A vars e r := by
  refine (hy.join hr fun m hy hr => ?_).succ
  rw [parseTerm, hy]
  exact hr

theorem sums_stop (h : readWord SumOp.word SumOp.all x.expr = none) : SumsIs A vars x x := by
  refine ((Settles.const x).imp fun m hx => ?_).succ
  rw [parseSums, h]

theorem sums_step {op : SumOp} (hx : readWord SumOp.word SumOp.all x.expr = some (op, rest))
    (hy : TermIs A vars rest y) (hr : SumsIs A vars (x.andThen y (op.value A x.value y.value)).skip r) :
    SumsIs A vars x r := by
  refine (hy.join hr fun m hy hr => ?_).succ
  rw [parseSums, hx]
  show (parseTerm A vars m rest).bind _ = _
  rw [hy]
  exact hr

theorem sum_of (hy : TermIs A vars e y) (hr : SumsIs A vars y.skip r) : SumIs A vars e r := by
  refine hy.join hr fun m hy hr => ?_
  show (parseTerm A vars m e).bind _ = _
  rw [hy]
  exact hr

section Operators

variable {α : Type} {word : α → List Char} {all : List α} {value : α → F → F → F}

theorem applyWord_stop (h : readWord word all x.expr = none) :
    Settles (fun n => applyWord word all value (parseExpression A vars n) x) x := by
  refine (Settles.const x).imp fun m hx => ?_
  unfold applyWord
  rw [h]

theorem applyWord_step {op : α} (h : readWord word all x.expr = some (op, rest))
    (hy : ExpressionIs A vars (ltrim rest) y) :
    Settles (fun n => applyWord word all value (parseExpression A vars n) x)
      (x.andThen y (value op x.value y.value)) := by
  refine hy.imp fun m hy => ?_
  unfold applyWord
  rw [h]
  show (parseExpression A vars m (ltrim rest)).map _ = _
  rw [hy]
  rfl

theorem exists_applyWord (A : FloatOps F) (vars : Variables F) (word : α → List Char) (all : List α)
    (value : α → F → F → F) (x : Parsed F) :
    ∃ r, Settles (fun n => applyWord word all value (parseExpression A vars n) x) r ∧
      x.errors <+: r.errors := by
  cases h : readWord word all x.expr with
  | none => exact ⟨x, applyWord_stop h, List.prefix_refl _⟩
  | some found =>
    obtain ⟨y, hy⟩ := exists_expressionIs A vars (ltrim found.2)
    exact ⟨_, applyWord_step h hy, List.prefix_append _ _⟩

end Operators

/-- The three stages of `parse_expression`. -/
theorem expression_of {sum compared : Parsed F} (hhead : e.head? ≠ some ']') (hsum : SumIs A vars e sum)
    (hcompared : Settles (fun n => applyWord Comparison.word Comparison.all
      (fun op x y => ofBool A (op.holds A x y)) (parseExpression A vars n) sum) compared)
    (hr : Settles (fun n => applyWord Connective.word Connective.all
      (fun op x y => ofBool A (op.holds A x y)) (parseExpression A vars n) compared) r) :
    ExpressionIs A vars e r := by
  have hlater : Settles (fun n => (applyWord Comparison.word Comparison.all
      (fun op x y => ofBool A (op.holds A x y)) (parseExpression A vars n) sum).bind
        (applyWord Connective.word Connective.all (fun op x y => ofBool A (op.holds A x y))
          (parseExpression A vars n))) r := by
    refine hcompared.join hr fun m hcompared hr => ?_
    show (applyWord _ _ _ _ sum).bind _ = _
    rw [hcompared]
    exact hr
  refine (hsum.join hlater fun m hsum hlater => ?_).succ
  obtain ⟨term, hterm, hsums⟩ := Option.bind_eq_some_iff.mp hsum
  rw [parseExpression, if_neg hhead, hterm]
  show (parseSums A vars m term.skip).bind _ = _
  rw [hsums]
  exact hlater

/-- White space in front of an expression is skipped with the first factor. -/
theorem expression_ltrim (h : (ltrim e).head? ≠ some ']') (n : Nat) :
    parseExpression A vars n (ltrim e) = parseExpression A vars n e := by
  have he : e.head? ≠ some ']' := by
    intro heq
    cases e with
    | nil => exact absurd heq (by simp)
    | cons c e =>
      obtain rfl : c = ']' := by simpa using heq
      exact h (by rw [ltrim_cons (by decide)]; rfl)
  cases n with
  | zero => rfl
  | succ n => rw [parseExpression, parseExpression, if_neg h, if_neg he, term_ltrim]

section Factors

variable {c : Char} {l : List Char} {value : F → F} {text : String}

/-- None of the functions begins with anything but a lower-case letter. -/
theorem function_none (h : ∀ f : Function, f.word.head? ≠ some c) (l : List Char) :
    readWord Function.word Function.all (c :: l) = none := by
  refine readWord_none fun f _ => ?_
  obtain ⟨d, w, hw⟩ := List.exists_cons_of_ne_nil f.word_ne_nil
  refine ⟨d, by rw [hw]; rfl, ?_⟩
  intro heq
  refine h f ?_
  rw [hw]
  exact heq.symm

theorem factor_number {v : F} (htrim : ltrim e = c :: l) (hc : DecimalChar c)
    (hread : readNumber A (c :: l) = .ok (v, rest)) (hr : PowersIs A vars ⟨v, rest, []⟩ r) :
    FactorIs A vars e r := by
  have hne : ∀ d : Char, d.isDigit = false → d ≠ '+' → d ≠ '-' → d ≠ '.' → c ≠ d := by
    rintro d hdigit hplus hminus hdot rfl
    obtain h | h | h | h := hc
    · rw [hdigit] at h
      exact absurd h (by decide)
    · exact hplus h
    · exact hminus h
    · exact hdot h
  have hnone : readWord Function.word Function.all (c :: l) = none := by
    refine function_none (fun f heq => ?_) l
    obtain ⟨d, w, hw⟩ := List.exists_cons_of_ne_nil f.word_ne_nil
    have hd : d.isDigit = false ∧ d ≠ '+' ∧ d ≠ '-' ∧ d ≠ '.' := by
      cases f
      all_goals
        obtain rfl : _ = d := (List.cons.inj hw).1
        decide
    rw [hw] at heq
    exact hne d hd.1 hd.2.1 hd.2.2.1 hd.2.2.2 (Option.some.inj heq).symm
  refine (hr.imp fun m hr => ?_).succ
  rw [parseFactor, htrim, hnone]
  dsimp only
  split
  · next heq => exact absurd (List.cons.inj heq).1 (hne '[' (by decide) (by decide) (by decide) (by decide))
  · next heq => exact absurd (List.cons.inj heq).1 (hne '#' (by decide) (by decide) (by decide) (by decide))
  · rw [hread]
    exact hr

theorem getVariableValue_ok {l rest : List Char} {n : Int} {v : F} (hread : strtol l = some (n, rest))
    (hvalue : variableValue A vars n = .ok v) : getVariableValue A vars ('#' :: l) = ⟨v, rest, []⟩ := by
  simp only [getVariableValue, hread, Option.getD_some, hvalue]

theorem getVariableValue_error {l rest : List Char} {n : Int} {text : String}
    (hread : strtol l = some (n, rest)) (hvalue : variableValue A vars n = .error text) :
    getVariableValue A vars ('#' :: l) = ⟨A.nan, rest, [text]⟩ := by
  simp only [getVariableValue, hread, Option.getD_some, hvalue]

theorem factor_var (htrim : ltrim e = '#' :: l)
    (hr : PowersIs A vars (getVariableValue A vars ('#' :: l)) r) :
    FactorIs A vars e r := by
  have hnone : readWord Function.word Function.all ('#' :: l) = none :=
    function_none (fun f => by cases f <;> decide) l
  refine (hr.imp fun m hr => ?_).succ
  rw [parseFactor, htrim, hnone]
  exact hr

theorem factor_bracket (htrim : ltrim e = '[' :: l)
    (hr : Settles (fun n => inBrackets A id "ERROR: Mismatched brackets in expression\n"
      (parseExpression A vars n) (parsePowers A vars n) l) r) : FactorIs A vars e r := by
  have hnone : readWord Function.word Function.all ('[' :: l) = none :=
    function_none (fun f => by cases f <;> decide) l
  refine (hr.imp fun m hr => ?_).succ
  rw [parseFactor, htrim, hnone]
  exact hr

theorem factor_call (f : Function) (htrim : ltrim e = f.word ++ '[' :: l)
    (hr : Settles (fun n => inBrackets A (fun x => f.value A x)
      "ERROR: Mismatched brackets in function argument\n" (parseExpression A vars n)
      (parsePowers A vars n) l) r) : FactorIs A vars e r := by
  refine (hr.imp fun m hr => ?_).succ
  rw [parseFactor, htrim, readWord_function]
  exact hr

/-- An expression in brackets, up to the bracket that closes it. -/
theorem bracket_step (hx : ExpressionIs A vars l x) (hclose : x.expr = ']' :: rest)
    (hr : PowersIs A vars { x with value := value x.value, expr := rest } r) :
    Settles (fun n => inBrackets A value text (parseExpression A vars n) (parsePowers A vars n) l) r := by
  refine hx.join hr fun m hx hr => ?_
  unfold inBrackets
  rw [hx, Option.bind_some, hclose]
  exact hr

/-- Whatever stands behind the expression in brackets, its errors come first. -/
theorem exists_bracket (hx : ExpressionIs A vars l x) (value : F → F) (text : String) :
    ∃ r, Settles (fun n => inBrackets A value text (parseExpression A vars n) (parsePowers A vars n) l) r ∧
      x.errors <+: r.errors := by
  by_cases hclose : ∃ rest, x.expr = ']' :: rest
  · obtain ⟨rest, hclose⟩ := hclose
    obtain ⟨r, hr, hprefix⟩ := exists_powersIs A vars
      { x with value := value x.value, expr := rest }
    exact ⟨r, bracket_step hx hclose hr, hprefix⟩
  · refine ⟨x.fail A text, ?_, List.prefix_append _ _⟩
    refine hx.imp fun m hx => ?_
    unfold inBrackets
    rw [hx, Option.bind_some]
    split
    · next heq => exact absurd ⟨_, heq⟩ hclose
    · rfl

end Factors

/-! ## Errors come in order -/

theorem head_kept {errors errors' : List String} {text : String} (h : errors <+: errors')
    (hhead : errors.head? = some text) : errors'.head? = some text := by
  obtain ⟨later, rfl⟩ := h
  cases errors with
  | nil => exact absurd hhead (by simp)
  | cons first errors => exact hhead

/-- The errors of a comparison come before those behind it. -/
theorem exists_of_compared {sum compared : Parsed F} (hhead : e.head? ≠ some ']') (hsum : SumIs A vars e sum)
    (hcompared : Settles (fun n => applyWord Comparison.word Comparison.all
      (fun op x y => ofBool A (op.holds A x y)) (parseExpression A vars n) sum) compared) :
    ∃ r, ExpressionIs A vars e r ∧ compared.errors <+: r.errors := by
  obtain ⟨r, hr, hprefix⟩ := exists_applyWord A vars Connective.word Connective.all
    (fun op x y => ofBool A (op.holds A x y)) compared
  exact ⟨r, expression_of hhead hsum hcompared hr, hprefix⟩

theorem exists_of_sum {sum : Parsed F} (hhead : e.head? ≠ some ']') (hsum : SumIs A vars e sum) :
    ∃ r, ExpressionIs A vars e r ∧ sum.errors <+: r.errors := by
  obtain ⟨compared, hcompared, hprefix⟩ := exists_applyWord A vars Comparison.word
    Comparison.all (fun op x y => ofBool A (op.holds A x y)) sum
  obtain ⟨r, hr, hlater⟩ := exists_of_compared hhead hsum hcompared
  exact ⟨r, hr, hprefix.trans hlater⟩

end CarveraFirmware.Gcode
