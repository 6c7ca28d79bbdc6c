import Mathlib
import CarveraFirmware.Gcode.ExpressionMeaning
import CarveraFirmware.Gcode.ExpressionSound

/-!
# Assignments to variables

`Gcode::set_variable_value`, to which `GcodeDispatch` gives each line that begins with `#`. Lines of
assignments run as a program of assignments means, from what reading the variables gives before to what
it gives afterwards. What is only printed is left out.
-/

namespace CarveraFirmware.Gcode

open Jobs.OCode (isSpace ltrim strtol)

variable {F : Type}

/-! ## The code -/

/-- What an assignment gives back, with the variables and the errors. -/
structure Assigned (F : Type) where
  value : F
  vars : Variables F
  errors : List String := []

/-- The end of `set_variable_value`, where the variable takes its value. -/
def storeVariable (A : FloatOps F) (vars : Variables F) (num : Int) (value : F) : Assigned F :=
  if 1 ≤ num ∧ num ≤ 30 then
    ⟨value, { vars with localParams := Function.update vars.localParams (num - 1).toNat value }, []⟩
  else if 101 ≤ num ∧ num ≤ 120 then
    ⟨value, { vars with localVars := Function.update vars.localVars (num - 101).toNat value }, []⟩
  else if num = 150 then
    if A.lt (A.ofNat 0) value && A.lt value (A.ofNat 10) then
      ⟨value, { vars with probeTipDiameter := value }, []⟩
    else ⟨A.nan, vars, []⟩
  else if 501 ≤ num ∧ num ≤ 520 then
    ⟨value, { vars with permVars := Function.update vars.permVars (num - 501).toNat value }, []⟩
  else ⟨A.nan, vars, [s!"ERROR: Variable {num} out of range \n"]⟩

/-- What is not a number is not stored. -/
def storeEvaluated (A : FloatOps F) (vars : Variables F) (num : Int) (r : Evaluated F) : Assigned F :=
  if A.isNan r.value then ⟨A.nan, vars, r.errors⟩
  else
    { storeVariable A vars num r.value with
      errors := r.errors ++ (storeVariable A vars num r.value).errors }

/-- `set_variable_value`: without `=` the value is only printed. -/
def setVariableValue (A : FloatOps F) (vars : Variables F) (command : List Char) : Option (Assigned F) :=
  match command with
  | '#' :: digits =>
    let (num, rest) := (strtol digits).getD (0, digits)
    match ltrim rest with
    | '=' :: rest =>
      (evaluateExpression A vars (ltrim rest)).map (storeEvaluated A vars num)
    | _ => some ⟨A.nan, vars, (getVariableValue A vars command).errors⟩
  | _ => some ⟨A.ofNat 0, vars, ["Variable not found \n"]⟩

/-- One line after another, as the dispatcher gives them to `set_variable_value`, in a halted machine as
well. -/
def runLines (A : FloatOps F) : Variables F → List (List Char) → Option (Variables F × List String)
  | vars, [] => some (vars, [])
  | vars, line :: lines =>
    (setVariableValue A vars line).bind fun r =>
      (runLines A r.vars lines).map fun later => (later.1, r.errors ++ later.2)

/-! ## What a program means -/

/-- What reading each variable gives. -/
abbrev Env (F : Type) := Int → Except String F

/-- The meaning of an expression where the variables are given. -/
def Expr.meaning (A : FloatOps F) (env : Env F) : Expr → Except String F
  | number text => .ok (A.ofText text)
  | var num => env num
  | call f x => (x.meaning A env).bind fun x => .ok (f.value A x)
  | pow x y => (x.meaning A env).bind fun x => (y.meaning A env).bind fun y => .ok (A.pow x y)
  | term op x y => (x.meaning A env).bind fun x => (y.meaning A env).bind fun y => op.value A x y
  | sum op x y => (x.meaning A env).bind fun x => (y.meaning A env).bind fun y => .ok (op.value A x y)
  | compare op x y =>
    (x.meaning A env).bind fun x => (y.meaning A env).bind fun y => .ok (ofBool A (op.holds A x y))
  | connect op x y =>
    (x.meaning A env).bind fun x => (y.meaning A env).bind fun y => .ok (ofBool A (op.holds A x y))

/-- What is read after a value has been assigned. A variable that holds a very low value counts as not set,
but for the parameters of a call and the diameter of the probe's tip. -/
def Env.assign (A : FloatOps F) (env : Env F) (num : Int) (value : F) : Except String (Env F) :=
  if A.isNan value then .ok env
  else if 1 ≤ num ∧ num ≤ 30 then .ok (Function.update env num (.ok value))
  else if 101 ≤ num ∧ num ≤ 120 ∨ 501 ≤ num ∧ num ≤ 520 then
    .ok (Function.update env num (ifSet A num value))
  else if num = 150 then
    .ok (if A.lt (A.ofNat 0) value && A.lt value (A.ofNat 10) then Function.update env num (.ok value)
      else env)
  else .error s!"ERROR: Variable {num} out of range \n"

/-- What a program of assignments means. -/
def programMeaning (A : FloatOps F) : Env F → List (Int × Expr) → Except String (Env F)
  | env, [] => .ok env
  | env, (num, x) :: program =>
    (x.meaning A env).bind fun value =>
      (env.assign A num value).bind fun env => programMeaning A env program

/-- A line that spells an assignment. -/
inductive SpellsLine : List Char → Int × Expr → Prop
  | assign {digits ws s : List Char} {num : Int} {x : Expr} (hnum : strtol digits = some (num, []))
      (hws : Spaces ws) (hx : Spells Decimal .expression s x) :
      SpellsLine ('#' :: (digits ++ (ws ++ '=' :: s))) (num, x)

/-! ## Storing and reading -/

variable {A : FloatOps F} {vars : Variables F}

theorem Expr.value_eq (x : Expr) : x.value A vars = x.meaning A (variableValue A vars) := by
  induction x with
  | number text => rfl
  | var num => rfl
  | call f x ih => rw [Expr.value, Expr.meaning, ih]
  | pow x y ihx ihy => rw [Expr.value, Expr.meaning, ihx, ihy]
  | term op x y ihx ihy => rw [Expr.value, Expr.meaning, ihx, ihy]
  | sum op x y ihx ihy => rw [Expr.value, Expr.meaning, ihx, ihy]
  | compare op x y ihx ihy => rw [Expr.value, Expr.meaning, ihx, ihy]
  | connect op x y ihx ihy => rw [Expr.value, Expr.meaning, ihx, ihy]

section Store

variable {num : Int} {value : F}

theorem read_localParams (h : 1 ≤ num ∧ num ≤ 30) :
    variableValue A { vars with localParams := Function.update vars.localParams (num - 1).toNat value } =
      Function.update (variableValue A vars) num (.ok value) := by
  funext m
  by_cases hm : m = num
  · subst hm
    rw [Function.update_self]
    unfold variableValue
    rw [if_pos h]
    dsimp only
    rw [Function.update_self]
  · rw [Function.update_of_ne hm]
    unfold variableValue
    by_cases hrange : 1 ≤ m ∧ m ≤ 30
    · have hother : (m - 1).toNat ≠ (num - 1).toNat := by omega
      rw [if_pos hrange, if_pos hrange]
      dsimp only
      rw [Function.update_of_ne hother]
    · rw [if_neg hrange, if_neg hrange]

theorem read_localVars (h : 101 ≤ num ∧ num ≤ 120) :
    variableValue A { vars with localVars := Function.update vars.localVars (num - 101).toNat value } =
      Function.update (variableValue A vars) num (ifSet A num value) := by
  funext m
  by_cases hm : m = num
  · subst hm
    rw [Function.update_self]
    unfold variableValue
    rw [if_neg (by omega), if_pos h]
    dsimp only
    rw [Function.update_self]
  · rw [Function.update_of_ne hm]
    unfold variableValue
    by_cases hrange : 101 ≤ m ∧ m ≤ 120
    · have hother : (m - 101).toNat ≠ (num - 101).toNat := by omega
      dsimp only
      rw [Function.update_of_ne hother]
    · rw [if_neg hrange, if_neg hrange]

theorem read_permVars (h : 501 ≤ num ∧ num ≤ 520) :
    variableValue A { vars with permVars := Function.update vars.permVars (num - 501).toNat value } =
      Function.update (variableValue A vars) num (ifSet A num value) := by
  funext m
  by_cases hm : m = num
  · subst hm
    rw [Function.update_self]
    unfold variableValue
    rw [if_neg (by omega), if_neg (by omega), if_neg (by omega), if_neg (by omega), if_pos h]
    dsimp only
    rw [Function.update_self]
  · rw [Function.update_of_ne hm]
    unfold variableValue
    by_cases hrange : 501 ≤ m ∧ m ≤ 520
    · have hother : (m - 501).toNat ≠ (num - 501).toNat := by omega
      dsimp only
      rw [Function.update_of_ne hother]
    · rw [if_neg hrange, if_neg hrange]

theorem read_probeTipDiameter :
    variableValue A { vars with probeTipDiameter := value } =
      Function.update (variableValue A vars) 150 (.ok value) := by
  funext m
  by_cases hm : m = 150
  · subst hm
    rw [Function.update_self]
    rfl
  · rw [Function.update_of_ne hm]
    unfold variableValue
    rw [if_neg hm, if_neg hm]

/-- What a variable takes is what is read from it afterwards, and no other variable changes. -/
theorem storeVariable_assign (A : FloatOps F) (vars : Variables F) (num : Int) (value : F)
    (hnan : A.isNan value = false) :
    ((storeVariable A vars num value).errors = [] ∧ Env.assign A (variableValue A vars) num value =
      .ok (variableValue A (storeVariable A vars num value).vars)) ∨
    ∃ text, (storeVariable A vars num value).errors = [text] ∧
      Env.assign A (variableValue A vars) num value = .error text := by
  have hnumber : ¬A.isNan value = true := by simp [hnan]
  -- the two ask for the ranges in a different order, but the ranges do not overlap
  unfold storeVariable Env.assign
  rw [if_neg hnumber]
  by_cases hparam : 1 ≤ num ∧ num ≤ 30
  · rw [if_pos hparam, if_pos hparam]
    exact Or.inl ⟨rfl, congrArg _ (read_localParams hparam).symm⟩
  · rw [if_neg hparam, if_neg hparam]
    by_cases hlocal : 101 ≤ num ∧ num ≤ 120
    · rw [if_pos hlocal, if_pos (Or.inl hlocal)]
      exact Or.inl ⟨rfl, congrArg _ (read_localVars hlocal).symm⟩
    · rw [if_neg hlocal]
      by_cases htip : num = 150
      · subst htip
        have hranges : ¬((101 : Int) ≤ 150 ∧ (150 : Int) ≤ 120 ∨ (501 : Int) ≤ 150 ∧ (150 : Int) ≤ 520) := by
          decide
        rw [if_neg hranges, if_pos rfl, if_pos rfl]
        by_cases hbound : (A.lt (A.ofNat 0) value && A.lt value (A.ofNat 10)) = true
        · rw [if_pos hbound, if_pos hbound]
          exact Or.inl ⟨rfl, congrArg _ read_probeTipDiameter.symm⟩
        · rw [if_neg hbound, if_neg hbound]
          exact Or.inl ⟨rfl, rfl⟩
      · rw [if_neg htip]
        by_cases hperm : 501 ≤ num ∧ num ≤ 520
        · rw [if_pos hperm, if_pos (Or.inr hperm)]
          exact Or.inl ⟨rfl, congrArg _ (read_permVars hperm).symm⟩
        · rw [if_neg hperm, if_neg (by tauto), if_neg htip]
          exact Or.inr ⟨_, rfl, rfl⟩

end Store

/-! ## Lines of assignments -/

/-- What a line or a program of assignments comes to: where it means an error, this error is the first. -/
structure Comes (A : FloatOps F) (meaning : Except String (Env F)) (vars : Variables F)
    (errors : List String) : Prop where
  value : ∀ env, meaning = .ok env → errors = [] ∧ variableValue A vars = env
  fault : ∀ text, meaning = .error text → errors.head? = some text

/-- The meaning of one assignment. -/
def Env.step (A : FloatOps F) (env : Env F) (num : Int) (x : Expr) : Except String (Env F) :=
  (x.meaning A env).bind fun value => Env.assign A env num value

section Lines

variable {num : Int} {x : Expr} {line : List Char}

theorem Comes.of_ok {env : Env F} {errors : List String} (herrors : errors = [])
    (h : variableValue A vars = env) : Comes A (.ok env) vars errors := by
  refine ⟨?_, fun text htext => absurd htext (by simp)⟩
  intro env' henv
  obtain rfl := Except.ok.inj henv
  exact ⟨herrors, h⟩

theorem Comes.of_error {text : String} {errors : List String} (h : errors.head? = some text) :
    Comes A (.error text) vars errors := by
  refine ⟨fun env henv => absurd henv (by simp), ?_⟩
  intro first hfirst
  obtain rfl := Except.error.inj hfirst
  exact h

theorem storeEvaluated_comes {rest : Option (List Char)} {value : F} :
    Comes A (Env.assign A (variableValue A vars) num value)
      (storeEvaluated A vars num ⟨value, rest, []⟩).vars
      (storeEvaluated A vars num ⟨value, rest, []⟩).errors := by
  unfold storeEvaluated
  cases hnan : A.isNan value with
  | true =>
    have hsame : Env.assign A (variableValue A vars) num value = .ok (variableValue A vars) := if_pos hnan
    rw [hsame]
    exact .of_ok rfl rfl
  | false =>
    obtain ⟨herrors, hassign⟩ | ⟨text, herrors, hassign⟩ :=
      storeVariable_assign A vars num value hnan
    · rw [hassign]
      exact .of_ok herrors rfl
    · rw [hassign]
      exact .of_error (congrArg List.head? herrors)

theorem storeEvaluated_errors (r : Evaluated F) {text : String} (h : r.errors.head? = some text) :
    (storeEvaluated A vars num r).errors.head? = some text := by
  unfold storeEvaluated
  split
  · exact h
  · exact head_kept (List.prefix_append _ _) h

theorem evaluateExpression_ltrim (s : List Char) :
    evaluateExpression A vars (ltrim s) = evaluateExpression A vars s := by
  unfold evaluateExpression
  rw [ltrim_ltrim]

theorem setVariableValue_eq {digits ws s : List Char} (hnum : strtol digits = some (num, []))
    (hws : Spaces ws) : setVariableValue A vars ('#' :: (digits ++ (ws ++ '=' :: s))) =
      (evaluateExpression A vars s).map (storeEvaluated A vars num) := by
  -- the number ends in front of the white space or the `=`
  have hstop : ∀ c ∈ (ws ++ '=' :: s).head?, c.isDigit = false := by
    intro c hc
    cases ws with
    | nil =>
      obtain rfl : '=' = c := Option.some.inj hc
      rfl
    | cons d ws =>
      obtain rfl : d = c := Option.some.inj hc
      obtain rfl | rfl | rfl | rfl | rfl | rfl := isSpace_cases (hws d List.mem_cons_self)
      all_goals rfl
  have htrim : ltrim (ws ++ '=' :: s) = '=' :: s := by
    rw [ltrim_spaces hws, ltrim_cons (by decide)]
  rw [setVariableValue, strtol_append hnum hstop, Option.getD_some]
  dsimp only
  rw [htrim]
  exact congrArg (Option.map _) (evaluateExpression_ltrim s)

/-- A line that spells an assignment does what the assignment means. -/
theorem SpellsLine.comes (A : FloatOps F) (vars : Variables F) (h : SpellsLine line (num, x)) :
    ∃ r, setVariableValue A vars line = some r ∧
      Comes A (Env.step A (variableValue A vars) num x) r.vars r.errors := by
  obtain ⟨hnum, hws, hx⟩ := h
  rw [setVariableValue_eq hnum hws]
  unfold Env.step
  rw [← Expr.value_eq]
  cases hvalue : x.value A vars with
  | ok value =>
    have heval := evaluateExpression_value hx expressionStops_nil (by decide) hvalue
    rw [List.append_nil] at heval
    rw [heval]
    exact ⟨_, rfl, storeEvaluated_comes⟩
  | error text =>
    obtain ⟨r, heval, hfault⟩ := evaluateExpression_fault hx expressionStops_nil hvalue
    rw [List.append_nil] at heval
    rw [heval]
    exact ⟨_, rfl, .of_error (storeEvaluated_errors r hfault)⟩

/-- A line is followed by a program. -/
theorem Comes.andThen {env : Env F} {program : List (Int × Expr)} {vars' : Variables F}
    {errors later : List String} (h : Comes A (Env.step A env num x) vars errors)
    (hnext : Comes A (programMeaning A (variableValue A vars) program) vars' later) :
    Comes A (programMeaning A env ((num, x) :: program)) vars' (errors ++ later) := by
  -- a program means what its first assignment means, and then what the rest does
  have hprogram : programMeaning A env ((num, x) :: program) =
      (Env.step A env num x).bind fun env => programMeaning A env program := by
    show (x.meaning A env).bind _ = ((x.meaning A env).bind _).bind _
    cases x.meaning A env <;> rfl
  rw [hprogram]
  cases hstep : Env.step A env num x with
  | ok env' =>
    obtain ⟨rfl, rfl⟩ := h.value env' hstep
    exact hnext
  | error text =>
    exact .of_error (head_kept (List.prefix_append _ _) (h.fault text hstep))

end Lines

theorem runLines_comes (A : FloatOps F) (vars : Variables F) {lines : List (List Char)}
    {program : List (Int × Expr)} (h : List.Forall₂ SpellsLine lines program) :
    ∃ vars' errors, runLines A vars lines = some (vars', errors) ∧
      Comes A (programMeaning A (variableValue A vars) program) vars' errors := by
  induction h generalizing vars with
  | nil => exact ⟨vars, [], rfl, .of_ok rfl rfl⟩
  | @cons line assignment lines program hline hlines ih =>
    obtain ⟨num, x⟩ := assignment
    obtain ⟨r, hr, hcomes⟩ := hline.comes A vars
    obtain ⟨vars', errors, hrun, hnext⟩ := ih r.vars
    refine ⟨vars', r.errors ++ errors, ?_, hcomes.andThen hnext⟩
    rw [runLines, hr]
    show (runLines A r.vars lines).map _ = _
    rw [hrun]
    rfl

/-- Lines that spell a program of assignments do what the program means: afterwards each variable reads as
the program says, and nothing has halted; where the program means an error, that is the first error that
halts the machine. -/
theorem runLines_spells (A : FloatOps F) (vars : Variables F) {lines : List (List Char)}
    {program : List (Int × Expr)} (h : List.Forall₂ SpellsLine lines program) :
    ∃ vars' errors, runLines A vars lines = some (vars', errors) ∧
      (∀ env, programMeaning A (variableValue A vars) program = .ok env →
        errors = [] ∧ variableValue A vars' = env) ∧
      (∀ text, programMeaning A (variableValue A vars) program = .error text →
        errors.head? = some text) := by
  obtain ⟨vars', errors, hrun, hcomes⟩ := runLines_comes A vars h
  exact ⟨vars', errors, hrun, hcomes.value, hcomes.fault⟩

/-- `#101 = 5` and `#1=#101*2`. -/
def smallLines : List (List Char) :=
  [['#', '1', '0', '1', ' ', '=', ' ', '5'], ['#', '1', '=', '#', '1', '0', '1', '*', '2']]

def smallProgram : List (Int × Expr) :=
  [(101, .number ['5']), (1, .term .mul (.var 101) (.number ['2']))]

theorem smallLines_spell : List.Forall₂ SpellsLine smallLines smallProgram := by
  have hnone : Spaces [] := fun c hc => absurd hc List.not_mem_nil
  have hspace : Spaces [' '] := by
    intro c hc
    obtain rfl := List.mem_singleton.mp hc
    decide
  have hvar : Spells Decimal .primary ['#', '1', '0', '1'] (.var 101) := .var (by decide)
  have hfive := Spells.factor hspace (.number (decimal_digit '5' (by decide)))
  have htwo := Spells.factor hnone (.number (decimal_digit '2' (by decide)))
  have hproduct := Spells.product .mul (.term (.factor hnone hvar)) hnone htwo
  have hfirst : SpellsLine ('#' :: (['1', '0', '1'] ++ ([' '] ++ '=' :: [' ', '5']))) (101, .number ['5']) :=
    .assign (by decide) hspace (.expression (.sum (.term hfive)) hnone)
  have hsecond : SpellsLine ('#' :: (['1'] ++ ([] ++ '=' :: ['#', '1', '0', '1', '*', '2'])))
      (1, .term .mul (.var 101) (.number ['2'])) :=
    .assign (by decide) hnone (.expression (.sum hproduct) hnone)
  exact .cons hfirst (.cons hsecond .nil)

theorem runLines_spells_small : ∃ vars' errors,
    runLines wholeOps someVariables smallLines = some (vars', errors) ∧ errors = [] ∧
      variableValue wholeOps vars' 1 = .ok 10 := by
  obtain ⟨vars', errors, hrun, hvalue, -⟩ := runLines_spells wholeOps someVariables smallLines_spell
  obtain ⟨herrors, henv⟩ := hvalue _ rfl
  refine ⟨vars', errors, hrun, herrors, ?_⟩
  rw [henv]
  rfl

end CarveraFirmware.Gcode
