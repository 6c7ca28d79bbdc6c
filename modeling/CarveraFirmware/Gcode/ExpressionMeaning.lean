import Mathlib
import CarveraFirmware.Gcode.ExpressionParts

/-!
# The evaluator gives the meaning

Each spelling of a tree is read as what the tree means, whatever stands behind it.
-/

namespace CarveraFirmware.Gcode

open Jobs.OCode (isSpace ltrim strtol)

variable {F : Type} {A : FloatOps F} {vars : Variables F} {e rest : List Char} {r : Parsed F}

/-! ## Reading a spelled text -/

/-- A part of the evaluator reads on from the value that its text means; where the text means an error,
that is the first one. -/
structure Carries (meaning : Except String F) (rest : List Char) (loop : Parsed F → Parsed F → Prop)
    (whole : Parsed F → Prop) : Prop where
  value : ∀ v, meaning = .ok v → ∀ r, loop ⟨v, rest, []⟩ r → whole r
  fault : ∀ text, meaning = .error text → ∃ r, whole r ∧ r.errors.head? = some text

/-- Nothing more is read. -/
theorem Carries.close {meaning : Except String F} {loop : Parsed F → Parsed F → Prop}
    {whole : Parsed F → Prop} (h : Carries meaning rest loop whole)
    (hstop : ∀ v, loop ⟨v, rest, []⟩ ⟨v, rest, []⟩) : Carries meaning rest Eq whole := by
  refine ⟨?_, h.fault⟩
  intro v hv r hr
  exact hr ▸ h.value v hv _ (hstop v)

theorem Carries.of_ok {v : F} {loop : Parsed F → Parsed F → Prop} {whole : Parsed F → Prop}
    (h : ∀ r, loop ⟨v, rest, []⟩ r → whole r) : Carries (.ok v) rest loop whole := by
  refine ⟨?_, fun text htext => absurd htext (by simp)⟩
  intro w hw
  obtain rfl := Except.ok.inj hw
  exact h

/-- An operator and its two sides: an error on the left comes before what is on the right. -/
theorem Carries.both {left right : Except String F} {k : F → F → Except String F}
    {loop : Parsed F → Parsed F → Prop} {whole : Parsed F → Prop}
    (hleft : ∀ text, left = .error text → ∃ r, whole r ∧ r.errors.head? = some text)
    (hright : ∀ u, left = .ok u → ∀ text, right = .error text → ∃ r, whole r ∧ r.errors.head? = some text)
    (hvalue : ∀ u, left = .ok u → ∀ w, right = .ok w → Carries (k u w) rest loop whole) :
    Carries (left.bind fun u => right.bind fun w => k u w) rest loop whole := by
  cases hu : left with
  | error text =>
    refine ⟨fun v hv => absurd hv (by simp [Except.bind]), ?_⟩
    intro first hfirst
    exact hleft first (hu.trans hfirst)
  | ok u =>
    cases hw : right with
    | error text =>
      refine ⟨fun v hv => absurd hv (by simp [Except.bind]), ?_⟩
      intro first hfirst
      exact hright u hu first (hw.trans hfirst)
    | ok w => exact hvalue u hu w hw

/-- What each level of the grammar gives the evaluator. -/
def ReadAt (A : FloatOps F) (vars : Variables F) : Level → List Char → Expr → Prop
  | .primary, s, x => ∀ ws rest, Spaces ws → numberStops rest →
      Carries (x.value A vars) rest (PowersIs A vars) (FactorIs A vars (ws ++ (s ++ rest)))
  | .factor, s, x => ∀ rest, factorStops rest →
      Carries (x.value A vars) rest Eq (FactorIs A vars (s ++ rest))
  | .term, s, x => ∀ rest, factorStops rest →
      Carries (x.value A vars) (ltrim rest) (ProductsIs A vars) (TermIs A vars (s ++ rest))
  | .sum, s, x => ∀ rest, termStops rest →
      Carries (x.value A vars) (ltrim rest) (SumsIs A vars) (SumIs A vars (s ++ rest))
  | .expression, s, x => ∀ rest, expressionStops rest →
      Carries (x.value A vars) (ltrim rest) Eq (ExpressionIs A vars (s ++ rest))

/-- No spelling begins with a bracket that closes one. -/
theorem Spells.head {level : Level} {s : List Char} {x : Expr} (h : Spells Decimal level s x) :
    ∃ ws c l, Spaces ws ∧ s = ws ++ c :: l ∧ isSpace c = false ∧ c ≠ ']' := by
  have hnone : Spaces [] := fun c hc => absurd hc List.not_mem_nil
  have hmore : ∀ (s t : List Char), (∃ ws c l, Spaces ws ∧ s = ws ++ c :: l ∧ isSpace c = false ∧ c ≠ ']') →
      ∃ ws c l, Spaces ws ∧ s ++ t = ws ++ c :: l ∧ isSpace c = false ∧ c ≠ ']' := by
    rintro s t ⟨ws, c, l, hws, rfl, hc⟩
    exact ⟨ws, c, l ++ t, hws, by simp, hc⟩
  -- blanks in front of a spelling are blanks in front of its first letter
  have hfront : ∀ (ws s : List Char), Spaces ws →
      (∃ ws c l, Spaces ws ∧ s = ws ++ c :: l ∧ isSpace c = false ∧ c ≠ ']') →
      ∃ ws' c l, Spaces ws' ∧ ws ++ s = ws' ++ c :: l ∧ isSpace c = false ∧ c ≠ ']' := by
    rintro ws s hws ⟨ws', c, l, hws', rfl, hc⟩
    exact ⟨ws ++ ws', c, l, hws.append hws', by simp, hc⟩
  induction h with
  | number h =>
    obtain ⟨c, l, rfl, hc, hspace⟩ := h.head
    refine ⟨[], c, l, hnone, rfl, hspace, ?_⟩
    rintro rfl
    obtain h | h | h | h := hc
    all_goals exact absurd h (by decide)
  | var h => exact ⟨[], '#', _, hnone, rfl, by decide, by decide⟩
  | call f h ih =>
    cases f
    all_goals exact ⟨[], _, _, hnone, rfl, by decide, by decide⟩
  | bracket h ih => exact ⟨[], '[', _, hnone, rfl, by decide, by decide⟩
  | factor hws h ih => exact hfront _ _ hws ih
  | pow hws hx hy ihx ihy => exact hfront _ _ hws (hmore _ _ ihx)
  | term h ih => exact ih
  | product op hx hws hy ihx ihy => exact hmore _ _ ihx
  | sum h ih => exact ih
  | plus op hx hws hy ihx ihy => exact hmore _ _ ihx
  | expression h hws ih => exact hmore _ _ ih
  | compare op hx hws hy ihx ihy => exact hmore _ _ ihx
  | connect op hx hws hy ihx ihy => exact hmore _ _ ihx

/-- What follows does not change how a spelling begins. -/
theorem Spells.head_ne {level : Level} {s : List Char} {x : Expr} (h : Spells Decimal level s x)
    (rest : List Char) : (s ++ rest).head? ≠ some ']' ∧ (ltrim (s ++ rest)).head? ≠ some ']' := by
  obtain ⟨ws, c, l, hws, rfl, hspace, hc⟩ := h.head
  have htrim : ltrim (ws ++ c :: l ++ rest) = c :: (l ++ rest) := by
    rw [List.append_assoc, ltrim_spaces hws, List.cons_append, ltrim_cons hspace]
  refine ⟨?_, by rw [htrim]; simpa using hc⟩
  cases ws with
  | nil => simpa using hc
  | cons d ws =>
    have hd := hws d List.mem_cons_self
    intro heq
    obtain rfl : d = ']' := by simpa using heq
    exact absurd hd (by decide)

section Cases

variable {s t ws text : List Char} {x y : Expr}

theorem readAt_number (h : Decimal text) : ReadAt A vars .primary text (.number text) := by
  intro ws rest hws hstops
  refine ⟨?_, fun text htext => absurd htext (by simp [Expr.value])⟩
  intro v hv r hr
  obtain rfl : A.ofText text = v := Except.ok.inj hv
  have hread := readNumber_decimal A h hstops
  obtain ⟨c, l, rfl, hc, hspace⟩ := h.head
  refine factor_number (l := l ++ rest) ?_ hc hread hr
  rw [ltrim_spaces hws, List.cons_append, ltrim_cons hspace]

theorem readAt_var {digits : List Char} {n : Int} (h : strtol digits = some (n, [])) :
    ReadAt A vars .primary ('#' :: digits) (.var n) := by
  intro ws rest hws hstops
  have hread : strtol (digits ++ rest) = some (n, rest) :=
    strtol_append h fun c hc => (hstops.1 c hc).1
  have htrim : ltrim (ws ++ ('#' :: digits ++ rest)) = '#' :: (digits ++ rest) := by
    rw [ltrim_spaces hws, List.cons_append, ltrim_cons (by decide)]
  constructor
  · intro v hv r hr
    have hvalue : variableValue A vars n = .ok v := hv
    refine factor_var htrim ?_
    rw [getVariableValue_ok hread hvalue]
    exact hr
  · intro text htext
    have hvalue : variableValue A vars n = .error text := htext
    obtain ⟨r, hr, hprefix⟩ := exists_powersIs A vars ⟨A.nan, rest, [text]⟩
    refine ⟨r, factor_var htrim ?_, head_kept hprefix rfl⟩
    rw [getVariableValue_error hread hvalue]
    exact hr

/-- Brackets around an expression, with what they make of its value. -/
theorem bracket_carries (ih : ReadAt A vars .expression s x) (rest : List Char) (value : F → F)
    (text : String) : Carries ((x.value A vars).bind fun u => .ok (value u)) rest (PowersIs A vars)
      (Settles fun n => inBrackets A value text (parseExpression A vars n) (parsePowers A vars n)
        (s ++ ']' :: rest)) := by
  have hx := ih (']' :: rest) (expressionStops_bracket rest)
  rw [ltrim_cons (by decide)] at hx
  cases hu : x.value A vars with
  | ok u =>
    refine ⟨?_, fun text htext => absurd htext (by simp [Except.bind])⟩
    intro v hv r hr
    obtain rfl : value u = v := Except.ok.inj hv
    exact bracket_step (hx.value u hu _ rfl) rfl hr
  | error text' =>
    refine ⟨fun v hv => absurd hv (by simp [Except.bind]), ?_⟩
    intro first hfirst
    obtain ⟨r, hr, hhead⟩ := hx.fault first (hu.trans hfirst)
    obtain ⟨r', hr', hprefix⟩ := exists_bracket hr value text
    exact ⟨r', hr', head_kept hprefix hhead⟩

theorem readAt_call (f : Function) (ih : ReadAt A vars .expression s x) :
    ReadAt A vars .primary (f.word ++ '[' :: (s ++ [']'])) (.call f x) := by
  intro ws rest hws hstops
  have htrim : ltrim (ws ++ (f.word ++ '[' :: (s ++ [']']) ++ rest)) =
      f.word ++ '[' :: (s ++ ']' :: rest) := by
    rw [ltrim_spaces hws]
    cases f
    all_goals
      show ltrim (_ :: _) = _
      rw [ltrim_cons (by decide)]
      simp [Function.word]
  have hcarries := bracket_carries ih rest (fun x => f.value A x)
    "ERROR: Mismatched brackets in function argument\n"
  constructor
  · intro v hv r hr
    exact factor_call f htrim (hcarries.value v hv r hr)
  · intro first hfirst
    obtain ⟨r, hr, hhead⟩ := hcarries.fault first hfirst
    exact ⟨r, factor_call f htrim hr, hhead⟩

theorem readAt_bracket (ih : ReadAt A vars .expression s x) :
    ReadAt A vars .primary ('[' :: (s ++ [']'])) x := by
  intro ws rest hws hstops
  have htrim : ltrim (ws ++ ('[' :: (s ++ [']']) ++ rest)) = '[' :: (s ++ ']' :: rest) := by
    rw [ltrim_spaces hws, List.cons_append, ltrim_cons (by decide), List.append_assoc]
    rfl
  have hcarries := bracket_carries ih rest id "ERROR: Mismatched brackets in expression\n"
  have hmeaning : ((x.value A vars).bind fun u => .ok (id u)) = x.value A vars := by
    cases x.value A vars with
    | ok u => rfl
    | error text => rfl
  rw [hmeaning] at hcarries
  constructor
  · intro v hv r hr
    exact factor_bracket htrim (hcarries.value v hv r hr)
  · intro first hfirst
    obtain ⟨r, hr, hhead⟩ := hcarries.fault first hfirst
    exact ⟨r, factor_bracket htrim hr, hhead⟩

theorem readAt_factor (hws : Spaces ws) (ih : ReadAt A vars .primary s x) :
    ReadAt A vars .factor (ws ++ s) x := by
  intro rest hstops
  rw [List.append_assoc]
  exact (ih ws rest hws hstops.1).close fun v => powers_stop hstops.2

theorem readAt_pow (hws : Spaces ws) (ihx : ReadAt A vars .primary s x) (ihy : ReadAt A vars .factor t y) :
    ReadAt A vars .factor (ws ++ (s ++ '^' :: t)) (.pow x y) := by
  intro rest hstops
  have hx := ihx ws ('^' :: (t ++ rest)) hws
    (numberStops_cons (by decide) (by decide) (by decide) (by decide) _)
  have hy := ihy rest hstops
  have hshape : ws ++ (s ++ '^' :: t) ++ rest = ws ++ (s ++ '^' :: (t ++ rest)) := by simp
  rw [hshape]
  have hmeaning : (Expr.pow x y).value A vars =
      (x.value A vars).bind fun u => (y.value A vars).bind fun w => .ok (A.pow u w) := rfl
  rw [hmeaning]
  refine .both hx.fault ?_ ?_
  · intro u hu text hw
    obtain ⟨b, hb, hhead⟩ := hy.fault text hw
    obtain ⟨r, hr, hprefix⟩ := exists_powersIs A vars
      ((⟨u, '^' :: (t ++ rest), []⟩ : Parsed F).andThen b (A.pow u b.value))
    exact ⟨r, hx.value u hu r (powers_step rfl hb hr), head_kept hprefix hhead⟩
  · intro u hu w hw
    refine .of_ok fun r hr => ?_
    obtain rfl := hr
    exact hx.value u hu _ (powers_step rfl (hy.value w hw _ rfl) (powers_stop hstops.2))

theorem readAt_term (ih : ReadAt A vars .factor s x) : ReadAt A vars .term s x := by
  intro rest hstops
  have hx := ih rest hstops
  constructor
  · intro v hv r hr
    exact term_of (hx.value v hv _ rfl) hr
  · intro text htext
    obtain ⟨b, hb, hhead⟩ := hx.fault text htext
    obtain ⟨r, hr, hprefix⟩ := exists_productsIs A vars b.skip
    exact ⟨r, term_of hb hr, head_kept hprefix hhead⟩

/-- Behind white space the text goes on with the word. -/
theorem ltrim_word (hws : Spaces ws) {word : List Char} (hword : ∃ c l, word = c :: l ∧ isSpace c = false)
    (l : List Char) : ltrim (ws ++ (word ++ l)) = word ++ l := by
  obtain ⟨c, w, rfl, hc⟩ := hword
  rw [ltrim_spaces hws, List.cons_append, ltrim_cons hc]

theorem TermOp.word_head (op : TermOp) : ∃ c l, op.word = c :: l ∧ isSpace c = false := by
  cases op
  all_goals exact ⟨_, _, rfl, by decide⟩

theorem SumOp.word_head (op : SumOp) : ∃ c l, op.word = c :: l ∧ isSpace c = false := by
  cases op
  all_goals exact ⟨_, _, rfl, by decide⟩

theorem Comparison.word_head (op : Comparison) : ∃ c l, op.word = c :: l ∧ isSpace c = false := by
  cases op
  all_goals exact ⟨_, _, rfl, by decide⟩

theorem Connective.word_head (op : Connective) : ∃ c l, op.word = c :: l ∧ isSpace c = false := by
  cases op
  all_goals exact ⟨_, _, rfl, by decide⟩

/-- Once a factor has gone wrong, the term has that error. -/
theorem exists_products_fault {op : TermOp} {b : Parsed F} {u : F} {l rest : List Char} {text : String}
    (hread : readWord TermOp.word TermOp.all l = some (op, rest)) (hb : FactorIs A vars rest b)
    (hhead : b.errors.head? = some text) :
    ∃ r, ProductsIs A vars ⟨u, l, []⟩ r ∧ r.errors.head? = some text := by
  cases hvalue : op.value A u b.value with
  | ok v =>
    obtain ⟨r, hr, hprefix⟩ := exists_productsIs A vars
      ((⟨u, l, []⟩ : Parsed F).andThen b v).skip
    exact ⟨r, products_step hread hb hvalue hr, head_kept hprefix hhead⟩
  | error later =>
    exact ⟨_, products_error hread hb hvalue, head_kept (List.prefix_append _ _) hhead⟩

theorem readAt_product (op : TermOp) (ihx : ReadAt A vars .term s x) (hws : Spaces ws)
    (ihy : ReadAt A vars .factor t y) :
    ReadAt A vars .term (s ++ (ws ++ (op.word ++ t))) (.term op x y) := by
  intro rest hstops
  have hx := ihx (ws ++ (op.word ++ (t ++ rest)))
    (factorStops_spaces hws (factorStops_termOp op _))
  have hy := ihy rest hstops
  rw [ltrim_word hws op.word_head] at hx
  have hread := readWord_termOp (t ++ rest) op
  have hshape : s ++ (ws ++ (op.word ++ t)) ++ rest = s ++ (ws ++ (op.word ++ (t ++ rest))) := by simp
  rw [hshape]
  have hmeaning : (Expr.term op x y).value A vars =
      (x.value A vars).bind fun u => (y.value A vars).bind fun w => op.value A u w := rfl
  rw [hmeaning]
  refine .both hx.fault ?_ ?_
  · intro u hu text hw
    obtain ⟨b, hb, hhead⟩ := hy.fault text hw
    obtain ⟨r, hr, hfault⟩ := exists_products_fault hread hb hhead
    exact ⟨r, hx.value u hu r hr, hfault⟩
  · intro u hu w hw
    have hb := hy.value w hw _ rfl
    constructor
    · intro v hv r hr
      exact hx.value u hu r (products_step hread hb hv hr)
    · intro text htext
      exact ⟨_, hx.value u hu _ (products_error hread hb htext), rfl⟩

/-- A term that nothing follows is a term of the sum. -/
theorem ReadAt.term_done (ih : ReadAt A vars .term s x) (hstops : termStops rest) :
    Carries (x.value A vars) (ltrim rest) Eq (TermIs A vars (s ++ rest)) :=
  (ih rest hstops.1).close fun _ => products_stop hstops.2

theorem readAt_sum (ih : ReadAt A vars .term s x) : ReadAt A vars .sum s x := by
  intro rest hstops
  have hx := ih.term_done hstops
  constructor
  · intro v hv r hr
    refine sum_of (hx.value v hv _ rfl) ?_
    show SumsIs A vars ⟨v, ltrim (ltrim rest), []⟩ r
    rw [ltrim_ltrim]
    exact hr
  · intro text htext
    obtain ⟨b, hb, hhead⟩ := hx.fault text htext
    obtain ⟨r, hr, hprefix⟩ := exists_sumsIs A vars b.skip
    exact ⟨r, sum_of hb hr, head_kept hprefix hhead⟩

theorem readAt_plus (op : SumOp) (ihx : ReadAt A vars .sum s x) (hws : Spaces ws)
    (ihy : ReadAt A vars .term t y) :
    ReadAt A vars .sum (s ++ (ws ++ (op.word ++ t))) (.sum op x y) := by
  intro rest hstops
  have htrim := ltrim_word hws op.word_head (t ++ rest)
  -- the last term on the left ends in front of the operator
  have hterm : termStops (ws ++ (op.word ++ (t ++ rest))) := by
    refine ⟨factorStops_spaces hws (factorStops_sumOp op _), ?_⟩
    rw [htrim]
    exact termOp_none_sumOp _ op
  have hx := ihx _ hterm
  rw [htrim] at hx
  have hy := ihy.term_done hstops
  have hread := readWord_sumOp (t ++ rest) op
  have hshape : s ++ (ws ++ (op.word ++ t)) ++ rest = s ++ (ws ++ (op.word ++ (t ++ rest))) := by simp
  rw [hshape]
  have hmeaning : (Expr.sum op x y).value A vars =
      (x.value A vars).bind fun u => (y.value A vars).bind fun w => .ok (op.value A u w) := rfl
  rw [hmeaning]
  refine .both hx.fault ?_ ?_
  · intro u hu text hw
    obtain ⟨b, hb, hhead⟩ := hy.fault text hw
    obtain ⟨r, hr, hprefix⟩ := exists_sumsIs A vars
      ((⟨u, op.word ++ (t ++ rest), []⟩ : Parsed F).andThen b (op.value A u b.value)).skip
    exact ⟨r, hx.value u hu r (sums_step hread hb hr), head_kept hprefix hhead⟩
  · intro u hu w hw
    refine .of_ok fun r hr => ?_
    refine hx.value u hu r (sums_step hread (hy.value w hw _ rfl) ?_)
    show SumsIs A vars ⟨op.value A u w, ltrim (ltrim rest), []⟩ r
    rw [ltrim_ltrim]
    exact hr

/-- A sum that no term follows is all that a comparison looks at. -/
theorem ReadAt.sum_done (ih : ReadAt A vars .sum s x) (hstops : sumStops rest) :
    Carries (x.value A vars) (ltrim rest) Eq (SumIs A vars (s ++ rest)) :=
  (ih rest hstops.1).close fun _ => sums_stop hstops.2

/-- An error in the sum is the expression's first one. -/
theorem Carries.sum_fault {l : List Char} (hx : Carries (x.value A vars) rest Eq (SumIs A vars l))
    (hhead : l.head? ≠ some ']') (text : String) (h : x.value A vars = .error text) :
    ∃ r, ExpressionIs A vars l r ∧ r.errors.head? = some text := by
  obtain ⟨b, hb, hfault⟩ := hx.fault text h
  obtain ⟨r, hr, hprefix⟩ := exists_of_sum hhead hb
  exact ⟨r, hr, head_kept hprefix hfault⟩

theorem readAt_expression (hs : Spells Decimal .sum s x) (ih : ReadAt A vars .sum s x) (hws : Spaces ws) :
    ReadAt A vars .expression (s ++ ws) x := by
  intro rest hstops
  have htrim := ltrim_spaces hws rest
  have hsum : sumStops (ws ++ rest) := by
    refine ⟨⟨factorStops_spaces hws hstops.1.1.1, ?_⟩, ?_⟩
    · rw [htrim]
      exact hstops.1.1.2
    · rw [htrim]
      exact hstops.1.2
  have hx := ih.sum_done hsum
  rw [htrim] at hx
  have hhead := (hs.head_ne (ws ++ rest)).1
  rw [List.append_assoc]
  constructor
  · intro v hv r hr
    exact hr ▸ expression_of hhead (hx.value v hv _ rfl) (applyWord_stop hstops.2.1)
      (applyWord_stop hstops.2.2)
  · exact hx.sum_fault hhead

/-- In front of a word behind white space a sum ends, if the word is no operator of a term or a sum. -/
theorem sumStops_word (hws : Spaces ws) {word : List Char} (l : List Char)
    (hword : ∃ c l, word = c :: l ∧ isSpace c = false) (hfactor : factorStops (word ++ l))
    (hterm : readWord TermOp.word TermOp.all (word ++ l) = none)
    (hsum : readWord SumOp.word SumOp.all (word ++ l) = none) : sumStops (ws ++ (word ++ l)) := by
  have htrim := ltrim_word hws hword l
  refine ⟨⟨factorStops_spaces hws hfactor, ?_⟩, ?_⟩
  · rw [htrim]
    exact hterm
  · rw [htrim]
    exact hsum

/-- The right side of a comparison or a connective. -/
theorem right_carries (ht : Spells Decimal .expression t y) (ihy : ReadAt A vars .expression t y)
    (hstops : expressionStops rest) :
    Carries (y.value A vars) (ltrim rest) Eq (ExpressionIs A vars (ltrim (t ++ rest))) := by
  have hsame : ∀ b, ExpressionIs A vars (t ++ rest) b → ExpressionIs A vars (ltrim (t ++ rest)) b := by
    intro b hb
    refine hb.imp fun m hb => ?_
    rw [expression_ltrim (ht.head_ne rest).2]
    exact hb
  have hy := ihy rest hstops
  constructor
  · intro v hv r hr
    exact hsame r (hy.value v hv r hr)
  · intro text htext
    obtain ⟨b, hb, hfault⟩ := hy.fault text htext
    exact ⟨b, hsame b hb, hfault⟩

theorem readAt_compare (op : Comparison) (hs : Spells Decimal .sum s x) (ihx : ReadAt A vars .sum s x)
    (hws : Spaces ws) (ht : Spells Decimal .expression t y) (ihy : ReadAt A vars .expression t y) :
    ReadAt A vars .expression (s ++ (ws ++ (op.word ++ t))) (.compare op x y) := by
  intro rest hstops
  have hx := ihx.sum_done (sumStops_word hws (t ++ rest) op.word_head (factorStops_comparison op _)
    (termOp_none_comparison _ op) (sumOp_none_comparison _ op))
  rw [ltrim_word hws op.word_head] at hx
  have hy := right_carries ht ihy hstops
  have hread := readWord_comparison (t ++ rest) op
  have hshape : s ++ (ws ++ (op.word ++ t)) ++ rest = s ++ (ws ++ (op.word ++ (t ++ rest))) := by simp
  have hhead := (hs.head_ne (ws ++ (op.word ++ (t ++ rest)))).1
  rw [hshape]
  have hmeaning : (Expr.compare op x y).value A vars = (x.value A vars).bind fun u =>
      (y.value A vars).bind fun w => .ok (ofBool A (op.holds A u w)) := rfl
  rw [hmeaning]
  refine .both (hx.sum_fault hhead) ?_ ?_
  · intro u hu text hw
    obtain ⟨b, hb, hfault⟩ := hy.fault text hw
    obtain ⟨r, hr, hprefix⟩ := exists_of_compared hhead (hx.value u hu _ rfl) (applyWord_step hread hb)
    exact ⟨r, hr, head_kept hprefix hfault⟩
  · intro u hu w hw
    refine .of_ok fun r hr => ?_
    obtain rfl := hr
    exact expression_of hhead (hx.value u hu _ rfl) (applyWord_step hread (hy.value w hw _ rfl))
      (applyWord_stop hstops.2.2)

theorem readAt_connect (op : Connective) (hs : Spells Decimal .sum s x) (ihx : ReadAt A vars .sum s x)
    (hws : Spaces ws) (ht : Spells Decimal .expression t y) (ihy : ReadAt A vars .expression t y) :
    ReadAt A vars .expression (s ++ (ws ++ (op.word ++ t))) (.connect op x y) := by
  intro rest hstops
  have hx := ihx.sum_done (sumStops_word hws (t ++ rest) op.word_head (factorStops_connective op _)
    (termOp_none_connective _ op) (sumOp_none_connective _ op))
  rw [ltrim_word hws op.word_head] at hx
  have hy := right_carries ht ihy hstops
  have hread := readWord_connective (t ++ rest) op
  have hshape : s ++ (ws ++ (op.word ++ t)) ++ rest = s ++ (ws ++ (op.word ++ (t ++ rest))) := by simp
  have hhead := (hs.head_ne (ws ++ (op.word ++ (t ++ rest)))).1
  rw [hshape]
  have hmeaning : (Expr.connect op x y).value A vars = (x.value A vars).bind fun u =>
      (y.value A vars).bind fun w => .ok (ofBool A (op.holds A u w)) := rfl
  rw [hmeaning]
  -- no comparison begins as a connective does
  have hcompared : ∀ u, Settles (fun n => applyWord Comparison.word Comparison.all
      (fun op x y => ofBool A (op.holds A x y)) (parseExpression A vars n)
        ⟨u, op.word ++ (t ++ rest), []⟩) ⟨u, op.word ++ (t ++ rest), []⟩ :=
    fun u => applyWord_stop (comparison_none_connective _ op)
  refine .both (hx.sum_fault hhead) ?_ ?_
  · intro u hu text hw
    obtain ⟨b, hb, hfault⟩ := hy.fault text hw
    exact ⟨_, expression_of hhead (hx.value u hu _ rfl) (hcompared u) (applyWord_step hread hb), hfault⟩
  · intro u hu w hw
    refine .of_ok fun r hr => ?_
    obtain rfl := hr
    exact expression_of hhead (hx.value u hu _ rfl) (hcompared u)
      (applyWord_step hread (hy.value w hw _ rfl))

end Cases

/-- The evaluator reads each spelling as it is meant. -/
theorem Spells.readAt {level : Level} {s : List Char} {x : Expr} (h : Spells Decimal level s x) :
    ReadAt A vars level s x := by
  induction h with
  | number h => exact readAt_number h
  | var h => exact readAt_var h
  | call f h ih => exact readAt_call f ih
  | bracket h ih => exact readAt_bracket ih
  | factor hws h ih => exact readAt_factor hws ih
  | pow hws hx hy ihx ihy => exact readAt_pow hws ihx ihy
  | term h ih => exact readAt_term ih
  | product op hx hws hy ihx ihy => exact readAt_product op ihx hws ihy
  | sum h ih => exact readAt_sum ih
  | plus op hx hws hy ihx ihy => exact readAt_plus op ihx hws ihy
  | expression h hws ih => exact readAt_expression h ih hws
  | compare op hx hws hy ihx ihy => exact readAt_compare op hx ihx hws hy ihy
  | connect op hx hws hy ihx ihy => exact readAt_connect op hx ihx hws hy ihy

/-! ## The evaluation of a text -/

/-- What `parse_expression` comes to is what it gives with the fuel for its text. -/
theorem expression_eq (h : ExpressionIs A vars e r) : parseExpression A vars (parseFuel e) e = some r := by
  -- this fuel gives something, and more of it gives the same
  obtain ⟨b, hb, -⟩ := (endAt A vars (parseFuel e)).expression e le_rfl
  have hgrow : Grows fun n => parseExpression A vars n e := fun n r => (growAt n).expression e r
  rw [hb, hgrow.eq_of_settles hb h]

section Evaluation

variable {s rest : List Char} {x : Expr}

theorem expressionStops_nil : expressionStops [] :=
  ⟨⟨⟨⟨⟨fun c hc => absurd hc (by simp), rfl⟩, by simp⟩, rfl⟩, rfl⟩, rfl, rfl⟩

theorem spells_carries (A : FloatOps F) (vars : Variables F) (h : Spells Decimal .expression s x)
    (hstops : expressionStops rest) :
    Carries (x.value A vars) (ltrim rest) Eq (ExpressionIs A vars (ltrim (s ++ rest))) :=
  right_carries h h.readAt hstops

theorem evaluateExpression_value (h : Spells Decimal .expression s x) (hstops : expressionStops rest)
    (hbracket : (ltrim rest).head? ≠ some ']') {v : F} (hx : x.value A vars = .ok v) :
    evaluateExpression A vars (s ++ rest) = some ⟨v, some (ltrim rest), []⟩ := by
  have hhead := (h.head_ne rest).2
  have hcarries := spells_carries A vars h hstops
  unfold evaluateExpression
  dsimp only
  rw [if_neg hhead, expression_eq (hcarries.value v hx _ rfl)]
  exact congrArg some (if_neg hbracket)

theorem evaluateExpression_fault (h : Spells Decimal .expression s x) (hstops : expressionStops rest)
    {text : String} (hx : x.value A vars = .error text) :
    ∃ r, evaluateExpression A vars (s ++ rest) = some r ∧ r.errors.head? = some text := by
  have hhead := (h.head_ne rest).2
  obtain ⟨r, hr, hfault⟩ := (spells_carries A vars h hstops).fault text hx
  unfold evaluateExpression
  dsimp only
  rw [if_neg hhead, expression_eq hr]
  refine ⟨_, rfl, ?_⟩
  dsimp only
  split
  · exact head_kept (List.prefix_append _ _) hfault
  · exact hfault

end Evaluation

/-- A spelled expression, with what does not belong to it behind it: the evaluation gives the value that the
expression means, stands behind it and halts nothing; where it means an error, that is the first error
that halts the machine. -/
theorem evaluateExpression_spells (A : FloatOps F) (vars : Variables F) {s rest : List Char} {x : Expr}
    (h : Spells Decimal .expression s x) (hstops : expressionStops rest)
    (hbracket : (ltrim rest).head? ≠ some ']') :
    ∃ r, evaluateExpression A vars (s ++ rest) = some r ∧
      (∀ v, x.value A vars = .ok v → r = ⟨v, some (ltrim rest), []⟩) ∧
      (∀ text, x.value A vars = .error text → r.errors.head? = some text) := by
  cases hx : x.value A vars with
  | ok v =>
    refine ⟨_, evaluateExpression_value h hstops hbracket hx, ?_, fun text htext => absurd htext (by simp)⟩
    intro w hw
    obtain rfl := Except.ok.inj hw
    rfl
  | error text =>
    obtain ⟨r, hr, hfault⟩ := evaluateExpression_fault h hstops hx
    refine ⟨r, hr, fun v hv => absurd hv (by simp), ?_⟩
    intro first hfirst
    obtain rfl := Except.error.inj hfirst
    exact hfault

/-- Whole numbers, for a value that can be worked out. -/
def wholeOps : FloatOps ℤ where
  nan := 0
  ofNat n := n
  ofText text := ((strtol text).map Prod.fst).getD 0
  add x y := x + y
  sub x y := x - y
  mul x y := x * y
  div x y := x / y
  fmod x y := x % y
  pow x y := x ^ y.toNat
  libm _ x := x
  degToRad := 1
  isZero x := x = 0
  lt x y := x < y
  le x y := x ≤ y
  near x y := x = y
  isNan _ := false
  isSet x := -100000 < x

/-- Variables that hold their place, and of the local ones only the first is set. -/
def someVariables : Variables ℤ where
  localParams n := n + 1
  localVars n := if n = 0 then 7 else -1000000
  probeTipDiameter := 2
  probeOutputs _ := -1000000
  permVars _ := -1000000
  system _ := 0

/-- `2*[#101- 3]`. -/
def smallText : List Char := ['2', '*', '[', '#', '1', '0', '1', '-', ' ', '3', ']']

def smallExpr : Expr := .term .mul (.number ['2']) (.sum .sub (.var 101) (.number ['3']))

theorem decimal_digit (c : Char) (hc : c.isDigit = true) : Decimal [c] := by
  refine Decimal.whole (Or.inl rfl) ?_ (List.cons_ne_nil c [])
  intro d hd
  obtain rfl := List.mem_singleton.mp hd
  exact hc

theorem small_spells : Spells Decimal .expression smallText smallExpr := by
  have hnone : Spaces [] := fun c hc => absurd hc List.not_mem_nil
  have hspace : Spaces [' '] := by
    intro c hc
    obtain rfl := List.mem_singleton.mp hc
    decide
  have htwo := Spells.factor hnone (.number (decimal_digit '2' (by decide)))
  have hthree := Spells.factor hspace (.number (decimal_digit '3' (by decide)))
  have hvar : Spells Decimal .primary ['#', '1', '0', '1'] (.var 101) := .var (by decide)
  have hinner := Spells.expression
    (.plus .sub (.sum (.term (.factor hnone hvar))) hnone (.term hthree)) hnone
  exact .expression (.sum (.product .mul (.term htwo) hnone (.factor hnone (.bracket hinner)))) hnone

/-- In front of the word `X5`. -/
theorem evaluateExpression_spells_small :
    ∃ r, evaluateExpression wholeOps someVariables (smallText ++ [' ', 'X', '5']) = some r ∧
      (∀ v, smallExpr.value wholeOps someVariables = .ok v → r = ⟨v, some ['X', '5'], []⟩) ∧
      (∀ text, smallExpr.value wholeOps someVariables = .error text → r.errors.head? = some text) :=
  evaluateExpression_spells wholeOps someVariables small_spells
    ⟨⟨⟨factorStops_space (by decide) _, rfl⟩, rfl⟩, rfl, rfl⟩ (by decide)

end CarveraFirmware.Gcode
