import Mathlib
import CarveraFirmware.Gcode.ExpressionEnds
import CarveraFirmware.Gcode.ExpressionTree

/-!
# A spelled expression is read as it is meant

The evaluator gives for each spelling of a tree what the tree means, and stops where the spelling ends.
-/

namespace CarveraFirmware.Gcode

open Jobs.OCode (isSpace ltrim strtol)

/-! ## White space and words -/

theorem ltrim_spaces {ws : List Char} (hws : Spaces ws) (l : List Char) : ltrim (ws ++ l) = ltrim l := by
  induction ws with
  | nil => rfl
  | cons c ws ih =>
    have hc := hws c List.mem_cons_self
    have htail := ih fun d hd => hws d (List.mem_cons_of_mem _ hd)
    show List.dropWhile isSpace (c :: (ws ++ l)) = _
    rw [List.dropWhile_cons_of_pos hc]
    exact htail

theorem Spaces.append {ws ws' : List Char} (h : Spaces ws) (h' : Spaces ws') : Spaces (ws ++ ws') := by
  intro c hc
  obtain hc | hc := List.mem_append.mp hc
  · exact h c hc
  · exact h' c hc

theorem ltrim_cons {c : Char} (hc : isSpace c = false) (l : List Char) : ltrim (c :: l) = c :: l :=
  List.dropWhile_cons_of_neg (by rw [hc]; decide)

theorem ltrim_ltrim (l : List Char) : ltrim (ltrim l) = ltrim l := List.dropWhile_idempotent _ _

theorem readWord_none {α : Type} {word : α → List Char} {all : List α} {l : List Char}
    (h : ∀ a ∈ all, ∃ c, (word a).head? = some c ∧ l.head? ≠ some c) : readWord word all l = none := by
  unfold readWord
  rw [List.find?_eq_none.mpr ?_]
  · rfl
  · intro a ha hprefix
    obtain ⟨c, hc, hl⟩ := h a ha
    obtain ⟨t, rfl⟩ := List.isPrefixOf_iff_prefix.mp hprefix
    cases hword : word a with
    | nil => rw [hword] at hc; exact absurd hc (by simp)
    | cons d w =>
      rw [hword] at hc hl
      exact hl hc

section Words

variable (l : List Char)

theorem readWord_termOp (op : TermOp) : readWord TermOp.word TermOp.all (op.word ++ l) = some (op, l) := by
  cases op <;> rfl

theorem readWord_sumOp (op : SumOp) : readWord SumOp.word SumOp.all (op.word ++ l) = some (op, l) := by
  cases op <;> rfl

theorem readWord_comparison (op : Comparison) :
    readWord Comparison.word Comparison.all (op.word ++ l) = some (op, l) := by
  cases op <;> rfl

theorem readWord_connective (op : Connective) :
    readWord Connective.word Connective.all (op.word ++ l) = some (op, l) := by
  cases op <;> rfl

theorem readWord_function (f : Function) :
    readWord Function.word Function.all (f.word ++ l) = some (f, l) := by
  cases f <;> rfl

theorem termOp_none_sumOp (op : SumOp) : readWord TermOp.word TermOp.all (op.word ++ l) = none := by
  cases op <;> rfl

theorem termOp_none_comparison (op : Comparison) :
    readWord TermOp.word TermOp.all (op.word ++ l) = none := by
  cases op <;> rfl

theorem termOp_none_connective (op : Connective) :
    readWord TermOp.word TermOp.all (op.word ++ l) = none := by
  cases op <;> rfl

theorem sumOp_none_comparison (op : Comparison) :
    readWord SumOp.word SumOp.all (op.word ++ l) = none := by
  cases op <;> rfl

theorem sumOp_none_connective (op : Connective) :
    readWord SumOp.word SumOp.all (op.word ++ l) = none := by
  cases op <;> rfl

theorem comparison_none_connective (op : Connective) :
    readWord Comparison.word Comparison.all (op.word ++ l) = none := by
  cases op <;> rfl

end Words

/-! ## Where numbers stop -/

section Stops

variable {rest ws : List Char} {c : Char}

theorem numberStops_cons (hdigit : c.isDigit = false) (hdot : c ≠ '.') (hx : c ≠ 'x') (hX : c ≠ 'X')
    (l : List Char) : numberStops (c :: l) := by
  refine ⟨by simpa using ⟨hdigit, hdot⟩, ?_⟩
  unfold upToE
  rw [List.takeWhile_cons]
  split
  · show (if c = 'x' ∨ c = 'X' then _ else none) = none
    exact if_neg (by simp [hx, hX])
  · rfl

theorem factorStops_cons (hdigit : c.isDigit = false) (hdot : c ≠ '.') (hx : c ≠ 'x') (hX : c ≠ 'X')
    (hpower : c ≠ '^') (l : List Char) : factorStops (c :: l) :=
  ⟨numberStops_cons hdigit hdot hx hX l, by simpa using hpower⟩

theorem isSpace_cases (hc : isSpace c = true) :
    c = ' ' ∨ c = '\t' ∨ c = '\n' ∨ c = '\x0b' ∨ c = '\x0c' ∨ c = '\r' := by
  simpa [isSpace, or_assoc] using hc

theorem factorStops_space (hc : isSpace c = true) (l : List Char) : factorStops (c :: l) := by
  obtain rfl | rfl | rfl | rfl | rfl | rfl := isSpace_cases hc
  all_goals exact factorStops_cons (by decide) (by decide) (by decide) (by decide) (by decide) l

/-- White space may come in front of what follows. -/
theorem factorStops_spaces (hws : Spaces ws) (h : factorStops rest) : factorStops (ws ++ rest) := by
  cases ws with
  | nil => exact h
  | cons c ws => exact factorStops_space (hws c List.mem_cons_self) _

theorem factorStops_termOp (op : TermOp) (l : List Char) : factorStops (op.word ++ l) := by
  cases op
  all_goals exact factorStops_cons (by decide) (by decide) (by decide) (by decide) (by decide) _

theorem factorStops_sumOp (op : SumOp) (l : List Char) : factorStops (op.word ++ l) := by
  cases op
  all_goals exact factorStops_cons (by decide) (by decide) (by decide) (by decide) (by decide) _

theorem factorStops_comparison (op : Comparison) (l : List Char) : factorStops (op.word ++ l) := by
  cases op
  all_goals exact factorStops_cons (by decide) (by decide) (by decide) (by decide) (by decide) _

theorem factorStops_connective (op : Connective) (l : List Char) : factorStops (op.word ++ l) := by
  cases op with
  | xor =>
    -- a zero in front of it does not become a hexadecimal number, for `o` is no digit
    refine ⟨⟨by simp [Connective.word], ?_⟩, by simp [Connective.word]⟩
    show hexText ('0' :: upToE ('x' :: 'o' :: 'r' :: l)) = none
    simp [upToE, hexText, mantissa, isHexDigit]
  | and => exact factorStops_cons (by decide) (by decide) (by decide) (by decide) (by decide) _
  | or => exact factorStops_cons (by decide) (by decide) (by decide) (by decide) (by decide) _
  | nor => exact factorStops_cons (by decide) (by decide) (by decide) (by decide) (by decide) _

theorem bracket_none {α : Type} {word : α → List Char} {all : List α} (l : List Char)
    (h : ∀ a ∈ all, (word a).head? ≠ some ']' ∧ word a ≠ []) : readWord word all (']' :: l) = none := by
  refine readWord_none fun a ha => ?_
  obtain ⟨hne, hnil⟩ := h a ha
  obtain ⟨c, w, hw⟩ := List.exists_cons_of_ne_nil hnil
  refine ⟨c, by rw [hw]; rfl, ?_⟩
  rw [hw] at hne
  intro heq
  exact hne heq.symm

/-- An expression ends in front of a bracket. -/
theorem expressionStops_bracket (l : List Char) : expressionStops (']' :: l) := by
  have htrim : ltrim (']' :: l) = ']' :: l := ltrim_cons (by decide) l
  refine ⟨⟨⟨factorStops_cons (by decide) (by decide) (by decide) (by decide) (by decide) l, ?_⟩, ?_⟩,
    ?_, ?_⟩
  all_goals
    rw [htrim]
    exact bracket_none l (by decide)

end Stops

/-! ## Numbers and variables -/

section Numbers

variable {text rest l : List Char}

theorem IsSign.chars {sign : List Char} (h : IsSign sign) : ∀ c ∈ sign, c = '+' ∨ c = '-' := by
  intro c hc
  obtain rfl | rfl | rfl := h
  · exact absurd hc List.not_mem_nil
  · exact Or.inl (List.mem_singleton.mp hc)
  · exact Or.inr (List.mem_singleton.mp hc)

/-- A character of a decimal number. -/
def DecimalChar (c : Char) : Prop := c.isDigit = true ∨ c = '+' ∨ c = '-' ∨ c = '.'

theorem Decimal.chars (h : Decimal text) : ∀ c ∈ text, DecimalChar c := by
  have hsign : ∀ sign, IsSign sign → ∀ c ∈ sign, DecimalChar c := fun sign hsign c hc =>
    Or.inr ((hsign.chars c hc).imp_right Or.inl)
  intro c hc
  cases h with
  | whole hs hdigits hne =>
    obtain hc | hc := List.mem_append.mp hc
    · exact hsign _ hs c hc
    · exact Or.inl (hdigits c hc)
  | point hs hwhole hfrac hne =>
    obtain hc | hc := List.mem_append.mp hc
    · exact hsign _ hs c hc
    · obtain hc | hc := List.mem_append.mp hc
      · exact Or.inl (hwhole c hc)
      · obtain rfl | hc := List.mem_cons.mp hc
        · exact Or.inr (Or.inr (Or.inr rfl))
        · exact Or.inl (hfrac c hc)

theorem Decimal.ne_nil (h : Decimal text) : text ≠ [] := by
  cases h with
  | whole hsign hdigits hne => simp [hne]
  | point hsign hwhole hfrac hne => simp

theorem digit_ne {c d : Char} (hc : c.isDigit = true) (hd : d.isDigit = false) : c ≠ d := by
  rintro rfl
  rw [hc] at hd
  exact absurd hd (by decide)

theorem digit_not_space {c : Char} (hc : c.isDigit = true) : isSpace c = false := by
  by_contra hspace
  have hspace := Bool.not_eq_false _ ▸ hspace
  obtain rfl | rfl | rfl | rfl | rfl | rfl := isSpace_cases hspace
  all_goals exact absurd hc (by decide)

/-- No word, no white space and no bracket begins as a decimal number does. -/
theorem Decimal.head (h : Decimal text) : ∃ c l, text = c :: l ∧
    DecimalChar c ∧ isSpace c = false := by
  obtain ⟨c, l, rfl⟩ := List.exists_cons_of_ne_nil h.ne_nil
  have hc := h.chars c List.mem_cons_self
  refine ⟨c, l, rfl, hc, ?_⟩
  obtain hdigit | rfl | rfl | rfl := hc
  · exact digit_not_space hdigit
  · decide
  · decide
  · decide

/-- A decimal number has no `e` in it. -/
theorem Decimal.no_e (h : Decimal text) : ∀ c ∈ text, (c ≠ 'E' && c ≠ 'e') = true := by
  intro c hc
  obtain hdigit | rfl | rfl | rfl := h.chars c hc
  · simp [digit_ne hdigit (d := 'E') (by decide), digit_ne hdigit (d := 'e') (by decide)]
  · decide
  · decide
  · decide

theorem takeWhile_append_stop {p : Char → Bool} (h : ∀ c ∈ l, p c = true)
    (hrest : ∀ c ∈ rest.head?, p c = false) :
    (l ++ rest).takeWhile p = l ∧ (l ++ rest).dropWhile p = rest := by
  rw [List.takeWhile_append_of_pos h, List.dropWhile_append_of_pos h]
  cases rest with
  | nil => simp
  | cons c rest =>
    have hc := hrest c rfl
    simp [hc]

/-- Where a decimal number stops, the mantissa is read as it stands. -/
theorem mantissa_digits {digits : List Char} (hdigits : ∀ c ∈ digits, c.isDigit = true) (hne : digits ≠ [])
    (hrest : ∀ c ∈ rest.head?, c.isDigit = false ∧ c ≠ '.') :
    mantissa Char.isDigit (digits ++ rest) = some (digits, rest) := by
  obtain ⟨htake, hdrop⟩ := takeWhile_append_stop hdigits fun c hc => (hrest c hc).1
  unfold mantissa
  dsimp only
  rw [htake, hdrop]
  split
  · exact absurd rfl (hrest '.' rfl).2
  · rw [if_neg hne]

theorem mantissa_point {whole frac : List Char} (hwhole : ∀ c ∈ whole, c.isDigit = true)
    (hfrac : ∀ c ∈ frac, c.isDigit = true) (hne : whole ≠ [] ∨ frac ≠ [])
    (hrest : ∀ c ∈ rest.head?, c.isDigit = false) :
    mantissa Char.isDigit (whole ++ '.' :: (frac ++ rest)) = some (whole ++ '.' :: frac, rest) := by
  have hpoint : ∀ c ∈ ('.' :: (frac ++ rest)).head?, c.isDigit = false := by
    intro c hc
    obtain rfl : '.' = c := by simpa using hc
    decide
  obtain ⟨htake, hdrop⟩ := takeWhile_append_stop hwhole hpoint
  obtain ⟨htake', hdrop'⟩ := takeWhile_append_stop hfrac hrest
  unfold mantissa
  dsimp only
  rw [htake, hdrop]
  show (if whole = [] ∧ (frac ++ rest).takeWhile Char.isDigit = [] then none else _) = _
  rw [htake', hdrop', if_neg (by tauto)]

/-- What stands behind a sign: `strtof` reads the sign, and a decimal number from there. -/
theorem strtofText_of_mantissa {sign body tail : List Char} (hsign : IsSign sign)
    (hhead : ∀ c ∈ (body ++ tail).head?, c ≠ '+' ∧ c ≠ '-' ∧ isSpace c = false)
    (hhex : hexText (body ++ tail) = none)
    (hmantissa : mantissa Char.isDigit (body ++ tail) = some (body, tail)) :
    strtofText (sign ++ (body ++ tail)) = some (sign ++ body, tail) := by
  have hread : ∀ l : List Char, ltrim l = l → ((l.take 1).filter fun c => c = '+' || c = '-') = sign →
      l.drop sign.length = body ++ tail → strtofText l = some (sign ++ body, tail) := by
    intro l htrim hsign hdrop
    unfold strtofText
    dsimp only
    rw [htrim, hsign, hdrop, hhex, hmantissa]
    rfl
  obtain rfl | rfl | rfl := hsign
  · refine hread _ ?_ ?_ rfl
    · cases hbody : body ++ tail with
      | nil => rfl
      | cons c l =>
        rw [hbody] at hhead
        exact ltrim_cons (hhead c rfl).2.2 l
    · cases hbody : body ++ tail with
      | nil => rfl
      | cons c l =>
        rw [hbody] at hhead
        obtain ⟨hplus, hminus, -⟩ := hhead c rfl
        simp [hplus, hminus]
  · exact hread _ (ltrim_cons (by decide) _) rfl rfl
  · exact hread _ (ltrim_cons (by decide) _) rfl rfl

theorem digit_head {c : Char} (hc : c.isDigit = true) : c ≠ '+' ∧ c ≠ '-' ∧ isSpace c = false :=
  ⟨digit_ne hc (by decide), digit_ne hc (by decide), digit_not_space hc⟩

/-- Digits are no hexadecimal number, unless a zero is followed by what makes it one. -/
theorem hexText_digits {digits : List Char} (hdigits : ∀ c ∈ digits, c.isDigit = true)
    (hne : digits ≠ []) (hrest : hexText ('0' :: rest) = none) : hexText (digits ++ rest) = none := by
  obtain ⟨c, digits, rfl⟩ := List.exists_cons_of_ne_nil hne
  by_cases hc : c = '0'
  · subst hc
    cases digits with
    | nil => exact hrest
    | cons d digits =>
      have hd := hdigits d (by simp)
      have hx : d ≠ 'x' := digit_ne hd (by decide)
      have hX : d ≠ 'X' := digit_ne hd (by decide)
      show (if d = 'x' ∨ d = 'X' then _ else none) = none
      exact if_neg (by simp [hx, hX])
  · unfold hexText
    split
    · next heq =>
      exact absurd (List.cons.inj heq).1 hc
    · rfl

theorem hexText_point {whole : List Char} (hwhole : ∀ c ∈ whole, c.isDigit = true) (l : List Char) :
    hexText (whole ++ '.' :: l) = none := by
  cases whole with
  | nil => rfl
  | cons c whole =>
    exact hexText_digits hwhole (List.cons_ne_nil _ _) rfl

/-- A decimal number is read up to where it stops. -/
theorem strtofText_decimal (h : Decimal text) (hpoint : ∀ c ∈ rest.head?, c.isDigit = false ∧ c ≠ '.')
    (hhex : hexText ('0' :: rest) = none) : strtofText (text ++ rest) = some (text, rest) := by
  cases h with
  | @whole sign digits hsign hdigits hne =>
    rw [List.append_assoc]
    refine strtofText_of_mantissa hsign ?_ (hexText_digits hdigits hne hhex)
      (mantissa_digits hdigits hne hpoint)
    intro c hc
    obtain ⟨d, l, rfl⟩ := List.exists_cons_of_ne_nil hne
    obtain rfl : d = c := by simpa using hc
    exact digit_head (hdigits d List.mem_cons_self)
  | @point sign whole frac hsign hwhole hfrac hne =>
    have hshape : whole ++ '.' :: frac ++ rest = whole ++ '.' :: (frac ++ rest) := by simp
    rw [List.append_assoc]
    refine strtofText_of_mantissa hsign ?_ ?_ ?_
    · intro c hc
      rw [hshape] at hc
      cases whole with
      | nil =>
        obtain rfl : '.' = c := by simpa using hc
        decide
      | cons d whole =>
        obtain rfl : d = c := by simpa using hc
        exact digit_head (hwhole d List.mem_cons_self)
    · rw [hshape]
      exact hexText_point hwhole _
    · rw [hshape]
      exact mantissa_point hwhole hfrac hne fun c hc => (hpoint c hc).1

/-- The number of a factor, where it is a decimal one. -/
theorem readNumber_decimal {F : Type} (A : FloatOps F) (h : Decimal text) (hstops : numberStops rest) :
    readNumber A (text ++ rest) = .ok (A.ofText text, rest) := by
  have hno := h.no_e
  have htake : (text ++ rest).takeWhile (fun c => c ≠ 'E' && c ≠ 'e') = text ++ upToE rest :=
    List.takeWhile_append_of_pos hno
  have hdrop : (text ++ rest).dropWhile (fun c => c ≠ 'E' && c ≠ 'e') =
      rest.dropWhile fun c => c ≠ 'E' && c ≠ 'e' :=
    List.dropWhile_append_of_pos hno
  have hpoint : ∀ c ∈ (upToE rest).head?, c.isDigit = false ∧ c ≠ '.' := by
    intro c hc
    refine hstops.1 c ?_
    unfold upToE at hc
    cases rest with
    | nil => exact hc
    | cons d rest =>
      rw [List.takeWhile_cons] at hc
      split at hc
      · exact hc
      · exact absurd hc (by simp)
  unfold readNumber
  dsimp only
  rw [htake, hdrop, strtofText_decimal h hpoint hstops.2]
  show Except.ok (A.ofText text, upToE rest ++ _) = _
  unfold upToE
  rw [List.takeWhile_append_dropWhile]

theorem signSplit_other {c : Char} (hminus : c ≠ '-') (hplus : c ≠ '+') (l : List Char) :
    signSplit (c :: l) = (false, c :: l) := by
  unfold signSplit
  split
  · next heq => exact absurd (List.cons.inj heq).1 hminus
  · next heq => exact absurd (List.cons.inj heq).1 hplus
  · rfl

/-- The number of a variable is read up to where its digits stop. -/
theorem strtol_append {digits : List Char} {n : Int} (h : strtol digits = some (n, []))
    (hrest : ∀ c ∈ rest.head?, c.isDigit = false) : strtol (digits ++ rest) = some (n, rest) := by
  rw [strtol_eq] at h
  split at h
  · exact absurd h (by simp)
  · next hne =>
    obtain ⟨hvalue, hdrop⟩ := Prod.mk.inj (Option.some.inj h)
    -- Nothing is left behind the digits, so all that follows the sign is digits.
    have hall : ∀ c ∈ (signSplit (ltrim digits)).2, c.isDigit = true := by
      have hsplit := List.takeWhile_append_dropWhile (p := Char.isDigit)
        (l := (signSplit (ltrim digits)).2)
      rw [hdrop, List.append_nil] at hsplit
      intro c hc
      rw [← hsplit] at hc
      exact List.mem_takeWhile_imp hc
    have hnil : ltrim digits ≠ [] := by
      intro hnil
      rw [hnil] at hne
      exact hne rfl
    have htrim : ltrim (digits ++ rest) = ltrim digits ++ rest := by
      show List.dropWhile isSpace (digits ++ rest) = List.dropWhile isSpace digits ++ rest
      have hempty : (digits.dropWhile isSpace).isEmpty = false := List.isEmpty_eq_false_iff.mpr hnil
      rw [List.dropWhile_append, if_neg (by rw [hempty]; decide)]
    have hsign : signSplit (ltrim digits ++ rest) =
        ((signSplit (ltrim digits)).1, (signSplit (ltrim digits)).2 ++ rest) := by
      obtain ⟨c, l, hl⟩ := List.exists_cons_of_ne_nil hnil
      rw [hl]
      by_cases hminus : c = '-'
      · subst hminus
        rfl
      · by_cases hplus : c = '+'
        · subst hplus
          rfl
        · rw [signSplit_other hminus hplus, List.cons_append, signSplit_other hminus hplus]
    obtain ⟨htake', hdrop'⟩ := takeWhile_append_stop hall hrest
    rw [strtol_eq, htrim, hsign]
    dsimp only
    rw [htake', hdrop']
    have hsame : (signSplit (ltrim digits)).2.takeWhile Char.isDigit = (signSplit (ltrim digits)).2 :=
      List.takeWhile_eq_self_iff.mpr hall
    rw [hsame] at hvalue hne
    rw [if_neg hne, hvalue]

end Numbers

end CarveraFirmware.Gcode
