import Mathlib
import CarveraFirmware.Library.Fuel
import CarveraFirmware.Gcode.Expression

/-!
# The evaluation ends

Each part of the evaluator reads on from where it begins, and none goes deeper than the length of the
text allows.
-/

namespace CarveraFirmware.Gcode

open Jobs.OCode (isSpace ltrim strtol)

variable {F : Type} {A : FloatOps F} {vars : Variables F}

/-! ## More fuel -/

/-- Each part of the evaluator gives with more fuel what it has given. -/
structure GrowAt (A : FloatOps F) (vars : Variables F) (n : Nat) : Prop where
  expression : ∀ e r, parseExpression A vars n e = some r → parseExpression A vars (n + 1) e = some r
  sums : ∀ x r, parseSums A vars n x = some r → parseSums A vars (n + 1) x = some r
  term : ∀ e r, parseTerm A vars n e = some r → parseTerm A vars (n + 1) e = some r
  products : ∀ x r, parseProducts A vars n x = some r → parseProducts A vars (n + 1) x = some r
  factor : ∀ e r, parseFactor A vars n e = some r → parseFactor A vars (n + 1) e = some r
  powers : ∀ x r, parsePowers A vars n x = some r → parsePowers A vars (n + 1) x = some r

theorem applyWord_le {α : Type} {word : α → List Char} {all : List α} {value : α → F → F → F}
    {parse parse' : List Char → Option (Parsed F)} {x r : Parsed F}
    (hparse : ∀ e r, parse e = some r → parse' e = some r)
    (h : applyWord word all value parse x = some r) : applyWord word all value parse' x = some r := by
  unfold applyWord at h ⊢
  split at h
  · exact h
  · exact map_le h (hparse _)

theorem inBrackets_le {value : F → F} {text : String} {parse parse' : List Char → Option (Parsed F)}
    {powers powers' : Parsed F → Option (Parsed F)} {e : List Char} {r : Parsed F}
    (hparse : ∀ e r, parse e = some r → parse' e = some r)
    (hpowers : ∀ x r, powers x = some r → powers' x = some r)
    (h : inBrackets A value text parse powers e = some r) :
    inBrackets A value text parse' powers' e = some r := by
  refine bind_le h (hparse e) fun arg r h => ?_
  split at h
  · exact hpowers _ r h
  · exact h

theorem growAt (n : Nat) : GrowAt A vars n := by
  induction n with
  | zero =>
    constructor
    all_goals
      intro x r h
      simp [parseExpression, parseSums, parseTerm, parseProducts, parseFactor, parsePowers] at h
  | succ n ih =>
    constructor
    case expression =>
      intro e r h
      rw [parseExpression] at h ⊢
      split at h
      · next hhead => rw [if_pos hhead]; exact h
      · next hhead =>
        rw [if_neg hhead]
        refine bind_le h (ih.term e) fun term r h => ?_
        refine bind_le h (ih.sums _) fun sum r h => ?_
        exact bind_le h (fun _ => applyWord_le ih.expression) fun _ _ => applyWord_le ih.expression
    case sums =>
      intro x r h
      rw [parseSums] at h ⊢
      split at h
      · exact h
      · exact bind_le h (ih.term _) fun term r h => ih.sums _ r h
    case term =>
      intro e r h
      rw [parseTerm] at h ⊢
      exact bind_le h (ih.factor _) fun factor r h => ih.products _ r h
    case products =>
      intro x r h
      rw [parseProducts] at h ⊢
      split at h
      · exact h
      · refine bind_le h (ih.factor _) fun factor r h => ?_
        split at h
        · exact ih.products _ r h
        · exact h
    case factor =>
      intro e r h
      rw [parseFactor] at h ⊢
      split at h
      · exact inBrackets_le ih.expression ih.powers h
      · exact h
      · split at h
        · exact inBrackets_le ih.expression ih.powers h
        · exact ih.powers _ r h
        · split at h
          · exact ih.powers _ r h
          · exact h
    case powers =>
      intro x r h
      rw [parsePowers] at h ⊢
      split at h
      · exact bind_le h (ih.factor _) fun exponent r h => ih.powers _ r h
      · exact h

/-! ## What the readers leave -/

theorem ltrim_suffix (l : List Char) : ltrim l <:+ l := List.dropWhile_suffix _

section Readers

variable {α : Type} {word : α → List Char} {all : List α} {l rest text : List Char} {a : α}

theorem readWord_some (h : readWord word all l = some (a, rest)) : a ∈ all ∧ l = word a ++ rest := by
  unfold readWord at h
  obtain ⟨b, hfind, heq⟩ := Option.map_eq_some_iff.mp h
  obtain ⟨rfl, rfl⟩ := Prod.ext_iff.mp heq
  refine ⟨List.mem_of_find?_eq_some hfind, ?_⟩
  have hprefix : word b <+: l := List.isPrefixOf_iff_prefix.mp (by simpa using List.find?_some hfind)
  obtain ⟨t, rfl⟩ := hprefix
  simp

/-- The sign that `strtol` reads, and what follows it. -/
def signSplit (l : List Char) : Bool × List Char :=
  match l with
  | '-' :: l => (true, l)
  | '+' :: l => (false, l)
  | l => (false, l)

/-- What `strtol` makes of its digits. -/
def digitsValue (negative : Bool) (digits : List Char) : Int :=
  let n : Int := digits.foldl (fun n c => 10 * n + (c.toNat - '0'.toNat : Nat)) 0
  max (-2 ^ 31) (min (2 ^ 31 - 1) (if negative then -n else n))

theorem strtol_eq (l : List Char) : strtol l =
    if (signSplit (ltrim l)).2.takeWhile Char.isDigit = [] then none
    else some
      (digitsValue (signSplit (ltrim l)).1 ((signSplit (ltrim l)).2.takeWhile Char.isDigit),
        (signSplit (ltrim l)).2.dropWhile Char.isDigit) := rfl

theorem signSplit_suffix (l : List Char) : (signSplit l).2 <:+ l := by
  unfold signSplit
  split
  · exact List.suffix_cons _ _
  · exact List.suffix_cons _ _
  · exact List.suffix_refl _

theorem strtol_suffix {num : Int} (h : strtol l = some (num, rest)) : rest <:+ l := by
  rw [strtol_eq] at h
  split at h
  · exact absurd h (by simp)
  · obtain ⟨-, rfl⟩ := Prod.mk.inj (Option.some.inj h)
    exact (List.dropWhile_suffix _).trans ((signSplit_suffix _).trans (ltrim_suffix l))

theorem mantissa_append {digit : Char → Bool} (h : mantissa digit l = some (text, rest)) :
    text ++ rest = l := by
  unfold mantissa at h
  dsimp only at h
  split at h
  · next frac hdot =>
    split at h
    · exact absurd h (by simp)
    · obtain ⟨rfl, rfl⟩ := Prod.mk.inj (Option.some.inj h)
      rw [List.append_assoc, List.cons_append, List.takeWhile_append_dropWhile, ← hdot,
        List.takeWhile_append_dropWhile]
  · split at h
    · exact absurd h (by simp)
    · obtain ⟨rfl, rfl⟩ := Prod.mk.inj (Option.some.inj h)
      exact List.takeWhile_append_dropWhile

theorem hexExponent_append (l : List Char) : (hexExponent l).1 ++ (hexExponent l).2 = l := by
  unfold hexExponent
  split
  · next p rest =>
    split
    · dsimp only
      split
      · rfl
      · have hsign : (rest.take 1).filter (fun c => c = '+' || c = '-') ++
            rest.drop ((rest.take 1).filter fun c => c = '+' || c = '-').length = rest := by
          cases rest with
          | nil => rfl
          | cons c rest =>
            by_cases hc : (c = '+' || c = '-') = true
            · simp [hc]
            · simp [hc]
        show p :: (_ ++ _ ++ _) = p :: rest
        rw [List.append_assoc, List.takeWhile_append_dropWhile, hsign]
    · rfl
  · rfl

theorem hexText_append (h : hexText l = some (text, rest)) : text ++ rest = l := by
  unfold hexText at h
  split at h
  · next x digits =>
    split at h
    · obtain ⟨r, hr, heq⟩ := Option.map_eq_some_iff.mp h
      obtain ⟨rfl, rfl⟩ := Prod.mk.inj heq
      have hmantissa : r.1 ++ r.2 = digits := mantissa_append hr
      rw [← hmantissa, List.append_assoc, hexExponent_append]
      rfl
    · exact absurd h (by simp)
  · exact absurd h (by simp)

theorem wordText_append (h : wordText l = some (text, rest)) : text ++ rest = l := by
  have hcut : ∀ n, l.take n ++ l.drop n = l := fun n => List.take_append_drop n l
  unfold wordText at h
  dsimp only at h
  split at h
  · obtain ⟨rfl, rfl⟩ := Prod.mk.inj (Option.some.inj h)
    exact hcut 8
  · split at h
    · obtain ⟨rfl, rfl⟩ := Prod.mk.inj (Option.some.inj h)
      exact hcut 3
    · split at h
      · split at h
        · next inside hparen =>
          split at h
          · next tail hclose =>
            obtain ⟨rfl, rfl⟩ := Prod.mk.inj (Option.some.inj h)
            have hfour : l.take 4 = l.take 3 ++ ['('] := by
              rw [List.take_add_one, ← List.head?_drop, hparen]
              rfl
            have hinside : inside.takeWhile (fun c => c.isAlphanum || c = '_') ++ ')' :: tail =
                inside := by
              rw [← hclose]
              exact (List.prefix_iff_eq_append.mp (List.takeWhile_prefix _))
            have := hcut 3
            rw [hparen] at this
            rw [hfour]
            simp only [List.append_assoc, List.cons_append, List.nil_append]
            rw [hinside]
            exact this
          · obtain ⟨rfl, rfl⟩ := Prod.mk.inj (Option.some.inj h)
            exact hcut 3
        · obtain ⟨rfl, rfl⟩ := Prod.mk.inj (Option.some.inj h)
          exact hcut 3
      · exact absurd h (by simp)

theorem sign_append (l : List Char) :
    (l.take 1).filter (fun c => c = '+' || c = '-') ++
      l.drop ((l.take 1).filter fun c => c = '+' || c = '-').length = l := by
  cases l with
  | nil => rfl
  | cons c l =>
    by_cases hc : (c = '+' || c = '-') = true
    · simp [hc]
    · simp [hc]

/-- The number is what the text begins with, behind white space. -/
theorem strtofText_append (h : strtofText l = some (text, rest)) : text ++ rest = ltrim l := by
  unfold strtofText at h
  obtain ⟨r, hr, heq⟩ := Option.map_eq_some_iff.mp h
  obtain ⟨rfl, rfl⟩ := Prod.mk.inj heq
  have happend : r.1 ++ r.2 =
      (ltrim l).drop (((ltrim l).take 1).filter fun c => c = '+' || c = '-').length := by
    obtain hhex | ⟨-, hr⟩ := (Option.orElse_eq_some _ _ _).mp hr
    · exact hexText_append hhex
    · obtain hmantissa | ⟨-, hword⟩ := (Option.orElse_eq_some _ _ _).mp hr
      · exact mantissa_append hmantissa
      · exact wordText_append hword
  rw [List.append_assoc, happend]
  exact sign_append _

theorem readNumber_suffix {value : F} (h : readNumber A l = .ok (value, rest)) : rest <:+ l := by
  unfold readNumber at h
  dsimp only at h
  split at h
  · next text tail hread =>
    obtain ⟨-, rfl⟩ := Prod.mk.inj (Except.ok.inj h)
    -- what `strtof` leaves of the cut text goes in front of the `e` again
    have htail : tail <:+ l.takeWhile fun c => c ≠ 'E' && c ≠ 'e' := by
      refine List.IsSuffix.trans ?_ (ltrim_suffix _)
      rw [← strtofText_append hread]
      exact List.suffix_append _ _
    obtain ⟨front, hfront⟩ := htail
    refine ⟨front, ?_⟩
    rw [← List.append_assoc, hfront, List.takeWhile_append_dropWhile]
  · exact absurd h (by simp)

end Readers

theorem getVariableValue_suffix (e : List Char) : (getVariableValue A vars e).expr <:+ e := by
  unfold getVariableValue
  split
  · next digits =>
    have hrest : ((strtol digits).getD (0, digits)).2 <:+ digits := by
      cases hread : strtol digits with
      | none => exact List.suffix_refl _
      | some r => exact strtol_suffix hread
    dsimp only
    split
    · exact hrest.trans (List.suffix_cons _ _)
    · exact hrest.trans (List.suffix_cons _ _)
  · exact List.suffix_refl _

/-! ## The bound on the depth -/

/-- The part gives something, which stands further on, behind the errors that there are. -/
def Ends (parsed : Option (Parsed F)) (e : List Char) (errors : List String) : Prop :=
  ∃ r, parsed = some r ∧ r.expr <:+ e ∧ errors <+: r.errors

section Ends

variable {parsed : Option (Parsed F)} {e e' : List Char} {errors errors' : List String} {r x : Parsed F}

theorem ends_some (r : Parsed F) (he : r.expr <:+ e) (herrors : errors <+: r.errors) :
    Ends (some r) e errors := ⟨r, rfl, he, herrors⟩

theorem Ends.weaken (h : Ends parsed e errors) (he : e <:+ e') (herrors : errors' <+: errors) :
    Ends parsed e' errors' := by
  obtain ⟨r, hr, hexpr, hprefix⟩ := h
  exact ⟨r, hr, hexpr.trans he, herrors.trans hprefix⟩

theorem Ends.bind (h : Ends parsed e errors) {k : Parsed F → Option (Parsed F)}
    (hk : ∀ r, r.expr <:+ e → errors <+: r.errors → Ends (k r) e errors) :
    Ends (parsed.bind k) e errors := by
  obtain ⟨r, rfl, hexpr, hprefix⟩ := h
  exact hk r hexpr hprefix

theorem skip_suffix (r : Parsed F) : r.skip.expr <:+ r.expr := ltrim_suffix _

theorem Ends.skip {k : Parsed F → Option (Parsed F)} (h : Ends (k r.skip) r.skip.expr r.skip.errors) :
    Ends (k r.skip) r.expr r.errors :=
  h.weaken (skip_suffix r) (List.prefix_refl _)

theorem readWord_lt {α : Type} {word : α → List Char} {all : List α} {l rest : List Char} {a : α}
    (hword : ∀ a, word a ≠ []) (h : readWord word all l = some (a, rest)) :
    rest <:+ l ∧ rest.length < l.length := by
  obtain ⟨-, rfl⟩ := readWord_some h
  refine ⟨List.suffix_append _ _, ?_⟩
  have := List.length_pos_iff.mpr (hword a)
  rw [List.length_append]
  omega

theorem applyWord_ends {α : Type} {word : α → List Char} {all : List α} {value : α → F → F → F}
    {parse : List Char → Option (Parsed F)} (hword : ∀ a, word a ≠ [])
    (hparse : ∀ e, e.length < x.expr.length → Ends (parse e) e []) :
    Ends (applyWord word all value parse x) x.expr x.errors := by
  unfold applyWord
  split
  · exact ends_some x (List.suffix_refl _) (List.prefix_refl _)
  · next op rest hread =>
    obtain ⟨hsuffix, hlt⟩ := readWord_lt hword hread
    have htrim := ltrim_suffix rest
    obtain ⟨r, hr, hexpr, -⟩ := hparse (ltrim rest) (Nat.lt_of_le_of_lt htrim.length_le hlt)
    rw [hr]
    exact ends_some _ (hexpr.trans (htrim.trans hsuffix)) (List.prefix_append _ _)

end Ends

theorem Comparison.word_ne_nil (op : Comparison) : op.word ≠ [] := by cases op <;> decide

theorem Connective.word_ne_nil (op : Connective) : op.word ≠ [] := by cases op <;> decide

theorem TermOp.word_ne_nil (op : TermOp) : op.word ≠ [] := by cases op <;> decide

theorem SumOp.word_ne_nil (op : SumOp) : op.word ≠ [] := by cases op <;> decide

theorem Function.word_ne_nil (f : Function) : f.word ≠ [] := by cases f <;> decide

/-- With so much fuel each part of the evaluator ends. -/
structure EndAt (A : FloatOps F) (vars : Variables F) (n : Nat) : Prop where
  expression : ∀ e, 3 * e.length + 4 ≤ n → Ends (parseExpression A vars n e) e []
  sums : ∀ x, 3 * x.expr.length + 2 ≤ n → Ends (parseSums A vars n x) x.expr x.errors
  term : ∀ e, 3 * e.length + 3 ≤ n → Ends (parseTerm A vars n e) e []
  products : ∀ x, 3 * x.expr.length + 1 ≤ n → Ends (parseProducts A vars n x) x.expr x.errors
  factor : ∀ e, 3 * e.length + 2 ≤ n → Ends (parseFactor A vars n e) e []
  powers : ∀ x, 3 * x.expr.length + 1 ≤ n → Ends (parsePowers A vars n x) x.expr x.errors

section Step

variable {n : Nat}

theorem EndAt.expression_step (ih : EndAt A vars n) (e : List Char) (hn : 3 * e.length + 4 ≤ n + 1) :
    Ends (parseExpression A vars (n + 1) e) e [] := by
  rw [parseExpression]
  split
  · exact ends_some _ (List.suffix_refl _) (List.nil_prefix)
  · refine (ih.term e (by omega)).bind fun term hterm _ => ?_
    have hskip := (skip_suffix term).trans hterm
    refine (((ih.sums term.skip (by have := hskip.length_le; omega)).weaken hskip
      List.nil_prefix)).bind fun sum hsum _ => ?_
    have hrest : ∀ x : Parsed F, x.expr <:+ e → ∀ e', e'.length < x.expr.length →
        Ends (parseExpression A vars n e') e' [] := fun x hx e' he' =>
      ih.expression e' (by have := hx.length_le; omega)
    refine ((applyWord_ends Comparison.word_ne_nil (hrest sum hsum)).weaken hsum List.nil_prefix).bind
      fun compared hcompared _ => ?_
    exact (applyWord_ends Connective.word_ne_nil (hrest compared hcompared)).weaken hcompared
      List.nil_prefix

theorem EndAt.sums_step (ih : EndAt A vars n) (x : Parsed F) (hn : 3 * x.expr.length + 2 ≤ n + 1) :
    Ends (parseSums A vars (n + 1) x) x.expr x.errors := by
  rw [parseSums]
  split
  · exact ends_some x (List.suffix_refl _) (List.prefix_refl _)
  · next op rest hread =>
    obtain ⟨hsuffix, hlt⟩ := readWord_lt SumOp.word_ne_nil hread
    obtain ⟨term, hterm, hexpr, -⟩ := ih.term rest (by omega)
    rw [hterm]
    have hall := hexpr.trans hsuffix
    refine Ends.weaken (Ends.skip (ih.sums _ ?_)) hall (List.prefix_append _ _)
    have := (skip_suffix (x.andThen term (op.value A x.value term.value))).length_le
    have := hexpr.length_le
    simp only [Parsed.andThen] at *
    omega

theorem EndAt.term_step (ih : EndAt A vars n) (e : List Char) (hn : 3 * e.length + 3 ≤ n + 1) :
    Ends (parseTerm A vars (n + 1) e) e [] := by
  rw [parseTerm]
  refine (ih.factor e (by omega)).bind fun factor hfactor _ => ?_
  have hskip := (skip_suffix factor).trans hfactor
  have hle := hskip.length_le
  exact (ih.products factor.skip (by omega)).weaken hskip List.nil_prefix

theorem EndAt.products_step (ih : EndAt A vars n) (x : Parsed F) (hn : 3 * x.expr.length + 1 ≤ n + 1) :
    Ends (parseProducts A vars (n + 1) x) x.expr x.errors := by
  rw [parseProducts]
  split
  · exact ends_some x (List.suffix_refl _) (List.prefix_refl _)
  · next op rest hread =>
    obtain ⟨hsuffix, hlt⟩ := readWord_lt TermOp.word_ne_nil hread
    -- the white space that is skipped behind `mod` makes the text shorter still
    have hbegin : (if op = .mod then ltrim rest else rest) <:+ rest := by
      split
      · exact ltrim_suffix rest
      · exact List.suffix_refl _
    have hlength := hbegin.length_le
    obtain ⟨factor, hfactor, hexpr, -⟩ := ih.factor (if op = .mod then ltrim rest else rest) (by omega)
    rw [hfactor, Option.bind_some]
    have hall := hexpr.trans (hbegin.trans hsuffix)
    split
    · next value _ =>
      refine Ends.weaken (Ends.skip (ih.products _ ?_)) hall (List.prefix_append _ _)
      have := (skip_suffix (x.andThen factor value)).length_le
      have := hexpr.length_le
      simp only [Parsed.andThen] at *
      omega
    · refine ends_some _ hall ?_
      exact (List.prefix_append _ _).trans (List.prefix_append _ _)

theorem EndAt.powers_step (ih : EndAt A vars n) (x : Parsed F) (hn : 3 * x.expr.length + 1 ≤ n + 1) :
    Ends (parsePowers A vars (n + 1) x) x.expr x.errors := by
  rw [parsePowers]
  split
  · next rest hpower =>
    have hsuffix : rest <:+ x.expr := hpower ▸ List.suffix_cons _ _
    have hlength : x.expr.length = rest.length + 1 := by rw [hpower, List.length_cons]
    obtain ⟨exponent, hexponent, hexpr, -⟩ := ih.factor rest (by omega)
    rw [hexponent, Option.bind_some]
    have := hexpr.length_le
    refine (ih.powers _ ?_).weaken (hexpr.trans hsuffix) (List.prefix_append _ _)
    simp only [Parsed.andThen]
    omega
  · exact ends_some x (List.suffix_refl _) (List.prefix_refl _)

theorem EndAt.bracketed (ih : EndAt A vars n) {e rest : List Char} (hsuffix : rest <:+ e)
    (hlength : rest.length < e.length) (hn : 3 * e.length + 2 ≤ n + 1) (value : F → F) (text : String) :
    Ends (inBrackets A value text (parseExpression A vars n) (parsePowers A vars n) rest) e [] := by
  obtain ⟨arg, harg, hexpr, -⟩ := ih.expression rest (by omega)
  unfold inBrackets
  rw [harg, Option.bind_some]
  have hall := hexpr.trans hsuffix
  have hle := hexpr.length_le
  split
  · next tail hclose =>
    have htail : tail <:+ arg.expr := hclose ▸ List.suffix_cons _ _
    have htailLength : arg.expr.length = tail.length + 1 := by rw [hclose, List.length_cons]
    exact (ih.powers _ (by dsimp only; omega)).weaken (htail.trans hall) List.nil_prefix
  · exact ends_some _ hall List.nil_prefix

theorem EndAt.factor_step (ih : EndAt A vars n) (e : List Char) (hn : 3 * e.length + 2 ≤ n + 1) :
    Ends (parseFactor A vars (n + 1) e) e [] := by
  rw [parseFactor]
  have htrim := ltrim_suffix e
  have hlength := htrim.length_le
  refine Ends.weaken (e := ltrim e) ?_ htrim (List.prefix_refl _)
  split
  · next f rest hread =>
    obtain ⟨hsuffix, hlt⟩ := readWord_lt Function.word_ne_nil hread
    rw [List.length_cons] at hlt
    exact ih.bracketed ((List.suffix_cons _ _).trans hsuffix) (by omega) (by omega) _ _
  · next f rest _ hread =>
    exact ends_some _ (readWord_lt Function.word_ne_nil hread).1 List.nil_prefix
  · split
    · next rest hbracket =>
      have hsuffix : rest <:+ ltrim e := hbracket ▸ List.suffix_cons _ _
      have hlt : (ltrim e).length = rest.length + 1 := by rw [hbracket, List.length_cons]
      exact ih.bracketed hsuffix (by omega) (by omega) _ _
    · have hvar : (getVariableValue A vars (ltrim e)).expr <:+ ltrim e := getVariableValue_suffix _
      have hle := hvar.length_le
      exact (ih.powers _ (by omega)).weaken hvar List.nil_prefix
    · split
      · next value rest hread =>
        have hsuffix := readNumber_suffix hread
        have hle := hsuffix.length_le
        exact (ih.powers _ (by dsimp only; omega)).weaken hsuffix List.nil_prefix
      · exact ends_some _ (List.dropWhile_suffix _) List.nil_prefix

end Step

theorem endAt (A : FloatOps F) (vars : Variables F) (n : Nat) : EndAt A vars n := by
  -- a call on the same text goes down a level, and there are three above the readers of the text
  induction n with
  | zero => exact ⟨by omega, by omega, by omega, by omega, by omega, by omega⟩
  | succ n ih =>
    exact ⟨ih.expression_step, ih.sums_step, ih.term_step, ih.products_step, ih.factor_step,
      ih.powers_step⟩

end CarveraFirmware.Gcode
