import Mathlib
import CarveraFirmware.Gcode.ExpressionParts

/-!
# What is read without an error is well formed

Where the evaluator reads a text without an error, what it has read is the spelling of a tree, and the
value is what the tree means.
-/

namespace CarveraFirmware.Gcode

open Jobs.OCode (isSpace ltrim strtol)

/-- A text that `strtof` reads as a number where it stands. -/
def Readable (text : List Char) : Prop := ∃ rest, strtofText (text ++ rest) = some (text, rest)

variable {F : Type} {A : FloatOps F} {vars : Variables F} {e rest : List Char} {x r : Parsed F} {n : Nat}

/-! ## Errors are kept -/

theorem sums_reads (h : parseSums A vars n x = some r) : x.errors <+: r.errors := by
  obtain ⟨b, hb, hprefix⟩ := exists_sumsIs A vars x
  have hgrow : Grows fun n => parseSums A vars n x := fun n r => (growAt n).sums x r
  exact hgrow.eq_of_settles h hb ▸ hprefix

theorem products_reads (h : parseProducts A vars n x = some r) : x.errors <+: r.errors := by
  obtain ⟨b, hb, hprefix⟩ := exists_productsIs A vars x
  have hgrow : Grows fun n => parseProducts A vars n x := fun n r => (growAt n).products x r
  exact hgrow.eq_of_settles h hb ▸ hprefix

theorem powers_reads (h : parsePowers A vars n x = some r) : x.errors <+: r.errors := by
  obtain ⟨b, hb, hprefix⟩ := exists_powersIs A vars x
  have hgrow : Grows fun n => parsePowers A vars n x := fun n r => (growAt n).powers x r
  exact hgrow.eq_of_settles h hb ▸ hprefix

theorem nil_of_prefix {errors errors' : List String} (h : errors <+: errors') (hnil : errors' = []) :
    errors = [] := List.prefix_nil.mp (hnil ▸ h)

/-! ## Spelling what has been read -/

theorem exists_spaces (l : List Char) : ∃ ws, Spaces ws ∧ l = ws ++ ltrim l := by
  refine ⟨l.takeWhile isSpace, ?_, (List.takeWhile_append_dropWhile).symm⟩
  intro c hc
  exact List.mem_takeWhile_imp hc

/-- White space may come in front of anything but a primary. -/
theorem Spells.lead {num : List Char → Prop} {level : Level} {s ws : List Char} {t : Expr}
    (h : Spells num level s t) (hws : Spaces ws) (hlevel : level ≠ .primary) :
    Spells num level (ws ++ s) t := by
  induction h with
  | number h => exact absurd rfl hlevel
  | var h => exact absurd rfl hlevel
  | call f h ih => exact absurd rfl hlevel
  | bracket h ih => exact absurd rfl hlevel
  | factor hws' h ih =>
    rw [← List.append_assoc]
    exact .factor (hws.append hws') h
  | pow hws' hx hy ihx ihy =>
    rw [← List.append_assoc]
    exact .pow (hws.append hws') hx hy
  | term h ih => exact .term (ih (by decide))
  | product op hx hws' hy ihx ihy =>
    rw [← List.append_assoc]
    exact .product op (ihx (by decide)) hws' hy
  | sum h ih => exact .sum (ih (by decide))
  | plus op hx hws' hy ihx ihy =>
    rw [← List.append_assoc]
    exact .plus op (ihx (by decide)) hws' hy
  | expression h hws' ih =>
    rw [← List.append_assoc]
    exact .expression (ih (by decide)) hws'
  | compare op hx hws' hy ihx ihy =>
    rw [← List.append_assoc]
    exact .compare op (ihx (by decide)) hws' hy
  | connect op hx hws' hy ihx ihy =>
    rw [← List.append_assoc]
    exact .connect op (ihx (by decide)) hws' hy

/-- What has been read from `e` up to `rest` spells a tree with the value. -/
def ReadAs (A : FloatOps F) (vars : Variables F) (level : Level) (e rest : List Char) (value : F) : Prop :=
  ∃ s t, Spells Readable level s t ∧ e = s ++ rest ∧ t.value A vars = .ok value

/-- The same, with white space behind it. -/
def ReadSpaced (A : FloatOps F) (vars : Variables F) (level : Level) (e rest : List Char) (value : F) :
    Prop :=
  ∃ front, ReadAs A vars level e front value ∧ ∃ ws, Spaces ws ∧ front = ws ++ rest

theorem ReadAs.spaced {level : Level} {value : F} (h : ReadAs A vars level e rest value) :
    ReadSpaced A vars level e (ltrim rest) value := by
  obtain ⟨ws, hws, hrest⟩ := exists_spaces rest
  exact ⟨rest, h, ws, hws, hrest⟩

/-- Two parts that have values, put together. -/
theorem bind_both {x y : Except String F} {v w : F} {k : F → F → Except String F} (hx : x = .ok v)
    (hy : y = .ok w) : (x.bind fun v => y.bind fun w => k v w) = k v w := by
  rw [hx]
  show y.bind _ = _
  rw [hy]
  rfl

/-- What each part of the evaluator has read. -/
structure SoundAt (A : FloatOps F) (vars : Variables F) (n : Nat) : Prop where
  expression : ∀ e r, parseExpression A vars n e = some r → r.errors = [] →
    ReadAs A vars .expression e r.expr r.value ∧
      readWord Connective.word Connective.all r.expr = none
  sums : ∀ e x r, parseSums A vars n x = some r → r.errors = [] →
    ReadSpaced A vars .sum e x.expr x.value → ReadSpaced A vars .sum e r.expr r.value
  term : ∀ e r, parseTerm A vars n e = some r → r.errors = [] →
    ReadSpaced A vars .term e r.expr r.value
  products : ∀ e x r, parseProducts A vars n x = some r → r.errors = [] →
    ReadSpaced A vars .term e x.expr x.value → ReadSpaced A vars .term e r.expr r.value
  factor : ∀ e r, parseFactor A vars n e = some r → r.errors = [] →
    ReadAs A vars .factor e r.expr r.value ∧ r.expr.head? ≠ some '^'
  powers : ∀ e ws x r, parsePowers A vars n x = some r → r.errors = [] → Spaces ws →
    ReadAs A vars .primary e x.expr x.value →
      ReadAs A vars .factor (ws ++ e) r.expr r.value ∧ r.expr.head? ≠ some '^'

section Steps

theorem SoundAt.powers_step (ih : SoundAt A vars n) (e ws : List Char) (x r : Parsed F)
    (h : parsePowers A vars (n + 1) x = some r) (hr : r.errors = []) (hws : Spaces ws)
    (hx : ReadAs A vars .primary e x.expr x.value) :
    ReadAs A vars .factor (ws ++ e) r.expr r.value ∧ r.expr.head? ≠ some '^' := by
  obtain ⟨s, t, hs, rfl, ht⟩ := hx
  rw [parsePowers] at h
  split at h
  · next rest hpower =>
    obtain ⟨y, hy, hnext⟩ := Option.bind_eq_some_iff.mp h
    have herrors := nil_of_prefix (powers_reads hnext) hr
    have hyerrors : y.errors = [] := (List.append_eq_nil_iff.mp herrors).2
    obtain ⟨⟨s', t', hs', rfl, ht'⟩, hstop⟩ := ih.factor rest y hy hyerrors
    -- no exponent is left, so the loop ends here
    have hlast : r = x.andThen y (A.pow x.value y.value) := by
      cases n with
      | zero => exact absurd hnext (by simp [parsePowers])
      | succ n =>
        rw [parsePowers] at hnext
        split at hnext
        · next heq => exact absurd (congrArg List.head? heq) hstop
        · exact (Option.some.inj hnext).symm
    subst hlast
    refine ⟨⟨_, _, .pow hws hs hs', ?_, ?_⟩, hstop⟩
    · rw [hpower]
      simp [Parsed.andThen]
    · exact bind_both ht ht'
  · next hpower =>
    obtain rfl := Option.some.inj h
    refine ⟨⟨_, _, .factor hws hs, by rw [List.append_assoc], ht⟩, ?_⟩
    intro heq
    obtain ⟨l, hl⟩ : ∃ l, x.expr = '^' :: l := by
      cases hexpr : x.expr with
      | nil => rw [hexpr] at heq; exact absurd heq (by simp)
      | cons c l =>
        rw [hexpr] at heq
        obtain rfl : c = '^' := by simpa using heq
        exact ⟨l, rfl⟩
    exact hpower l hl

theorem SoundAt.products_step (ih : SoundAt A vars n) (e : List Char) (x r : Parsed F)
    (h : parseProducts A vars (n + 1) x = some r) (hr : r.errors = [])
    (hx : ReadSpaced A vars .term e x.expr x.value) : ReadSpaced A vars .term e r.expr r.value := by
  rw [parseProducts] at h
  split at h
  · obtain rfl := Option.some.inj h
    exact hx
  · next op rest hread =>
    obtain ⟨y, hy, hnext⟩ := Option.bind_eq_some_iff.mp h
    rw [factor_behind] at hy
    obtain ⟨-, hexpr⟩ := readWord_some hread
    split at hnext
    · next value hvalue =>
      have herrors := nil_of_prefix (products_reads hnext) hr
      have hyerrors : y.errors = [] := (List.append_eq_nil_iff.mp herrors).2
      obtain ⟨⟨s', t', hs', rfl, ht'⟩, -⟩ := ih.factor rest y hy hyerrors
      refine ih.products e _ r hnext hr ?_
      obtain ⟨front, ⟨s, t, hs, rfl, ht⟩, ws, hws, rfl⟩ := hx
      refine ReadAs.spaced ⟨_, _, .product op hs hws hs', ?_, ?_⟩
      · rw [hexpr]
        simp [Parsed.andThen]
      · exact (bind_both ht ht').trans hvalue
    · obtain rfl := Option.some.inj hnext
      exact absurd (List.append_eq_nil_iff.mp hr).2 (by simp)

theorem SoundAt.sums_step (ih : SoundAt A vars n) (e : List Char) (x r : Parsed F)
    (h : parseSums A vars (n + 1) x = some r) (hr : r.errors = [])
    (hx : ReadSpaced A vars .sum e x.expr x.value) : ReadSpaced A vars .sum e r.expr r.value := by
  rw [parseSums] at h
  split at h
  · obtain rfl := Option.some.inj h
    exact hx
  · next op rest hread =>
    obtain ⟨y, hy, hnext⟩ := Option.bind_eq_some_iff.mp h
    obtain ⟨-, hexpr⟩ := readWord_some hread
    have herrors := nil_of_prefix (sums_reads hnext) hr
    have hyerrors : y.errors = [] := (List.append_eq_nil_iff.mp herrors).2
    obtain ⟨front', ⟨s', t', hs', rfl, ht'⟩, ws', hws', rfl⟩ := ih.term rest y hy hyerrors
    refine ih.sums e _ r hnext hr ?_
    obtain ⟨front, ⟨s, t, hs, rfl, ht⟩, ws, hws, rfl⟩ := hx
    obtain ⟨ws'', hws'', hexpr'⟩ := exists_spaces y.expr
    refine ⟨ws' ++ y.expr, ⟨_, _, .plus op hs hws hs', ?_, ?_⟩, ws' ++ ws'', hws'.append hws'', ?_⟩
    · rw [hexpr]
      simp
    · exact bind_both ht ht'
    · show ws' ++ y.expr = ws' ++ ws'' ++ ltrim y.expr
      rw [List.append_assoc, ← hexpr']

theorem SoundAt.term_step (ih : SoundAt A vars n) (e : List Char) (r : Parsed F)
    (h : parseTerm A vars (n + 1) e = some r) (hr : r.errors = []) :
    ReadSpaced A vars .term e r.expr r.value := by
  rw [parseTerm] at h
  obtain ⟨y, hy, hnext⟩ := Option.bind_eq_some_iff.mp h
  have hskip : y.skip.errors = [] := nil_of_prefix (products_reads hnext) hr
  have hyerrors : y.errors = [] := hskip
  obtain ⟨⟨s, t, hs, he, ht⟩, -⟩ := ih.factor e y hy hyerrors
  exact ih.products e _ r hnext hr (ReadAs.spaced ⟨s, t, .term hs, he, ht⟩)

/-- What an operator of an expression has read on the right side. -/
theorem applyWord_sound {α : Type} {word : α → List Char} {all : List α} {value : α → F → F → F}
    (ih : SoundAt A vars n) {x r : Parsed F}
    (h : applyWord word all value (parseExpression A vars n) x = some r) (hr : r.errors = []) :
    x.errors = [] ∧ (readWord word all x.expr = none ∧ r = x ∨
      ∃ op s t v, x.expr = word op ++ (s ++ r.expr) ∧ Spells Readable .expression s t ∧
        t.value A vars = .ok v ∧ r.value = value op x.value v ∧
        readWord Connective.word Connective.all r.expr = none) := by
  unfold applyWord at h
  split at h
  · next hnone =>
    obtain rfl := Option.some.inj h
    exact ⟨hr, Or.inl ⟨hnone, rfl⟩⟩
  · next op rest hread =>
    obtain ⟨-, hexpr⟩ := readWord_some hread
    obtain ⟨y, hy, rfl⟩ := Option.map_eq_some_iff.mp h
    obtain ⟨hxerrors, hyerrors⟩ := List.append_eq_nil_iff.mp hr
    obtain ⟨⟨s, t, hs, htrim, ht⟩, hstop⟩ := ih.expression (ltrim rest) y hy hyerrors
    obtain ⟨ws, hws, hrest⟩ := exists_spaces rest
    refine ⟨hxerrors, Or.inr ⟨op, ws ++ s, t, y.value, ?_, hs.lead hws (by decide), ht, rfl, hstop⟩⟩
    rw [hexpr, hrest, htrim]
    simp [Parsed.andThen]

theorem SoundAt.expression_step (ih : SoundAt A vars n) (e : List Char) (r : Parsed F)
    (h : parseExpression A vars (n + 1) e = some r) (hr : r.errors = []) :
    ReadAs A vars .expression e r.expr r.value ∧
      readWord Connective.word Connective.all r.expr = none := by
  rw [parseExpression] at h
  split at h
  · obtain rfl := Option.some.inj h
    exact absurd hr (by simp)
  · obtain ⟨term, hterm, hlater⟩ := Option.bind_eq_some_iff.mp h
    obtain ⟨sum, hsum, hlater⟩ := Option.bind_eq_some_iff.mp hlater
    obtain ⟨compared, hcompared, hlast⟩ := Option.bind_eq_some_iff.mp hlater
    -- No error came out, so none came from any part; from the last part back to the first.
    obtain ⟨hcerrors, hconnective⟩ := applyWord_sound ih hlast hr
    obtain ⟨hserrors, hcomparison⟩ := applyWord_sound ih hcompared hcerrors
    have hskip : term.skip.errors = [] := nil_of_prefix (sums_reads hsum) hserrors
    have hterrors : term.errors = [] := hskip
    obtain ⟨front, ⟨s, t, hs, he, ht⟩, ws, hws, hfront⟩ := ih.term e term hterm hterrors
    obtain ⟨ws', hws', hexpr⟩ := exists_spaces term.expr
    have hread : ReadSpaced A vars .sum e term.skip.expr term.skip.value := by
      refine ⟨front, ⟨s, t, .sum hs, he, ht⟩, ws ++ ws', hws.append hws', ?_⟩
      show front = ws ++ ws' ++ ltrim term.expr
      rw [hfront, List.append_assoc, ← hexpr]
    obtain ⟨front, ⟨s, t, hs, he, ht⟩, ws, hws, hfront⟩ := ih.sums e _ sum hsum hserrors hread
    obtain ⟨hnone, rfl⟩ | ⟨op, s', t', v, hexpr, hs', ht', hvalue, hstop⟩ := hcomparison
    · obtain ⟨hnone, rfl⟩ | ⟨op, s', t', v, hexpr, hs', ht', hvalue, hstop⟩ := hconnective
      · refine ⟨⟨_, _, .expression hs hws, ?_, ht⟩, hnone⟩
        rw [he, hfront, List.append_assoc]
      · refine ⟨⟨_, _, .connect op hs hws hs', ?_, ?_⟩, hstop⟩
        · rw [he, hfront, hexpr]
          simp
        · rw [hvalue]
          exact bind_both ht ht'
    · obtain ⟨hnone, rfl⟩ | ⟨op', s'', t'', v'', hexpr', -⟩ := hconnective
      · refine ⟨⟨_, _, .compare op hs hws hs', ?_, ?_⟩, hstop⟩
        · rw [he, hfront, hexpr]
          simp
        · rw [hvalue]
          exact bind_both ht ht'
      · -- the right side of the comparison would have read this connective
        rw [hexpr', readWord_connective] at hstop
        exact absurd hstop (by simp)

/-- The digits of a variable's number are read as the number by themselves. -/
theorem strtol_read {l : List Char} {num : Int} (h : strtol l = some (num, rest)) :
    ∃ digits, l = digits ++ rest ∧ strtol digits = some (num, []) := by
  obtain ⟨ws, hws, hl⟩ := exists_spaces l
  rw [strtol_eq] at h
  split at h
  · exact absurd h (by simp)
  · next hne =>
    obtain ⟨hvalue, hrest⟩ := Prod.mk.inj (Option.some.inj h)
    have hdigits : ∀ c ∈ (signSplit (ltrim l)).2.takeWhile Char.isDigit, c.isDigit = true :=
      fun c hc => List.mem_takeWhile_imp hc
    have hall : (signSplit (ltrim l)).2.takeWhile Char.isDigit ++ rest = (signSplit (ltrim l)).2 := by
      rw [← hrest, List.takeWhile_append_dropWhile]
    generalize (signSplit (ltrim l)).2.takeWhile Char.isDigit = digits at *
    obtain ⟨c, tail, hcons⟩ := List.exists_cons_of_ne_nil hne
    have hc : c.isDigit = true := hdigits c (by rw [hcons]; exact List.mem_cons_self)
    have hself : digits.takeWhile Char.isDigit = digits ∧ digits.dropWhile Char.isDigit = [] := by
      have hstop : (digits ++ []).takeWhile Char.isDigit = digits ∧
          (digits ++ []).dropWhile Char.isDigit = [] := takeWhile_append_stop hdigits (by simp)
      rwa [List.append_nil] at hstop
    -- whatever the sign is, the digits alone are read as they are in front of the rest
    have hread : ∀ sign, ltrim (ws ++ (sign ++ digits)) = sign ++ digits →
        signSplit (sign ++ digits) = ((signSplit (ltrim l)).1, digits) → ltrim l = sign ++ (digits ++ rest) →
        ∃ digits', l = digits' ++ rest ∧ strtol digits' = some (num, []) := by
      intro sign htrim hsign hshape
      refine ⟨ws ++ (sign ++ digits), ?_, ?_⟩
      · rw [hl, hshape]
        simp
      · rw [strtol_eq, htrim, hsign]
        dsimp only
        rw [hself.1, hself.2, if_neg hne, hvalue]
    have hspaces : ∀ d l, isSpace d = false → ltrim (ws ++ d :: l) = d :: l := fun d l hd => by
      rw [ltrim_spaces hws, ltrim_cons hd]
    unfold signSplit at hall
    split at hall
    · next tail' hminus =>
      refine hread ['-'] (hspaces '-' digits (by decide)) ?_ ?_
      · rw [hminus]
        rfl
      · rw [hminus, hall]
        rfl
    · next tail' hplus =>
      refine hread ['+'] (hspaces '+' digits (by decide)) ?_ ?_
      · rw [hplus]
        rfl
      · rw [hplus, hall]
        rfl
    · next hminus hplus =>
      have hc' := digit_head hc
      have hall : digits ++ rest = ltrim l := hall
      refine hread [] ?_ ?_ hall.symm
      · rw [hcons]
        exact hspaces c tail hc'.2.2
      · have hfirst : ltrim l = c :: (tail ++ rest) := by rw [← hall, hcons]; rfl
        rw [hfirst, signSplit_other hc'.2.1 hc'.1, List.nil_append, hcons,
          signSplit_other hc'.2.1 hc'.1]

theorem getVariableValue_sound {l : List Char} (h : (getVariableValue A vars ('#' :: l)).errors = []) :
    ReadAs A vars .primary ('#' :: l) (getVariableValue A vars ('#' :: l)).expr
      (getVariableValue A vars ('#' :: l)).value := by
  cases hread : strtol l with
  | none =>
    -- the number is then 0, and there is no such variable
    obtain ⟨text, hvalue⟩ : ∃ text, variableValue A vars 0 = .error text := ⟨_, rfl⟩
    have hnone : (getVariableValue A vars ('#' :: l)).errors = [text] := by
      simp only [getVariableValue, hread, Option.getD_none, hvalue]
    rw [hnone] at h
    exact absurd h (List.cons_ne_nil _ _)
  | some found =>
    obtain ⟨num, rest⟩ := found
    cases hvalue : variableValue A vars num with
    | error text =>
      rw [getVariableValue_error hread hvalue] at h
      exact absurd h (List.cons_ne_nil _ _)
    | ok v =>
      rw [getVariableValue_ok hread hvalue]
      obtain ⟨digits, rfl, hdigits⟩ := strtol_read hread
      exact ⟨_, _, .var hdigits, rfl, hvalue⟩

theorem readNumber_sound {l : List Char} {v : F} (hl : ltrim l = l) (h : readNumber A l = .ok (v, rest)) :
    ReadAs A vars .primary l rest v := by
  unfold readNumber at h
  dsimp only at h
  split at h
  · next text tail hread =>
    obtain ⟨rfl, rfl⟩ := Prod.mk.inj (Except.ok.inj h)
    -- the text begins with no white space, and so does what is in front of its first `e`
    have htrim : ltrim (l.takeWhile fun c => c ≠ 'E' && c ≠ 'e') =
        l.takeWhile fun c => c ≠ 'E' && c ≠ 'e' := by
      cases l with
      | nil => rfl
      | cons c l =>
        have hc : isSpace c = false := by
          by_contra hspace
          have hspace : isSpace c = true := by simpa using hspace
          have hshort : ltrim (c :: l) = ltrim l := List.dropWhile_cons_of_pos hspace
          have hle := (ltrim_suffix l).length_le
          rw [← hshort, hl, List.length_cons] at hle
          omega
        rw [List.takeWhile_cons]
        split
        · exact ltrim_cons hc _
        · rfl
    have happend := strtofText_append hread
    rw [htrim] at happend
    refine ⟨text, .number text, .number ⟨tail, by rw [happend]; exact hread⟩, ?_, rfl⟩
    rw [← List.append_assoc, happend, List.takeWhile_append_dropWhile]
  · exact absurd h (by simp)

/-- An expression in brackets, and the exponents behind it. -/
theorem SoundAt.bracketed (ih : SoundAt A vars n) {l ws front : List Char} {value : F → F} {text : String}
    {r : Parsed F} (wrap : Expr → Expr)
    (h : inBrackets A value text (parseExpression A vars n) (parsePowers A vars n) l = some r)
    (hr : r.errors = []) (hws : Spaces ws)
    (hspell : ∀ s t, Spells Readable .expression s t →
      Spells Readable .primary (front ++ '[' :: (s ++ [']'])) (wrap t))
    (hvalue : ∀ t v, t.value A vars = .ok v → (wrap t).value A vars = .ok (value v)) :
    ReadAs A vars .factor (ws ++ (front ++ '[' :: l)) r.expr r.value ∧ r.expr.head? ≠ some '^' := by
  unfold inBrackets at h
  obtain ⟨arg, harg, hnext⟩ := Option.bind_eq_some_iff.mp h
  split at hnext
  · next rest hclose =>
    have hskip := nil_of_prefix (powers_reads hnext) hr
    have harg' : arg.errors = [] := hskip
    obtain ⟨⟨s, t, hs, rfl, ht⟩, -⟩ := ih.expression l arg harg harg'
    refine ih.powers _ ws _ r hnext hr hws ⟨_, _, hspell s t hs, ?_, hvalue t _ ht⟩
    rw [hclose]
    simp
  · obtain rfl := Option.some.inj hnext
    exact absurd (List.append_eq_nil_iff.mp hr).2 (by simp)

theorem SoundAt.factor_step (ih : SoundAt A vars n) (e : List Char) (r : Parsed F)
    (h : parseFactor A vars (n + 1) e = some r) (hr : r.errors = []) :
    ReadAs A vars .factor e r.expr r.value ∧ r.expr.head? ≠ some '^' := by
  obtain ⟨ws, hws, he⟩ := exists_spaces e
  have hidle := ltrim_ltrim e
  rw [parseFactor] at h
  generalize ltrim e = l at *
  subst he
  -- By what the factor begins with: a function, a bracket, a variable, a number.
  split at h
  · next f rest hread =>
    obtain ⟨-, rfl⟩ := readWord_some hread
    exact ih.bracketed (Expr.call f) h hr hws (fun s t hs => .call f hs) fun t v ht => by
      show (t.value A vars).bind _ = _
      rw [ht]
      rfl
  · obtain rfl := Option.some.inj h
    exact absurd hr (by simp)
  · split at h
    · next rest =>
      have hspell : ∀ s t, Spells Readable .expression s t →
          Spells Readable .primary ([] ++ '[' :: (s ++ [']'])) (id t) := fun s t hs => .bracket hs
      exact ih.bracketed id h hr hws hspell fun t v ht => ht
    · next digits _ =>
      have hvar := nil_of_prefix (powers_reads h) hr
      exact ih.powers _ ws _ r h hr hws (getVariableValue_sound hvar)
    · split at h
      · next v rest hread =>
        exact ih.powers _ ws _ r h hr hws (readNumber_sound hidle hread)
      · obtain rfl := Option.some.inj h
        exact absurd hr (by simp)

end Steps

theorem soundAt (n : Nat) : SoundAt A vars n := by
  -- on the fuel, for all parts at once, since each calls others with less of it
  induction n with
  | zero =>
    constructor
    all_goals
      intros
      simp_all [parseExpression, parseSums, parseTerm, parseProducts, parseFactor, parsePowers]
  | succ n ih =>
    exact ⟨ih.expression_step, ih.sums_step, ih.term_step, ih.products_step, ih.factor_step,
      ih.powers_step⟩

/-- Every text is evaluated to its end or to a place in it. Where no error has come up, what has been read
is the spelling of a tree, and the value is what the tree means. -/
theorem evaluateExpression_sound (A : FloatOps F) (vars : Variables F) (e : List Char) :
    ∃ r, evaluateExpression A vars e = some r ∧ (∀ rest, r.endptr = some rest → rest <:+ e) ∧
      (r.errors = [] → ∃ s x rest, e = s ++ rest ∧ r.endptr = some rest ∧
        Spells Readable .expression s x ∧ x.value A vars = .ok r.value) := by
  unfold evaluateExpression
  dsimp only
  split
  · exact ⟨_, rfl, fun rest h => absurd h (by simp), fun h => absurd h (by simp)⟩
  · obtain ⟨b, hb, hsuffix, -⟩ :=
      (endAt A vars (parseFuel (ltrim e))).expression (ltrim e) le_rfl
    rw [hb]
    refine ⟨_, rfl, ?_, ?_⟩
    · dsimp only
      split
      · exact fun rest h => absurd h (by simp)
      · intro rest hrest
        obtain rfl : b.expr = rest := Option.some.inj hrest
        exact hsuffix.trans (ltrim_suffix e)
    · dsimp only
      split
      · exact fun h => absurd (List.append_eq_nil_iff.mp h).2 (by simp)
      · intro herrors
        obtain ⟨⟨s, x, hs, htrim, hx⟩, -⟩ := (soundAt _).expression (ltrim e) b hb herrors
        obtain ⟨ws, hws, he⟩ := exists_spaces e
        refine ⟨ws ++ s, x, b.expr, ?_, rfl, hs.lead hws (by decide), hx⟩
        rw [he, htrim, List.append_assoc]

end CarveraFirmware.Gcode
