import Mathlib

/-!
# Decimal numbers as text

Numbers as `printf` writes them with `%d` and `%.3f` and as `atoi` and `strtof` read them, and lines
as `fgets` reads them. Numbers are exact.
-/

namespace CarveraFirmware.DecimalText

/-- `%d`. -/
def printNat (n : ℕ) : List Char := Nat.toDigits 10 n

/-- `%.3f`. -/
def printFixed (x : ℚ) : List Char :=
  let n := (round (|x| * 1000)).toNat
  (if x < 0 then ['-'] else []) ++ printNat (n / 1000) ++
    ['.', (n / 100 % 10).digitChar, (n / 10 % 10).digitChar, (n % 10).digitChar]

def isSpace (c : Char) : Bool := [' ', '\t', '\n', Char.ofNat 11, Char.ofNat 12, '\r'].contains c

def atoi (text : List Char) : ℤ :=
  match text.dropWhile isSpace with
  | '-' :: rest => -(Nat.ofDigitChars 10 (rest.takeWhile Char.isDigit) 0 : ℕ)
  | '+' :: rest => (Nat.ofDigitChars 10 (rest.takeWhile Char.isDigit) 0 : ℕ)
  | rest => (Nat.ofDigitChars 10 (rest.takeWhile Char.isDigit) 0 : ℕ)

/-- The number that digits around a point stand for. -/
def decimalValue (whole frac : List Char) : ℚ :=
  Nat.ofDigitChars 10 whole 0 + Nat.ofDigitChars 10 frac 0 / 10 ^ frac.length

def isHexDigit (c : Char) : Bool := c.isDigit || ('a' ≤ c && c ≤ 'f')

def digitValue (c : Char) : ℕ := if c.isDigit then c.toNat - '0'.toNat else c.toNat - 'a'.toNat + 10

def digitsValue (base : ℕ) (digits : List Char) : ℕ :=
  digits.foldl (fun n c => base * n + digitValue c) 0

/-- Digits with at most one point among them, and what follows; none if there is no digit. -/
def readMantissa (base : ℕ) (isDigit : Char → Bool) (text : List Char) : Option (ℚ × List Char) :=
  let whole := text.takeWhile isDigit
  let behind := text.dropWhile isDigit
  let frac := if behind.head? = some '.' then behind.tail.takeWhile isDigit else []
  let rest := if behind.head? = some '.' then behind.tail.dropWhile isDigit else behind
  if whole = [] ∧ frac = [] then none
  else some (digitsValue base whole + digitsValue base frac / base ^ frac.length, rest)

/-- The exponent behind its mark, nought if there is none. -/
def readExponent (mark : Char) (text : List Char) : ℤ :=
  match text with
  | [] => 0
  | c :: rest =>
    if c = mark then
      match rest with
      | '-' :: digits => -(digitsValue 10 (digits.takeWhile Char.isDigit) : ℕ)
      | '+' :: digits => (digitsValue 10 (digits.takeWhile Char.isDigit) : ℕ)
      | digits => (digitsValue 10 (digits.takeWhile Char.isDigit) : ℕ)
    else 0

/-- Stands for infinity: more than a `float` can hold. -/
def infinity : ℚ := 2 ^ 128

/-- What `strtof` reads behind the sign, in small letters. A text that is no number is nought. -/
def strtofMagnitude (text : List Char) : Option ℚ :=
  if text.take 3 = ['n', 'a', 'n'] then none
  else if text.take 3 = ['i', 'n', 'f'] then some infinity
  else if text.take 2 = ['0', 'x'] then
    match readMantissa 16 isHexDigit (text.drop 2) with
    | some (mantissa, rest) => some (mantissa * 2 ^ readExponent 'p' rest)
    | none => some 0
  else
    match readMantissa 10 Char.isDigit text with
    | some (mantissa, rest) => some (mantissa * 10 ^ readExponent 'e' rest)
    | none => some 0

/-- `strtof`; `NAN` is none. -/
def strtof (text : List Char) : Option ℚ :=
  match (text.dropWhile isSpace).map Char.toLower with
  | '-' :: rest => (strtofMagnitude rest).map fun x => -x
  | '+' :: rest => strtofMagnitude rest
  | rest => strtofMagnitude rest

example : strtof " -12.50e-1,".toList = some (-5 / 4) := by decide +kernel
example : strtof "0X1.8p+1".toList = some 3 := by decide +kernel
example : strtof "+nan".toList = none := by decide +kernel
example : strtof ".mm".toList = some 0 := by decide +kernel

/-- What `fgets` reads one call after the other, with room for `size` characters. `left` more fit
behind those that were read. -/
def fgetsFrom (size : ℕ) : ℕ → List Char → List Char → List (List Char)
  | _, line, [] => if line = [] then [] else [line]
  | left, line, c :: text =>
    if c = '\n' ∨ left ≤ 1 then (line ++ [c]) :: fgetsFrom size size [] text
    else fgetsFrom size (left - 1) (line ++ [c]) text

def fgetsLines (size : ℕ) (text : List Char) : List (List Char) := fgetsFrom size size [] text

/-- A line that fits, with its end. -/
structure IsLine (size : ℕ) (line : List Char) : Prop where
  ends : ∃ text, line = text ++ ['\n'] ∧ '\n' ∉ text
  fits : line.length ≤ size

variable {size : ℕ} {n : ℕ} {x : ℚ}

theorem isDigit_of_mem_printNat {c : Char} (h : c ∈ printNat n) : c.isDigit :=
  Nat.isDigit_of_mem_toDigits (by norm_num) (by norm_num) h

theorem printNat_ne_nil : printNat n ≠ [] := Nat.toDigits_ne_nil

theorem length_printNat_le {k : ℕ} (hk : 0 < k) (h : n < 10 ^ k) : (printNat n).length ≤ k :=
  (Nat.length_toDigits_le_iff (by norm_num) hk).2 h

theorem isSpace_of_isDigit {c : Char} (h : c.isDigit) : isSpace c = false := by
  by_contra hspace
  rw [isSpace, Bool.not_eq_false, List.contains_iff_mem] at hspace
  fin_cases hspace <;> exact absurd h (by decide)

theorem atoi_printNat : atoi (printNat n) = n := by
  have hdigits : ∀ c ∈ printNat n, c.isDigit := fun c => isDigit_of_mem_printNat
  have hself : (printNat n).takeWhile Char.isDigit = printNat n := List.takeWhile_eq_self_iff.2 hdigits
  have hvalue : Nat.ofDigitChars 10 (printNat n) 0 = n := Nat.ofDigitChars_ten_toDigits
  cases htext : printNat n with
  | nil => exact absurd htext printNat_ne_nil
  | cons c rest =>
    have hdigit := hdigits c (htext ▸ List.mem_cons_self ..)
    rw [htext] at hself hvalue
    rw [atoi, List.dropWhile_cons, if_neg (by simp [isSpace_of_isDigit hdigit])]
    split
    · rename_i heq
      rw [(List.cons.inj heq).1] at hdigit
      exact absurd hdigit (by decide)
    · rename_i heq
      rw [(List.cons.inj heq).1] at hdigit
      exact absurd hdigit (by decide)
    · rw [hself, hvalue]

theorem fgetsFrom_line {text line rest : List Char} {left : ℕ} (h : '\n' ∉ text)
    (hfits : text.length + 1 ≤ left) :
    fgetsFrom size left line (text ++ '\n' :: rest) =
      (line ++ text ++ ['\n']) :: fgetsFrom size size [] rest := by
  induction text generalizing line left with
  | nil =>
    rw [List.nil_append, fgetsFrom, if_pos (.inl rfl), List.append_nil]
  | cons c text ih =>
    obtain ⟨hc, htext⟩ := not_or.1 (mt List.mem_cons.2 h)
    have hlength : text.length + 1 + 1 ≤ left := hfits
    rw [List.cons_append, fgetsFrom, if_neg (not_or.2 ⟨Ne.symm hc, by omega⟩),
      ih htext (by omega)]
    simp

theorem fgetsLines_flatten {lines : List (List Char)} (h : ∀ line ∈ lines, IsLine size line) :
    fgetsLines size lines.flatten = lines := by
  induction lines with
  | nil => rfl
  | cons line lines ih =>
    obtain ⟨⟨text, rfl, htext⟩, hfits⟩ := h line (List.mem_cons_self ..)
    have hlength : text.length + 1 ≤ size := by simpa using hfits
    have hrest := ih fun line hmem => h line (List.mem_cons_of_mem _ hmem)
    rw [fgetsLines] at hrest ⊢
    rw [List.flatten_cons, List.append_assoc, List.singleton_append, fgetsFrom_line htext hlength, hrest,
      List.nil_append]

/-- Three digits behind the point. -/
theorem decimalValue_thousandths (n : ℕ) :
    decimalValue (printNat (n / 1000))
      [(n / 100 % 10).digitChar, (n / 10 % 10).digitChar, (n % 10).digitChar] = n / 1000 := by
  have hwhole : Nat.ofDigitChars 10 (printNat (n / 1000)) 0 = n / 1000 :=
    Nat.ofDigitChars_ten_toDigits
  have hfrac : Nat.ofDigitChars 10
      [(n / 100 % 10).digitChar, (n / 10 % 10).digitChar, (n % 10).digitChar] 0 = n % 1000 := by
    rw [Nat.ofDigitChars_cons_digitChar_of_lt_ten (by omega),
      Nat.ofDigitChars_cons_digitChar_of_lt_ten (by omega),
      Nat.ofDigitChars_cons_digitChar_of_lt_ten (by omega), Nat.ofDigitChars_nil]
    omega
  have hsum : ((1000 * (n / 1000) + n % 1000 : ℕ) : ℚ) = n := by rw [Nat.div_add_mod]
  rw [decimalValue, hwhole, hfrac, ← hsum]
  push_cast
  simp only [List.length_cons, List.length_nil]
  ring

theorem round_hundredths (k : ℤ) : (round (|(k / 100 : ℚ)| * 1000)).toNat = k.natAbs * 10 := by
  have hscale : |(k / 100 : ℚ)| * 1000 = ((k.natAbs * 10 : ℕ) : ℚ) := by
    rw [abs_div, abs_of_pos (by norm_num : (0 : ℚ) < 100)]
    push_cast
    rw [Nat.cast_natAbs, Int.cast_abs]
    ring
  rw [hscale, round_natCast, Int.toNat_natCast]

theorem length_printFixed_le {k : ℤ} {digits : ℕ} (hdigits : 0 < digits)
    (h : k.natAbs < 100 * 10 ^ digits) : (printFixed (k / 100)).length ≤ digits + 5 := by
  have hwhole : (printNat (k.natAbs * 10 / 1000)).length ≤ digits :=
    length_printNat_le hdigits (by omega)
  rw [printFixed, round_hundredths, List.length_append, List.length_append]
  have hsign : (if (k / 100 : ℚ) < 0 then ['-'] else []).length ≤ 1 := by split <;> simp
  simp only [List.length_cons, List.length_nil]
  omega

theorem digitsValue_ten {digits : List Char} (h : ∀ c ∈ digits, c.isDigit) :
    digitsValue 10 digits = Nat.ofDigitChars 10 digits 0 := by
  rw [digitsValue, Nat.ofDigitChars_eq_foldl]
  refine List.foldl_ext _ _ _ fun n c hc => ?_
  rw [digitValue, if_pos (h c hc)]

/-- Small and capital letters alone are no digits. -/
theorem toLower_of_isDigit {c : Char} (h : c.isDigit) : c.toLower = c := by
  rw [Char.toLower, dif_neg]
  rintro ⟨hle, -⟩
  rw [Char.isDigit, Bool.and_eq_true, decide_eq_true_iff, decide_eq_true_iff] at h
  exact absurd (UInt32.le_trans hle h.2) (by decide)

section decimal

variable {whole frac : List Char} (hne : whole ≠ []) (hwhole : ∀ c ∈ whole, c.isDigit)
  (hfrac : ∀ c ∈ frac, c.isDigit)

include hne hwhole hfrac

theorem readMantissa_decimal :
    readMantissa 10 Char.isDigit (whole ++ '.' :: frac) = some (decimalValue whole frac, []) := by
  have htake : (whole ++ '.' :: frac).takeWhile Char.isDigit = whole := by
    rw [List.takeWhile_append_of_pos hwhole, List.takeWhile_cons, if_neg (by decide), List.append_nil]
  have hdrop : (whole ++ '.' :: frac).dropWhile Char.isDigit = '.' :: frac := by
    rw [List.dropWhile_append_of_pos hwhole, List.dropWhile_cons, if_neg (by decide)]
  have htakeFrac : frac.takeWhile Char.isDigit = frac := List.takeWhile_eq_self_iff.2 hfrac
  have hdropFrac : frac.dropWhile Char.isDigit = [] := List.dropWhile_eq_nil_iff.2 hfrac
  have hsome : ¬ (whole = [] ∧ frac = []) := fun h => hne h.1
  rw [readMantissa, htake, hdrop]
  simp only [List.head?_cons, List.tail_cons, if_true, htakeFrac, hdropFrac, if_neg hsome,
    digitsValue_ten hwhole, digitsValue_ten hfrac]
  rw [decimalValue]
  norm_num

theorem strtofMagnitude_decimal :
    strtofMagnitude (whole ++ '.' :: frac) = some (decimalValue whole frac) := by
  have hread := readMantissa_decimal hne hwhole hfrac
  obtain ⟨c, whole, rfl⟩ := List.exists_cons_of_ne_nil hne
  have hdigit : c.isDigit := hwhole c (List.mem_cons_self ..)
  have hword {word : List Char} {c' : Char} (hc : c'.isDigit = false) :
      ((c :: whole) ++ '.' :: frac).take 3 ≠ c' :: word := by
    rintro heq
    rw [List.cons_append, List.take_succ_cons] at heq
    rw [(List.cons.inj heq).1, hc] at hdigit
    exact absurd hdigit (by decide)
  have hbase : ((c :: whole) ++ '.' :: frac).take 2 ≠ ['0', 'x'] := by
    intro heq
    rw [List.cons_append, List.take_succ_cons] at heq
    have htail := (List.cons.inj heq).2
    cases whole with
    | nil => exact absurd (List.cons.inj htail).1 (by decide)
    | cons c' whole =>
      have hdigit' := hwhole c' (by simp)
      rw [List.cons_append, List.take_succ_cons] at htail
      rw [(List.cons.inj htail).1] at hdigit'
      exact absurd hdigit' (by decide)
  rw [strtofMagnitude, if_neg (hword (by decide)), if_neg (hword (by decide)), if_neg hbase, hread]
  simp [readExponent]

/-- A decimal number is read as the number it stands for, with its sign. -/
theorem strtof_decimal :
    strtof (whole ++ '.' :: frac) = some (decimalValue whole frac) ∧
      strtof ('-' :: (whole ++ '.' :: frac)) = some (-decimalValue whole frac) := by
  have hmagnitude := strtofMagnitude_decimal hne hwhole hfrac
  have hlower : (whole ++ '.' :: frac).map Char.toLower = whole ++ '.' :: frac := by
    refine List.map_congr_left (g := id) (fun c hc => ?_) |>.trans (List.map_id _)
    obtain hc | hc := List.mem_append.1 hc
    · exact toLower_of_isDigit (hwhole c hc)
    · obtain rfl | hc := List.mem_cons.1 hc
      · decide
      · exact toLower_of_isDigit (hfrac c hc)
  obtain ⟨c, whole, rfl⟩ := List.exists_cons_of_ne_nil hne
  have hdigit : c.isDigit := hwhole c (List.mem_cons_self ..)
  constructor
  · rw [strtof, List.cons_append, List.dropWhile_cons, if_neg (by simp [isSpace_of_isDigit hdigit]),
      ← List.cons_append, hlower]
    split
    · rename_i heq
      rw [(List.cons.inj heq).1] at hdigit
      exact absurd hdigit (by decide)
    · rename_i heq
      rw [(List.cons.inj heq).1] at hdigit
      exact absurd hdigit (by decide)
    · exact hmagnitude
  · rw [strtof, List.dropWhile_cons, if_neg (by decide), List.map_cons, hlower]
    exact congrArg (Option.map fun x => -x) hmagnitude

end decimal

/-- A number of hundredths is read as it was written. -/
theorem strtof_printFixed (k : ℤ) : strtof (printFixed (k / 100)) = some (k / 100 : ℚ) := by
  have hround := round_hundredths k
  have hvalue := decimalValue_thousandths (k.natAbs * 10)
  rw [printFixed, hround]
  generalize hn : k.natAbs * 10 = n at hvalue
  have hdigits : ∀ c ∈ [(n / 100 % 10).digitChar, (n / 10 % 10).digitChar, (n % 10).digitChar],
      c.isDigit := by
    have hdigit (d : ℕ) (hd : d < 10) : d.digitChar.isDigit := by
      rw [Nat.isDigit_digitChar, decide_eq_true_iff]
      exact hd
    intro c hc
    fin_cases hc <;> exact hdigit _ (by omega)
  obtain ⟨hplus, hminus⟩ := strtof_decimal (printNat_ne_nil (n := n / 1000))
    (fun _ => isDigit_of_mem_printNat) hdigits
  have habs : (n / 1000 : ℚ) = |(k : ℚ)| / 100 := by
    rw [← hn]
    push_cast
    rw [Nat.cast_natAbs, Int.cast_abs]
    ring
  rw [hvalue, habs] at hplus hminus
  obtain hneg | hnonneg := lt_or_ge k 0
  · have hcast : (k : ℚ) < 0 := by exact_mod_cast hneg
    rw [if_pos (div_neg_of_neg_of_pos hcast (by norm_num)), List.singleton_append, List.cons_append]
    rw [abs_of_neg hcast, ← neg_div, neg_neg] at hminus
    exact hminus
  · have hcast : (0 : ℚ) ≤ k := by exact_mod_cast hnonneg
    rw [if_neg (div_nonneg hcast (by norm_num)).not_gt, List.nil_append]
    rw [abs_of_nonneg hcast] at hplus
    exact hplus

end CarveraFirmware.DecimalText
