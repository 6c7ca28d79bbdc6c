import Mathlib
import CarveraFirmware.Clients.ConsoleText

/-!
# What a held start refuses

`refused_while_start_pending`, and the two parsers that a line comes to when it is let through: the
G-code dispatcher, up to the branch that takes the line apart into commands, and the player.
-/

namespace CarveraFirmware.Clients

def isUpperCase (c : UInt8) : Bool := 0x41 ≤ c && c ≤ 0x5A

/-- `islower`. -/
def isLowerCase (c : UInt8) : Bool := 0x61 ≤ c && c ≤ 0x7A

def jobCommands : List String := ["play", "buffer", "goto", "suspend", "resume"]

def refusedWhileStartPending (line : List UInt8) : Bool :=
  match skipSpaces line with
  | [] => false
  | first :: rest =>
    if isUpperCase first then true
    -- `$H` and `$J`
    else if first = 0x24 then rest.head? = some 0x48 || rest.head? = some 0x4A
    else jobCommands.any (wordIs (first :: rest))

/-! ## The dispatcher -/

/-- The first bytes of the branch that takes the line apart. -/
def commandLetters : List UInt8 := ascii "GMTSN#"

def axisLetters : List UInt8 := ascii "XYZAF"

/-- What `on_console_line_received` does with a line from `try_again` on. -/
inductive LineBranch where
  /-- `SimpleShell` will handle it. -/
  | shell
  | commands
  | comment
  | tryAgain (line : List UInt8)
  | ignored

/-- Pycam syntax: a line with an axis letter of its own goes to the last modal command, `F` to `G1`. -/
def axisBranch (modalGroup1 first : UInt8) (line : List UInt8) : LineBranch :=
  match line.findIdx? (axisLetters.contains ·) with
  | some n =>
    if n = 0 || first = 0x20 then
      .tryAgain ((if line.getD n 0 = 0x46 then ascii "G1 "
        else ascii "G" ++ ascii (toString modalGroup1.toNat) ++ ascii " ") ++ line)
    else .ignored
  | none => .ignored

/-- The branch for a line. An empty one begins with a zero byte, which is in none of them. -/
def lineBranch (modalGroup1 : UInt8) : List UInt8 → LineBranch
  | [] => .ignored
  | first :: rest =>
    if first = 0x24 then .shell
    else if isLowerCase first then .shell
    else if commandLetters.contains first then .commands
    else if first = 0x3B || first = 0x28 || isLineEnd first then .comment
    else axisBranch modalGroup1 first (first :: rest)

/-- The text that is taken apart into commands, after so many tries. -/
def takenApart (modalGroup1 : UInt8) : ℕ → List UInt8 → Option (List UInt8)
  | 0, _ => none
  | tries + 1, line =>
    match lineBranch modalGroup1 line with
    | .commands => some line
    | .tryAgain line => takenApart modalGroup1 tries line
    | _ => none

/-- `GcodeDispatch::on_console_line_received`. A line is tried again once at most. -/
def dispatchedText (modalGroup1 : UInt8) (line : List UInt8) : Option (List UInt8) :=
  if line = [] then none else takenApart modalGroup1 2 (ltrim line)

/-! ## The player -/

/-- `Player::on_console_line_received`, not halted: the line is one of the commands that act on a job. -/
def isJobCommand (line : List UInt8) : Bool :=
  match line with
  | [] => false
  | first :: _ => isLowerCase first && jobCommands.any fun word => (shiftParameter line).1 = ascii word

/-- What the filter lets through comes to neither. -/
def HeldBack (modalGroup1 : UInt8) (line : List UInt8) : Prop :=
  refusedWhileStartPending line = false →
    dispatchedText modalGroup1 line = none ∧ isJobCommand line = false

/-- The first byte that is not white space is not `#`, and where it is one of the other letters that the
dispatcher acts on, only spaces and tabs stand before it. -/
def PlainStart (line : List UInt8) : Prop :=
  (ltrim line).head? ≠ some 0x23 ∧
    ∀ c, (ltrim line).head? = some c → c ∈ ascii "GMTSNXYZAF" → skipSpaces line = ltrim line

/-! ## The letters as bytes -/

theorem jobCommands_bytes : jobCommands.map ascii =
    [[0x70, 0x6C, 0x61, 0x79], [0x62, 0x75, 0x66, 0x66, 0x65, 0x72], [0x67, 0x6F, 0x74, 0x6F],
      [0x73, 0x75, 0x73, 0x70, 0x65, 0x6E, 0x64], [0x72, 0x65, 0x73, 0x75, 0x6D, 0x65]] := by
  decide +kernel

theorem commandLetters_bytes : commandLetters = [0x47, 0x4D, 0x54, 0x53, 0x4E, 0x23] := by
  decide +kernel

theorem axisLetters_bytes : axisLetters = [0x58, 0x59, 0x5A, 0x41, 0x46] := by
  decide +kernel

theorem dispatchLetters_bytes :
    ascii "GMTSNXYZAF" = [0x47, 0x4D, 0x54, 0x53, 0x4E, 0x58, 0x59, 0x5A, 0x41, 0x46] := by
  decide +kernel

/-- The job commands are words of lower-case letters. -/
theorem jobCommands_lowerCase {word : String} (hjob : word ∈ jobCommands) :
    ascii word ≠ [] ∧ ∀ c ∈ ascii word, isLowerCase c = true := by
  have hall : ∀ w ∈ jobCommands.map ascii, w ≠ [] ∧ ∀ c ∈ w, isLowerCase c = true := by
    rw [jobCommands_bytes]
    simp [isLowerCase]
  exact hall _ (List.mem_map_of_mem hjob)

/-! ## The two ways to skip white space -/

theorem isTrimmed_cases {c : UInt8} (h : isTrimmed c = true) :
    c = 0x20 ∨ c = 0x09 ∨ c = 0x0D ∨ c = 0x0A ∨ c = 0x0C ∨ c = 0x0B := by
  simpa [isTrimmed, isSpaceTab, isLineEnd, or_assoc] using h

theorem skipSpaces_cases (line : List UInt8) :
    skipSpaces line = ltrim line ∨ ∃ c rest, skipSpaces line = c :: rest ∧ isTrimmed c = true := by
  cases hskip : skipSpaces line with
  | nil =>
    have hall : ∀ c ∈ line, isTrimmed c = true := by
      intro c hc
      rw [isTrimmed, List.dropWhile_eq_nil_iff.mp hskip c hc]
      rfl
    exact .inl (List.dropWhile_eq_nil_iff.mpr hall).symm
  | cons c rest =>
    cases htrimmed : isTrimmed c with
    | true => exact .inr ⟨c, rest, rfl, htrimmed⟩
    | false =>
      refine .inl ?_
      -- the spaces and tabs before `c` are what `ltrim` drops, and it stops at `c`
      have hsplit : line = line.takeWhile isSpaceTab ++ c :: rest := by
        rw [← hskip]
        exact List.takeWhile_append_dropWhile.symm
      have hbefore : ∀ d ∈ line.takeWhile isSpaceTab, isTrimmed d = true := by
        intro d hd
        rw [isTrimmed, List.mem_takeWhile_imp hd]
        rfl
      rw [ltrim, hsplit, List.dropWhile_append_of_pos hbefore, List.dropWhile_cons_of_neg (by simp [htrimmed])]

theorem ltrim_head {line rest : List UInt8} {c : UInt8} (h : ltrim line = c :: rest) :
    isTrimmed c = false := by
  have hhead := List.head?_dropWhile_not isTrimmed line
  rw [← ltrim, h] at hhead
  simpa using hhead

/-! ## The filter -/

theorem isLowerCase_of_wordIs {c : UInt8} {rest : List UInt8} {word : String} (hjob : word ∈ jobCommands)
    (h : wordIs (c :: rest) word = true) : isLowerCase c = true := by
  obtain ⟨hnonempty, hletters⟩ := jobCommands_lowerCase hjob
  have hprefix : (ascii word).isPrefixOf (c :: rest) = true := (Bool.and_eq_true _ _ ▸ h).1
  obtain ⟨tail, htail⟩ := List.isPrefixOf_iff_prefix.mp hprefix
  cases hword : ascii word with
  | nil => exact absurd hword hnonempty
  | cons d more =>
    rw [hword, List.cons_append, List.cons.injEq] at htail
    rw [← htail.1]
    apply hletters
    rw [hword]
    exact List.mem_cons_self

/-- The filter on a line that begins with something that is no letter. -/
theorem not_refused {line rest : List UInt8} {c : UInt8} (hskip : skipSpaces line = c :: rest)
    (hupper : isUpperCase c = false) (hlower : isLowerCase c = false) (hdollar : c ≠ 0x24) :
    refusedWhileStartPending line = false := by
  rw [refusedWhileStartPending, hskip]
  show (if isUpperCase c then true
    else if c = 0x24 then decide (rest.head? = some 0x48) || decide (rest.head? = some 0x4A)
      else jobCommands.any (wordIs (c :: rest))) = false
  rw [hupper, if_neg Bool.false_ne_true, if_neg hdollar, List.any_eq_false]
  intro word hjob hword
  rw [isLowerCase_of_wordIs hjob hword] at hlower
  exact Bool.noConfusion hlower

theorem not_refused_of_trimmed {line rest : List UInt8} {c : UInt8} (hskip : skipSpaces line = c :: rest)
    (htrimmed : isTrimmed c = true) : refusedWhileStartPending line = false := by
  have hbyte : isUpperCase c = false ∧ isLowerCase c = false ∧ c ≠ 0x24 := by
    obtain rfl | rfl | rfl | rfl | rfl | rfl := isTrimmed_cases htrimmed <;> decide
  obtain ⟨hupper, hlower, hdollar⟩ := hbyte
  exact not_refused hskip hupper hlower hdollar

/-- A line that begins with an upper-case letter. -/
theorem refused_of_upperCase {line rest : List UInt8} {c : UInt8} (hskip : skipSpaces line = c :: rest)
    (hupper : isUpperCase c = true) : refusedWhileStartPending line = true := by
  rw [refusedWhileStartPending, hskip]
  exact if_pos hupper

/-! ## What the dispatcher takes apart -/

section

variable {modalGroup1 c : UInt8} {line rest : List UInt8}

theorem lineBranch_commands (hc : commandLetters.contains c = true) :
    lineBranch modalGroup1 (c :: rest) = .commands := by
  have hother : ∀ c ∈ commandLetters, c ≠ 0x24 ∧ isLowerCase c = false := by
    rw [commandLetters_bytes]
    simp [isLowerCase]
  obtain ⟨hdollar, hlower⟩ := hother c (List.contains_iff_mem.mp hc)
  rw [lineBranch, if_neg hdollar, hlower, if_neg Bool.false_ne_true, if_pos hc]

/-- A line that is tried again begins with `G`. -/
theorem lineBranch_axis (hc : axisLetters.contains c = true) :
    ∃ again, lineBranch modalGroup1 (c :: rest) = .tryAgain (0x47 :: again) := by
  have hother : ∀ c ∈ axisLetters, c ≠ 0x24 ∧ isLowerCase c = false ∧ commandLetters.contains c = false ∧
      (c = 0x3B || c = 0x28 || isLineEnd c) = false := by
    rw [axisLetters_bytes, commandLetters_bytes]
    simp [isLowerCase, isLineEnd]
  obtain ⟨hdollar, hlower, hcommand, hcomment⟩ := hother c (List.contains_iff_mem.mp hc)
  rw [lineBranch, if_neg hdollar, hlower, hcommand, hcomment, if_neg Bool.false_ne_true,
    if_neg Bool.false_ne_true, if_neg Bool.false_ne_true, axisBranch, List.findIdx?_cons, hc]
  show ∃ again, LineBranch.tryAgain ((if c = 0x46 then ascii "G1 "
    else ascii "G" ++ ascii (toString modalGroup1.toNat) ++ ascii " ") ++ c :: rest) = _
  split
  · exact ⟨_, rfl⟩
  · exact ⟨_, rfl⟩

theorem axisBranch_other (hc : axisLetters.contains c = false) (hspace : c ≠ 0x20) :
    axisBranch modalGroup1 c (c :: rest) = .ignored := by
  rw [axisBranch, List.findIdx?_cons, hc]
  cases rest.findIdx? (axisLetters.contains ·) with
  | none => rfl
  | some n =>
    show (if decide (n + 1 = 0) || decide (c = 0x20) then _ else LineBranch.ignored) = _
    rw [decide_eq_false (Nat.succ_ne_zero n), decide_eq_false hspace]
    rfl

theorem lineBranch_other (hcommand : commandLetters.contains c = false)
    (haxis : axisLetters.contains c = false) (hspace : c ≠ 0x20) :
    lineBranch modalGroup1 (c :: rest) ∈ [LineBranch.shell, .comment, .ignored] := by
  rw [lineBranch, hcommand, if_neg Bool.false_ne_true, axisBranch_other haxis hspace]
  split_ifs <;> simp

/-- A line is taken apart if it begins with one of the letters that the dispatcher acts on. -/
theorem dispatched_iff (htrim : ltrim line = c :: rest) :
    dispatchedText modalGroup1 line ≠ none ↔
      commandLetters.contains c = true ∨ axisLetters.contains c = true := by
  have hline : line ≠ [] := by
    intro hnil
    rw [hnil] at htrim
    cases htrim
  rw [dispatchedText, if_neg hline, htrim, takenApart]
  -- By the branch of the dispatcher that the first letter leads to.
  cases hcommand : commandLetters.contains c with
  | true =>
    rw [lineBranch_commands hcommand]
    exact ⟨fun _ => .inl rfl, fun _ => Option.some_ne_none _⟩
  | false =>
    cases haxis : axisLetters.contains c with
    | true =>
      obtain ⟨again, hagain⟩ := @lineBranch_axis modalGroup1 c rest haxis
      rw [hagain]
      refine ⟨fun _ => .inr rfl, fun _ => ?_⟩
      show takenApart modalGroup1 1 (0x47 :: again) ≠ none
      rw [takenApart, lineBranch_commands (by rw [commandLetters_bytes]; decide)]
      exact Option.some_ne_none _
    | false =>
      have hspace : c ≠ 0x20 := by
        intro hc
        have htrimmed := ltrim_head htrim
        rw [hc] at htrimmed
        exact absurd htrimmed (by decide)
      have hbranch := @lineBranch_other modalGroup1 c rest hcommand haxis hspace
      simp only [List.mem_cons, List.not_mem_nil, or_false] at hbranch
      obtain hbranch | hbranch | hbranch := hbranch
      · simp [hbranch]
      · simp [hbranch]
      · simp [hbranch]

/-- A line of nothing but white space. -/
theorem dispatched_blank (htrim : ltrim line = []) : dispatchedText modalGroup1 line = none := by
  rw [dispatchedText, htrim]
  split
  · rfl
  · rfl

end

/-! ## What the player acts on -/

/-- Only a letter is decoded to a letter. -/
theorem decodeSpecial_lowerCase {c : UInt8} (h : isLowerCase (decodeSpecial c) = true) :
    decodeSpecial c = c := by
  unfold decodeSpecial at h ⊢
  split_ifs at h ⊢
  · exact absurd h (by decide)
  · exact absurd h (by decide)
  · exact absurd h (by decide)
  · exact absurd h (by decide)
  · exact absurd h (by decide)
  · rfl

theorem eq_of_map_decodeSpecial {text word : List UInt8} (hword : ∀ c ∈ word, isLowerCase c = true)
    (h : text.map decodeSpecial = word) : text = word := by
  subst h
  have hsame : ∀ c ∈ text, decodeSpecial c = c :=
    fun c hc => decodeSpecial_lowerCase (hword _ (List.mem_map_of_mem hc))
  rw [List.map_congr_left hsame, List.map_id']

theorem shiftParameter_plain {c : UInt8} {rest : List UInt8} (hspace : isSpaceTab c = false)
    (hquote : isQuote c = false) : shiftParameter (c :: rest) = shiftUnquoted (c :: rest) := by
  rw [shiftParameter, List.dropWhile_cons_of_neg (Bool.eq_false_iff.mp hspace)]
  show (if (isQuote c && rest.contains c) = true then _ else shiftUnquoted (c :: rest)) = _
  rw [hquote, Bool.false_and, if_neg Bool.false_ne_true]

/-- The player's idea of a word is no wider than the filter's. -/
theorem wordIs_of_shiftUnquoted {line : List UInt8} {word : String} (hjob : word ∈ jobCommands)
    (h : (shiftUnquoted line).1 = ascii word) : wordIs line word = true := by
  have htake : line.takeWhile (· != 0x20) = ascii word :=
    eq_of_map_decodeSpecial (jobCommands_lowerCase hjob).2 h
  have hprefix : (ascii word).isPrefixOf line = true := by
    rw [List.isPrefixOf_iff_prefix, ← htake]
    exact List.takeWhile_prefix _
  have hsplit : line = ascii word ++ line.dropWhile (· != 0x20) := by
    rw [← htake]
    exact List.takeWhile_append_dropWhile.symm
  have hdrop : line.drop (ascii word).length = line.dropWhile (· != 0x20) :=
    (congrArg (List.drop _) hsplit).trans List.drop_left
  rw [wordIs, hprefix, hdrop]
  have hnext := List.head?_dropWhile_not (· != (0x20 : UInt8)) line
  cases hrest : line.dropWhile (· != 0x20) with
  | nil => rfl
  | cons next rest =>
    rw [hrest] at hnext
    have hnext : next = 0x20 := by simpa using hnext
    rw [hnext]
    rfl

theorem isLowerCase_other {c : UInt8} (h : isLowerCase c = true) :
    isSpaceTab c = false ∧ isQuote c = false ∧ isUpperCase c = false ∧ c ≠ 0x24 := by
  obtain ⟨hfrom, -⟩ := (Bool.and_eq_true _ _).mp h
  have hfrom : 0x61 ≤ c.toNat := of_decide_eq_true hfrom
  have hne (d : UInt8) (hd : d.toNat < 0x61) : c ≠ d := by
    rintro rfl
    omega
  have hupper : ¬ c ≤ 0x5A := by
    intro hc
    have hc : c.toNat ≤ 0x5A := hc
    omega
  refine ⟨?_, ?_, ?_, hne _ (by decide)⟩
  · simp [isSpaceTab, hne 0x20 (by decide), hne 0x09 (by decide)]
  · simp [isQuote, hne 0x22 (by decide), hne 0x27 (by decide)]
  · simp [isUpperCase, hupper]

theorem refused_of_isJobCommand {line : List UInt8} (h : isJobCommand line = true) :
    refusedWhileStartPending line = true := by
  cases line with
  | nil => exact absurd h Bool.false_ne_true
  | cons c rest =>
    obtain ⟨hlower, hany⟩ := (Bool.and_eq_true _ _).mp h
    obtain ⟨hspace, hquote, hupper, hdollar⟩ := isLowerCase_other hlower
    obtain ⟨word, hjob, hword⟩ := List.any_eq_true.mp hany
    rw [shiftParameter_plain hspace hquote] at hword
    have hskip : skipSpaces (c :: rest) = c :: rest := List.dropWhile_cons_of_neg (Bool.eq_false_iff.mp hspace)
    rw [refusedWhileStartPending, hskip]
    show (if isUpperCase c then true
      else if c = 0x24 then decide (rest.head? = some 0x48) || decide (rest.head? = some 0x4A)
        else jobCommands.any (wordIs (c :: rest))) = true
    rw [hupper, if_neg Bool.false_ne_true, if_neg hdollar, List.any_eq_true]
    exact ⟨word, hjob, wordIs_of_shiftUnquoted hjob (of_decide_eq_true hword)⟩

/-! ## When nothing gets past the filter -/

/-- Where white space that the filter does not skip comes first, or `#`, the filter lets the line through. -/
theorem not_refused_of_not_plain {line : List UInt8}
    (h : (ltrim line).head? = some 0x23 ∨ skipSpaces line ≠ ltrim line) :
    refusedWhileStartPending line = false := by
  obtain hskip | ⟨c, rest, hskip, htrimmed⟩ := skipSpaces_cases line
  · obtain hhash | hne := h
    · obtain ⟨rest, htrim⟩ := List.head?_eq_some_iff.mp hhash
      exact not_refused (hskip.trans htrim) (by decide) (by decide) (by decide)
    · exact absurd hskip hne
  · exact not_refused_of_trimmed hskip htrimmed

/-- The filter holds a line back from both parsers exactly if the line has a plain start. -/
theorem heldBack_iff (modalGroup1 : UInt8) (line : List UInt8) :
    HeldBack modalGroup1 line ↔ PlainStart line := by
  have hletters : ∀ c, (commandLetters.contains c = true ∨ axisLetters.contains c = true) ↔
      (c = 0x23 ∨ c ∈ ascii "GMTSNXYZAF") := by
    intro c
    rw [commandLetters_bytes, axisLetters_bytes, dispatchLetters_bytes]
    simp only [List.contains_iff_mem, List.mem_cons, List.not_mem_nil, or_false]
    tauto
  constructor
  · intro hheld
    refine ⟨?_, ?_⟩
    · intro hhash
      obtain ⟨rest, htrim⟩ := List.head?_eq_some_iff.mp hhash
      have hpast := (@dispatched_iff modalGroup1 _ _ _ htrim).mpr ((hletters _).mpr (.inl rfl))
      exact hpast (hheld (not_refused_of_not_plain (.inl hhash))).1
    · intro c hc hletter
      by_contra hne
      obtain ⟨rest, htrim⟩ := List.head?_eq_some_iff.mp hc
      have hpast := (@dispatched_iff modalGroup1 _ _ _ htrim).mpr ((hletters c).mpr (.inr hletter))
      exact hpast (hheld (not_refused_of_not_plain (.inr hne))).1
  · rintro ⟨hhash, hplain⟩ hnot
    have hplayer : isJobCommand line = false := by
      by_contra hjob
      rw [refused_of_isJobCommand (Bool.eq_true_of_not_eq_false hjob)] at hnot
      exact Bool.noConfusion hnot
    refine ⟨?_, hplayer⟩
    cases htrim : ltrim line with
    | nil => exact dispatched_blank htrim
    | cons c rest =>
      by_contra hpast
      rw [htrim] at hhash hplain
      obtain rfl | hletter := (hletters c).mp ((dispatched_iff htrim).mp hpast)
      · exact hhash rfl
      · have hupper : ∀ c ∈ ascii "GMTSNXYZAF", isUpperCase c = true := by
          rw [dispatchLetters_bytes]
          simp [isUpperCase]
        rw [refused_of_upperCase (hplain c rfl hletter) (hupper c hletter)] at hnot
        exact Bool.noConfusion hnot

/-- A line feed, and then a move. -/
def lateMove : List UInt8 := 0x0A :: ascii "G0 X10"

theorem late_move_dispatched :
    refusedWhileStartPending lateMove = false ∧ dispatchedText 1 lateMove = some (ascii "G0 X10") ∧
      ¬ ∀ modalGroup1 line, HeldBack modalGroup1 line := by
  have hpast : refusedWhileStartPending lateMove = false := by decide +kernel
  have hmove : dispatchedText 1 lateMove = some (ascii "G0 X10") := by decide +kernel
  refine ⟨hpast, hmove, ?_⟩
  intro hclaim
  have hnone := (hclaim 1 lateMove hpast).1
  rw [hmove] at hnone
  exact Option.some_ne_none _ hnone

end CarveraFirmware.Clients
