import Mathlib
import CarveraFirmware.Jobs.OCodeHandler
import CarveraFirmware.Library.Substring

/-!
# Cutting a line into commands

`GcodeDispatch::on_console_line_received` on a line that begins with `G`: the commands that it cuts
the line into, and the commands that end the line before all of it is cut. What the modules do with a
command is left out, but for whether the machine is halted by the time the next one is looked at.
-/

namespace CarveraFirmware.Gcode

open Jobs.OCode (strtol)

def g90 : List Char := ['G', '9', '0']

def g91 : List Char := ['G', '9', '1']

/-- The first `G90`, or else the first `G91`, and its place. -/
def modePlace (line : List Char) : Option (List Char × Nat) :=
  match find g90 line with
  | some pos => some (g90, pos)
  | none => (find g91 line).map (g91, ·)

/-- `erase(pos, 3)`, with the word put in front. -/
def moveToFront (word line : List Char) (pos : Nat) : List Char :=
  word ++ (line.take pos ++ line.drop (pos + 3))

def hoistMode (line : List Char) : List Char :=
  match modePlace line with
  | some (word, pos) => moveToFront word line pos
  | none => line

def beforeComment (c : Char) : Bool := !(c == ';' || c == '(')

def removeComment (line : List Char) : List Char := line.takeWhile beforeComment

/-- `find_first_of`. -/
def findFirstOf (chars : List Char) (start : Nat) (line : List Char) : Option Nat :=
  ((line.drop start).findIdx? (chars.contains ·)).map (· + start)

/-- `cmd_pos`, for the first character of what is left. -/
def cmdPos (last : Option Nat) (line : List Char) : Option Nat :=
  match line.head? with
  | some 'G' =>
    if (findFirstOf ['S'] 2 line).isSome && (findFirstOf ['M'] 2 line).isSome then
      findFirstOf ['G', 'M', 'S', 'T'] 2 line
    else findFirstOf ['G', 'M', 'T'] 2 line
  | some 'M' => findFirstOf ['G', 'M'] 2 line
  | some 'T' | some 'S' =>
    match findFirstOf ['M'] 2 line with
    | none => findFirstOf ['G', 'S', 'T'] 2 line
    | some pos => findFirstOf ['G', 'M', 'S', 'T'] (pos + 2) line
  | _ => last

/-! ## What ends a line -/

/-- `get_int`. After a letter with no number the character behind it is skipped as well. -/
def getInt (letter : Char) : List Char → Int
  | [] => 0
  | c :: line =>
    if c = letter then
      match strtol line with
      | some (n, _) => n
      | none => match line with
        | [] => 0
        | _ :: line => getInt letter line
    else getInt letter line

/-- What the loop reads of a `Gcode`. -/
structure Code where
  hasG : Bool
  g : UInt32
  hasM : Bool
  m : UInt32

def prepareCachedValues (command : List Char) : Code where
  hasG := command.contains 'G'
  g := .ofInt (getInt 'G' command)
  hasM := command.contains 'M'
  m := .ofInt (getInt 'M' command)

/-- `allowed_mcodes`. -/
def allowedMcodes : List UInt32 := [2, 5, 9, 30, 105, 114, 115, 119, 80, 81, 911, 503, 106, 107]

/-- `mine` says that `upload_stream` is where the line comes from. -/
structure Dispatcher where
  uploading : Bool := false
  mine : Bool := false
  modalGroup1 : UInt32 := 0

/-- What a command finds: whether the machine is halted, whether it is in GRBL mode, whether the file
of an upload can be opened, and what other lines have done to the dispatcher while the last command
was waited for. -/
structure Turn where
  halted : Bool := false
  grblMode : Bool := false
  opens : Bool := true
  others : Dispatcher → Dispatcher := id

/-- What becomes of the rest of the line. -/
inductive AfterCommand where
  | goesOn (d : Dispatcher)
  /-- The rest is one command. -/
  | takesRest (d : Dispatcher)
  | returns (d : Dispatcher)

/-- The codes behind which the loop returns. -/
def returningMcodes : List UInt32 := [112, 115, 117, 118, 1000, 400, 501, 504]

/-- The switch over the M-codes. -/
def mCode (turn : Turn) (command : List Char) (code : Code) (after : Dispatcher → AfterCommand)
    (d : Dispatcher) : AfterCommand :=
  if !code.hasM then after d
  else if code.m = 28 then
    -- `substr(4)` of a shorter text is an exception
    if command.length < 4 then .returns d
    else after { d with uploading := d.uploading || turn.opens, mine := true }
  else if code.m = 2 ∨ (code.m = 30 ∧ turn.grblMode = true) then after { d with modalGroup1 := 1 }
  else if returningMcodes.contains code.m then .returns d
  else after d

def rememberModal (code : Code) (d : Dispatcher) : Dispatcher :=
  if code.hasG && code.g < 4 then { d with modalGroup1 := code.g } else d

/-- One turn of the loop, with the command that was cut off and the rest of the line. -/
def dispatchCommand (turn : Turn) (d : Dispatcher) (command rest : List Char) : AfterCommand :=
  if d.uploading && d.mine then
    .goesOn (if command.take 3 = ['M', '2', '9'] then { d with uploading := false, mine := false } else d)
  else
    let code := prepareCachedValues command
    if turn.halted && ((code.hasM && code.m == 999) || !allowedMcodes.contains code.m) then .returns d
    else if code.hasG && code.g == 53 then
      if rest.isEmpty then
        -- the last G0 or G1 stands in
        if 3 < d.modalGroup1 then .returns d else mCode turn command code .goesOn d
      else
        let move := prepareCachedValues rest
        if !move.hasG || 1 < move.g then .returns d
        else
          match mCode turn command move .takesRest (rememberModal move d) with
          | .returns d => .takesRest d
          | after => after
    else mCode turn command code .goesOn (rememberModal code d)

/-- What a line is cut into: `left` is what is not made into a command. -/
structure Cutting where
  commands : List (List Char) := []
  left : List Char := []
  dispatcher : Dispatcher

/-- The loop, for a number of turns. -/
def cutCommands : Nat → (Nat → Turn) → Dispatcher → Option Nat → List Char → Cutting
  | 0, _, d, _, line => { left := line, dispatcher := d }
  | n + 1, turn, d, last, line =>
    if line = [] then { dispatcher := d }
    else
      let pos := cmdPos last line
      let command := line.take (pos.getD line.length)
      let rest := line.drop (pos.getD line.length)
      match dispatchCommand (turn 0) ((turn 0).others d) command rest with
      | .returns d => { commands := [command], left := rest, dispatcher := d }
      | .takesRest d => { commands := [command, rest], dispatcher := d }
      | .goesOn d =>
        let next := cutCommands n (fun k => turn (k + 1)) d pos rest
        { next with commands := command :: next.commands }

def prepareLine (line : List Char) : List Char := removeComment (hoistMode line)

/-- The single commands of a line that begins with `G`. The `n`-th one finds `turn n`. -/
def singleCommands (turn : Nat → Turn) (d : Dispatcher) (line : List Char) : Cutting :=
  cutCommands (prepareLine line).length turn d none (prepareLine line)

/-! ## The words of a line -/

/-- A word ends where no digit and no point follows. -/
def endsWord : List Char → Bool
  | [] => true
  | c :: _ => !(c.isDigit || c == '.')

def isWord (word line : List Char) : Bool := word.isPrefixOf line && endsWord (line.drop 3)

/-- The first whole word `G90`, or else the first whole word `G91`, and its place. -/
def wordPlace (line : List Char) : Option (List Char × Nat) :=
  match firstWhere (isWord g90) line with
  | some pos => some (g90, pos)
  | none => (firstWhere (isWord g91) line).map (g91, ·)

def hoistWord (line : List Char) : List Char :=
  match wordPlace line with
  | some (word, pos) => moveToFront word line pos
  | none => line

/-! ## What is cut is kept -/

theorem pos_of_findFirstOf {chars line : List Char} {start pos : Nat}
    (h : findFirstOf chars start line = some pos) : start ≤ pos := by
  obtain ⟨i, -, rfl⟩ := Option.map_eq_some_iff.mp h
  exact Nat.le_add_left ..

theorem pos_of_cmdPos {last : Option Nat} {line : List Char} {pos : Nat}
    (hlast : ∀ n, last = some n → 0 < n) (h : cmdPos last line = some pos) : 0 < pos := by
  rw [cmdPos] at h
  split at h
  · split at h
    · exact Nat.lt_of_lt_of_le Nat.two_pos (pos_of_findFirstOf h)
    · exact Nat.lt_of_lt_of_le Nat.two_pos (pos_of_findFirstOf h)
  · exact Nat.lt_of_lt_of_le Nat.two_pos (pos_of_findFirstOf h)
  · split at h
    · exact Nat.lt_of_lt_of_le Nat.two_pos (pos_of_findFirstOf h)
    · exact Nat.lt_of_lt_of_le (Nat.succ_pos _) (pos_of_findFirstOf h)
  · split at h
    · exact Nat.lt_of_lt_of_le Nat.two_pos (pos_of_findFirstOf h)
    · exact Nat.lt_of_lt_of_le (Nat.succ_pos _) (pos_of_findFirstOf h)
  · exact hlast pos h

theorem length_drop_cmdPos {last : Option Nat} {line : List Char} (hline : line ≠ [])
    (hlast : ∀ n, last = some n → 0 < n) {turns : Nat} (hturns : line.length ≤ turns + 1) :
    (line.drop ((cmdPos last line).getD line.length)).length ≤ turns := by
  have hpos : 0 < (cmdPos last line).getD line.length := by
    cases hcut : cmdPos last line with
    | none => exact List.length_pos_iff.mpr hline
    | some pos => exact pos_of_cmdPos hlast hcut
  rw [List.length_drop]
  omega

/-- The commands, and what is left, make up the line. -/
theorem flatten_cutCommands {turns : Nat} {turn : Nat → Turn} {d : Dispatcher} {last : Option Nat}
    {line : List Char} (hturns : line.length ≤ turns) (hlast : ∀ n, last = some n → 0 < n) :
    (cutCommands turns turn d last line).commands.flatten ++ (cutCommands turns turn d last line).left
      = line := by
  induction turns generalizing turn d last line with
  | zero =>
    obtain rfl := List.eq_nil_of_length_eq_zero (Nat.le_zero.mp hturns)
    rfl
  | succ turns ih =>
    rw [cutCommands]
    split
    · rename_i hnil
      exact hnil.symm
    · rename_i hline
      have hleft := length_drop_cmdPos hline hlast hturns
      dsimp only
      split
      · simp
      · simp
      · rw [List.flatten_cons, List.append_assoc,
          ih hleft fun n hn => pos_of_cmdPos hlast hn, List.take_append_drop]

theorem flatten_singleCommands (turn : Nat → Turn) (d : Dispatcher) (line : List Char) :
    (singleCommands turn d line).commands.flatten ++ (singleCommands turn d line).left
      = prepareLine line :=
  flatten_cutCommands le_rfl nofun

theorem singleCommands_eq_iff {turn : Nat → Turn} {d : Dispatcher} {line line' : List Char} :
    singleCommands turn d line = singleCommands turn d line' ↔
      prepareLine line = prepareLine line' := by
  constructor
  · intro h
    rw [← flatten_singleCommands turn d line, h, flatten_singleCommands]
  · intro h
    rw [singleCommands, h, singleCommands]

/-! ## What is not cut -/

/-- The command ends the line, and with it what follows is not made into a command: it is refused in
a halt or clears it, it is a `G53` without a move behind it, or one of the codes that return. -/
def EndsLine (halted : Bool) (command rest : List Char) : Prop :=
  (halted = true ∧ ((prepareCachedValues command).m = 999 ∨
      (prepareCachedValues command).m ∉ allowedMcodes)) ∨
    ((prepareCachedValues command).hasG = true ∧ (prepareCachedValues command).g = 53 ∧
      ((prepareCachedValues rest).hasG = false ∨ 1 < (prepareCachedValues rest).g)) ∨
    ((prepareCachedValues command).hasM = true ∧
      ((prepareCachedValues command).m ∈ returningMcodes ∨
        ((prepareCachedValues command).m = 28 ∧ command.length < 4)))

theorem mCode_returns {turn : Turn} {command : List Char} {code : Code}
    {after : Dispatcher → AfterCommand} {d d' : Dispatcher} (hafter : ∀ d, after d ≠ .returns d')
    (h : mCode turn command code after d = .returns d') :
    code.hasM = true ∧ (code.m ∈ returningMcodes ∨ (code.m = 28 ∧ command.length < 4)) := by
  rw [mCode] at h
  split at h
  · exact absurd h (hafter d)
  · rename_i hasM
    refine ⟨by simpa using hasM, ?_⟩
    split at h
    · rename_i hupload
      split at h
      · rename_i hshort
        exact .inr ⟨hupload, hshort⟩
      · exact absurd h (hafter _)
    · split at h
      · exact absurd h (hafter _)
      · split at h
        · rename_i hreturns
          exact .inl (List.contains_iff_mem.mp hreturns)
        · exact absurd h (hafter _)

/-- One turn returns with a rest only behind a command that ends the line. -/
theorem endsLine_of_returns {turn : Turn} {d d' : Dispatcher} {command rest : List Char}
    (hrest : rest ≠ []) (h : dispatchCommand turn d command rest = .returns d') :
    EndsLine turn.halted command rest := by
  rw [dispatchCommand] at h
  split at h
  · cases h
  · dsimp only at h
    split at h
    · -- refused
      rename_i hrefused
      left
      simp only [Bool.and_eq_true, Bool.or_eq_true, beq_iff_eq, Bool.not_eq_eq_eq_not, Bool.not_true,
        List.contains_eq_mem, decide_eq_false_iff_not] at hrefused
      exact ⟨hrefused.1, hrefused.2.imp And.right id⟩
    · split at h
      · -- `G53`
        rename_i hG53
        simp only [Bool.and_eq_true, beq_iff_eq] at hG53
        rw [if_neg (by simpa using hrest)] at h
        split at h
        · rename_i hinvalid
          right
          left
          simp only [Bool.or_eq_true, Bool.not_eq_eq_eq_not, Bool.not_true, decide_eq_true_eq]
            at hinvalid
          exact ⟨hG53.1, hG53.2, hinvalid⟩
        · split at h
          · cases h
          · rename_i hother
            exact absurd h (hother d')
      · right
        right
        have hgoes (d : Dispatcher) : AfterCommand.goesOn d ≠ .returns d' := nofun
        exact mCode_returns hgoes h

/-- Text is left only behind a command that ends the line, and that command is the last one. -/
theorem endsLine_of_left {turns : Nat} {turn : Nat → Turn} {d : Dispatcher} {last : Option Nat}
    {line : List Char} (hturns : line.length ≤ turns) (hlast : ∀ n, last = some n → 0 < n)
    (hleft : (cutCommands turns turn d last line).left ≠ []) :
    ∃ before command, (cutCommands turns turn d last line).commands = before ++ [command] ∧
      EndsLine (turn before.length).halted command (cutCommands turns turn d last line).left := by
  induction turns generalizing turn d last line with
  | zero =>
    obtain rfl := List.eq_nil_of_length_eq_zero (Nat.le_zero.mp hturns)
    exact absurd rfl hleft
  | succ turns ih =>
    rw [cutCommands] at hleft ⊢
    split at hleft
    · exact absurd rfl hleft
    · rename_i hline
      rw [if_neg hline]
      have hrest := length_drop_cmdPos hline hlast hturns
      dsimp only at hleft ⊢
      split at hleft
      · rename_i d' hreturns
        exact ⟨[], _, rfl, endsLine_of_returns hleft hreturns⟩
      · exact absurd rfl hleft
      · obtain ⟨before, command, hcommands, hends⟩ :=
          ih hrest (fun n hn => pos_of_cmdPos hlast hn) hleft
        exact ⟨line.take ((cmdPos last line).getD line.length) :: before, command,
          congrArg (List.cons _) hcommands, hends⟩

/-! ## The distance mode within a line -/

theorem beforeComment_g90 : ∀ c ∈ g90, beforeComment c = true := by simp [g90, beforeComment]

theorem beforeComment_g91 : ∀ c ∈ g91, beforeComment c = true := by simp [g91, beforeComment]

theorem beforeComment_removeComment (line : List Char) :
    ∀ c ∈ removeComment line, beforeComment c = true := fun _ hc => List.mem_takeWhile_imp hc

theorem removeComment_append {kept : List Char} (h : ∀ c ∈ kept, beforeComment c = true)
    (rest : List Char) : removeComment (kept ++ rest) = kept ++ removeComment rest :=
  List.takeWhile_append_of_pos h

/-- What is cut off begins with the mark of a comment. -/
theorem exists_comment (line : List Char) :
    ∃ comment, line = removeComment line ++ comment ∧
      (comment = [] ∨ ∃ c tail, comment = c :: tail ∧ beforeComment c = false) := by
  refine ⟨line.dropWhile beforeComment, List.takeWhile_append_dropWhile.symm, ?_⟩
  cases hcomment : line.dropWhile beforeComment with
  | nil => exact .inl rfl
  | cons c tail =>
    refine .inr ⟨c, tail, rfl, ?_⟩
    have hhead := List.head?_dropWhile_not beforeComment line
    rw [hcomment] at hhead
    simpa using hhead

theorem removeComment_idem (line : List Char) :
    removeComment (removeComment line) = removeComment line := by
  have h := removeComment_append (beforeComment_removeComment line) []
  simpa [removeComment] using h

theorem modePlace_eq {line : List Char} {word : List Char} {pos : Nat}
    (h : modePlace line = some (word, pos)) :
    (word = g90 ∧ find g90 line = some pos) ∨
      (word = g91 ∧ find g90 line = none ∧ find g91 line = some pos) := by
  rw [modePlace] at h
  cases h90 : find g90 line with
  | some i =>
    rw [h90] at h
    obtain ⟨rfl, rfl⟩ := Prod.mk.inj (Option.some.inj h)
    exact .inl ⟨rfl, rfl⟩
  | none =>
    rw [h90] at h
    obtain ⟨i, hi, heq⟩ := Option.map_eq_some_iff.mp h
    obtain ⟨rfl, rfl⟩ := Prod.mk.inj heq
    exact .inr ⟨rfl, rfl, hi⟩

/-- What stands at the place is a three letter word of the comment-free part's letters. -/
theorem modePlace_find {line word : List Char} {pos : Nat} (h : modePlace line = some (word, pos)) :
    find word line = some pos ∧ word.length = 3 ∧ word.head? = some 'G' ∧
      ∀ c ∈ word, beforeComment c = true := by
  obtain ⟨rfl, hfind⟩ | ⟨rfl, -, hfind⟩ := modePlace_eq h
  · exact ⟨hfind, rfl, rfl, beforeComment_g90⟩
  · exact ⟨hfind, rfl, rfl, beforeComment_g91⟩

/-- The comment-free part has the same place, where that is in it. -/
theorem modePlace_removeComment {line word : List Char} {pos : Nat}
    (h : modePlace line = some (word, pos)) (hpos : pos ≤ (removeComment line).length) :
    modePlace (removeComment line) = some (word, pos) := by
  rw [removeComment] at hpos ⊢
  obtain ⟨rfl, h90⟩ | ⟨rfl, h90, h91⟩ := modePlace_eq h
  · rw [modePlace, (find_takeWhile_eq_some beforeComment_g90).mpr ⟨h90, hpos⟩]
  · have hnone : find g90 (line.takeWhile beforeComment) = none := by
      by_contra hsome
      obtain ⟨i, hi⟩ := Option.ne_none_iff_exists'.mp hsome
      rw [find_takeWhile_eq_some beforeComment_g90, h90] at hi
      exact absurd hi.1 nofun
    rw [modePlace, hnone, (find_takeWhile_eq_some beforeComment_g91).mpr ⟨h91, hpos⟩]
    rfl

theorem modePlace_none {line : List Char} (h : modePlace line = none) :
    modePlace (removeComment line) = none := by
  have hnone (pat : List Char) (hpat : ∀ c ∈ pat, beforeComment c = true)
      (hfind : find pat line = none) : find pat (removeComment line) = none := by
    by_contra hsome
    obtain ⟨i, hi⟩ := Option.ne_none_iff_exists'.mp hsome
    rw [removeComment, find_takeWhile_eq_some hpat, hfind] at hi
    exact absurd hi.1 nofun
  have h90 : find g90 line = none := by
    by_contra hsome
    obtain ⟨i, hi⟩ := Option.ne_none_iff_exists'.mp hsome
    simp [modePlace, hi] at h
  have h91 : find g91 line = none := by simpa [modePlace, h90] using h
  rw [modePlace, hnone g90 beforeComment_g90 h90, hnone g91 beforeComment_g91 h91]
  rfl

/-- The text from the place on is the word. -/
theorem drop_of_find {line word : List Char} {pos : Nat} (h : find word line = some pos) :
    word <+: line.drop pos ∧ pos + word.length ≤ line.length := by
  obtain ⟨hat, hle, -⟩ := firstWhere_eq_some.mp h
  have hleads := List.isPrefixOf_iff_prefix.mp hat
  have hlength := hleads.length_le
  rw [List.length_drop] at hlength
  exact ⟨hleads, by omega⟩

theorem length_moveToFront {line word : List Char} {pos : Nat} (hword : word.length = 3)
    (hfit : pos + 3 ≤ line.length) : (moveToFront word line pos).length = line.length := by
  simp only [moveToFront, List.length_append, List.length_take, List.length_drop, hword]
  omega

/-- A word that is hoisted out of the comment-free part. -/
theorem removeComment_moveToFront {line word : List Char} {pos : Nat}
    (hword : ∀ c ∈ word, beforeComment c = true) (hfit : pos + 3 ≤ (removeComment line).length) :
    removeComment (moveToFront word line pos) = moveToFront word (removeComment line) pos := by
  obtain ⟨comment, hline, hcomment⟩ := exists_comment line
  have hkept := beforeComment_removeComment line
  have hempty : removeComment comment = [] := by
    obtain rfl | ⟨c, tail, rfl, hc⟩ := hcomment
    · rfl
    · simp [removeComment, hc]
  generalize removeComment line = body at *
  subst hline
  rw [moveToFront, List.take_append_of_le_length (by omega),
    List.drop_append_of_le_length hfit, removeComment_append hword,
    removeComment_append fun c hc => hkept c (List.mem_of_mem_take hc),
    removeComment_append fun c hc => hkept c (List.mem_of_mem_drop hc), hempty, List.append_nil,
    moveToFront]

/-- A word that is hoisted out of the comment. -/
theorem removeComment_moveToFront_comment {line word : List Char} {pos : Nat}
    (hword : ∀ c ∈ word, beforeComment c = true) (hpos : (removeComment line).length < pos)
    (hfit : pos ≤ line.length) :
    removeComment (moveToFront word line pos) = word ++ removeComment line := by
  obtain ⟨comment, hline, hcomment⟩ := exists_comment line
  have hkept := beforeComment_removeComment line
  generalize removeComment line = body at *
  subst hline
  obtain rfl | ⟨c, tail, rfl, hc⟩ := hcomment
  · rw [List.append_nil] at hfit
    omega
  · obtain ⟨k, rfl⟩ : ∃ k, pos = body.length + (k + 1) := ⟨pos - body.length - 1, by omega⟩
    rw [moveToFront, List.take_length_add_append, removeComment_append hword, List.append_assoc,
      removeComment_append hkept, List.take_succ_cons, List.cons_append]
    simp [removeComment, hc]

/-! ## Hoisting a word and hoisting its letters -/

/-- A whole word stands where its letters do, or later. -/
theorem isPrefixOf_of_isWord {word : List Char} (t : List Char) (h : isWord word t = true) :
    word.isPrefixOf t = true := (Bool.and_eq_true_iff.mp h).1

/-- The first whole word, where the first place is one. -/
theorem wordPlace_of_isWord {line word : List Char} {pos : Nat}
    (h : modePlace line = some (word, pos)) (hword : isWord word (line.drop pos) = true) :
    wordPlace line = some (word, pos) := by
  have hfirst (pat : List Char) (hfind : find pat line = some pos)
      (hpat : isWord pat (line.drop pos) = true) : firstWhere (isWord pat) line = some pos := by
    obtain ⟨-, hle, hbefore⟩ := firstWhere_eq_some.mp hfind
    refine firstWhere_eq_some.mpr ⟨hpat, hle, fun j hj => ?_⟩
    rw [isWord, hbefore j hj, Bool.false_and]
  obtain ⟨rfl, hfind⟩ | ⟨rfl, hnone, hfind⟩ := modePlace_eq h
  · rw [wordPlace, hfirst g90 hfind hword]
  · rw [wordPlace, firstWhere_none_mono isPrefixOf_of_isWord hnone, hfirst g91 hfind hword]
    rfl

theorem wordPlace_eq {line word : List Char} {pos : Nat} (h : wordPlace line = some (word, pos)) :
    (word = g90 ∨ word = g91) ∧ firstWhere (isWord word) line = some pos := by
  rw [wordPlace] at h
  cases h90 : firstWhere (isWord g90) line with
  | some i =>
    rw [h90] at h
    obtain ⟨rfl, rfl⟩ := Prod.mk.inj (Option.some.inj h)
    exact ⟨.inl rfl, h90⟩
  | none =>
    rw [h90] at h
    obtain ⟨i, hi, heq⟩ := Option.map_eq_some_iff.mp h
    obtain ⟨rfl, rfl⟩ := Prod.mk.inj heq
    exact ⟨.inr rfl, hi⟩

/-- A place that is not a whole word goes on with a digit or a point. -/
theorem not_g_of_not_isWord {line word : List Char} {pos : Nat} (hfind : find word line = some pos)
    (hword : isWord word (line.drop pos) = false) : (line.drop (pos + 3)).head? ≠ some 'G' := by
  intro hg
  have hat := List.isPrefixOf_iff_prefix.mpr (drop_of_find hfind).1
  rw [isWord, hat, Bool.true_and, List.drop_drop] at hword
  obtain ⟨rest, hrest⟩ := List.head?_eq_some_iff.mp hg
  rw [hrest] at hword
  have hends : endsWord ('G' :: rest) = true := rfl
  exact absurd (hends.symm.trans hword) nofun

/-- Moving letters that are not the whole word moves something else than the word. -/
theorem moveToFront_ne {text word : List Char} {i j : Nat} (hfind : find word text = some i)
    (hlength : word.length = 3) (hhead : word.head? = some 'G')
    (hi : isWord word (text.drop i) = false) (hj : firstWhere (isWord word) text = some j) :
    moveToFront word text i ≠ moveToFront word text j := by
  intro heq
  obtain ⟨hat, hle, -⟩ := firstWhere_eq_some.mp hj
  have hne : i ≠ j := by
    rintro rfl
    exact absurd (hi.symm.trans hat) nofun
  have hlt : i < j := Nat.lt_of_le_of_ne (firstWhere_mono isPrefixOf_of_isWord hfind hj) hne
  have hrest := List.append_cancel_left heq
  -- the letter at `i` is what follows the letters on one side, and their `G` on the other
  have hleft : (text.take i ++ text.drop (i + 3))[i]? = (text.drop (i + 3)).head? := by
    rw [List.getElem?_append_right (by rw [List.length_take]; omega), List.length_take,
      Nat.min_eq_left (by omega), Nat.sub_self, List.head?_eq_getElem?]
  have hright : (text.take j ++ text.drop (j + 3))[i]? = text[i]? := by
    rw [List.getElem?_append_left (by rw [List.length_take]; omega), List.getElem?_take_of_lt hlt]
  have hg : text[i]? = some 'G' := by
    obtain ⟨rest, hrest⟩ := (drop_of_find hfind).1
    rw [← Nat.add_zero i, ← List.getElem?_drop, ← hrest]
    cases word with
    | nil => cases hhead
    | cons c tail => simpa using hhead
  have hnext := (hleft.symm.trans (congrArg (fun rest => rest[i]?) hrest)).trans (hright.trans hg)
  exact not_g_of_not_isWord hfind hi hnext

/-- In a text without comments, hoisting the letters is hoisting the word exactly where they are it,
or stand in front already with no word to hoist. -/
theorem moveToFront_eq_hoistWord_iff {line word : List Char} {pos : Nat}
    (h : modePlace line = some (word, pos)) :
    moveToFront word line pos = hoistWord line ↔
      isWord word (line.drop pos) = true ∨ (pos = 0 ∧ wordPlace line = none) := by
  obtain ⟨hfind, hlength, hhead, -⟩ := modePlace_find h
  obtain ⟨hleads, hfit⟩ := drop_of_find hfind
  rw [hoistWord]
  cases hword : isWord word (line.drop pos) with
  | true =>
    rw [wordPlace_of_isWord h hword]
    simp
  | false =>
    rw [or_iff_right Bool.false_ne_true]
    cases hplace : wordPlace line with
    | none =>
      simp only [and_true]
      constructor
      · intro heq
        have hfront : word <+: line.drop 0 := by
          rw [List.drop_zero]
          exact ⟨_, heq⟩
        have hle := (firstWhere_eq_some.mp hfind).2.2
        by_contra hpos
        have := hle 0 (Nat.pos_of_ne_zero hpos)
        rw [List.isPrefixOf_iff_prefix.mpr hfront] at this
        cases this
      · rintro rfl
        obtain ⟨rest, hrest⟩ := hleads
        rw [List.drop_zero] at hrest
        rw [moveToFront, ← hrest, List.take_zero, List.nil_append, Nat.zero_add, ← hlength,
          List.drop_left]
    | some place =>
      obtain ⟨word', pos'⟩ := place
      refine iff_of_false (fun heq => ?_) nofun
      obtain ⟨hmode, hfirst⟩ := wordPlace_eq hplace
      have hsame : word = word' := by
        have hlength' : word'.length = 3 := by
          obtain rfl | rfl := hmode
          · rfl
          · rfl
        exact (List.append_inj heq (hlength.trans hlength'.symm)).1
      subst hsame
      exact moveToFront_ne hfind hlength hhead hword hfirst heq

/-! ## The commands of a line -/

section

variable (turn : Nat → Turn) (d : Dispatcher)

/-- The line is cut as without its comment, into its words in their order, but for a distance mode
that goes in front. -/
def CutAsWords (line : List Char) : Prop :=
  (singleCommands turn d line).commands = (singleCommands turn d (removeComment line)).commands ∧
    (singleCommands turn d line).commands.flatten = hoistWord (removeComment line)

/-- The same, but for the text that is left behind a command that ends the line. -/
def CutUpToEnd (line : List Char) : Prop :=
  singleCommands turn d line = singleCommands turn d (removeComment line) ∧
    (singleCommands turn d line).commands.flatten ++ (singleCommands turn d line).left
      = hoistWord (removeComment line)

end

/-- The first letters of a distance mode, if any, come before the comment, and are the whole word,
or stand in front already with no word to hoist. -/
def ModeIsWord (line : List Char) : Prop :=
  ∀ word pos, modePlace line = some (word, pos) →
    pos < (removeComment line).length ∧
      (isWord word ((removeComment line).drop pos) = true ∨
        (pos = 0 ∧ wordPlace (removeComment line) = none))

section

variable {turn : Nat → Turn} {d : Dispatcher}

theorem cutUpToEnd_iff_prepareLine (line : List Char) :
    CutUpToEnd turn d line ↔ prepareLine line = prepareLine (removeComment line) ∧
      prepareLine line = hoistWord (removeComment line) := by
  rw [CutUpToEnd, singleCommands_eq_iff, flatten_singleCommands]

/-- With no distance mode on it, a line keeps its words as they are. -/
theorem cutUpToEnd_of_none {line : List Char} (h : modePlace line = none) :
    CutUpToEnd turn d line := by
  have hbody := modePlace_none h
  have hword : wordPlace (removeComment line) = none := by
    have h90 : find g90 (removeComment line) = none := by
      by_contra hsome
      obtain ⟨i, hi⟩ := Option.ne_none_iff_exists'.mp hsome
      simp [modePlace, hi] at hbody
    have h91 : find g91 (removeComment line) = none := by simpa [modePlace, h90] using hbody
    rw [wordPlace, firstWhere_none_mono isPrefixOf_of_isWord h90,
      firstWhere_none_mono isPrefixOf_of_isWord h91]
    rfl
  rw [cutUpToEnd_iff_prepareLine]
  simp only [prepareLine, hoistMode, hoistWord, h, hbody, hword, removeComment_idem, and_self]

/-- A distance mode that stands in the comment gets onto the line. -/
theorem not_cutUpToEnd_of_comment {line word : List Char} {pos : Nat}
    (h : modePlace line = some (word, pos)) (hpos : (removeComment line).length < pos) :
    ¬ CutUpToEnd turn d line := by
  obtain ⟨hfind, hlength, -, hword⟩ := modePlace_find h
  rw [cutUpToEnd_iff_prepareLine]
  rintro ⟨hsame, -⟩
  have hline : (prepareLine line).length = (removeComment line).length + 3 := by
    have hfit := (drop_of_find hfind).2
    rw [prepareLine, hoistMode, h]
    simp only
    rw [removeComment_moveToFront_comment hword hpos (by omega), List.length_append, hlength,
      Nat.add_comm]
  have hbody : (prepareLine (removeComment line)).length = (removeComment line).length := by
    rw [prepareLine, hoistMode]
    cases hplace : modePlace (removeComment line) with
    | none => simp only [removeComment_idem]
    | some place =>
      obtain ⟨word', pos'⟩ := place
      obtain ⟨hfind', hlength', -, hword'⟩ := modePlace_find hplace
      have hfit' := (drop_of_find hfind').2
      rw [hlength'] at hfit'
      simp only
      rw [removeComment_moveToFront hword' (by rwa [removeComment_idem]), removeComment_idem,
        length_moveToFront hlength' hfit']
  rw [← hsame, hline] at hbody
  omega

/-- A line is cut into the words of its comment-free part, with the distance mode in front, exactly
where the letters that are hoisted are that word. -/
theorem cutUpToEnd_iff {line : List Char} : CutUpToEnd turn d line ↔ ModeIsWord line := by
  cases h : modePlace line with
  | none =>
    exact iff_of_true (cutUpToEnd_of_none h) fun _ _ hsome => absurd (h.symm.trans hsome) nofun
  | some place =>
    obtain ⟨word, pos⟩ := place
    obtain ⟨hfind, hlength, hhead, hword⟩ := modePlace_find h
    have hcond : ModeIsWord line ↔ pos < (removeComment line).length ∧
        (isWord word ((removeComment line).drop pos) = true ∨
          (pos = 0 ∧ wordPlace (removeComment line) = none)) := by
      refine ⟨fun hmode => hmode word pos h, fun hmode word' pos' h' => ?_⟩
      obtain ⟨rfl, rfl⟩ := Prod.mk.inj (Option.some.inj (h.symm.trans h'))
      exact hmode
    rw [hcond]
    -- The letters stand in the comment, and get onto the line, or in front of it.
    obtain hlt | hle := Nat.lt_or_ge (removeComment line).length pos
    · exact iff_of_false (not_cutUpToEnd_of_comment h hlt) fun hmode => absurd hmode.1 hlt.not_gt
    · have hplace := modePlace_removeComment h hle
      obtain ⟨-, hfit⟩ := drop_of_find (modePlace_find hplace).1
      rw [hlength] at hfit
      have hline : prepareLine line = moveToFront word (removeComment line) pos := by
        rw [prepareLine, hoistMode, h]
        exact removeComment_moveToFront hword hfit
      have hbody :
          prepareLine (removeComment line) = moveToFront word (removeComment line) pos := by
        rw [prepareLine, hoistMode, hplace]
        simp only
        rw [removeComment_moveToFront hword (by rwa [removeComment_idem]), removeComment_idem]
      rw [cutUpToEnd_iff_prepareLine, hline, hbody, and_iff_right rfl,
        and_iff_right (show pos < (removeComment line).length by omega)]
      exact moveToFront_eq_hoistWord_iff hplace

end

/-- A line whose distance mode is hoisted as a word is cut as without its comment, into the words of its
comment-free part with the mode in front, up to a command that ends the line. -/
theorem cut_as_words (turn : Nat → Turn) (d : Dispatcher) {line : List Char} (h : ModeIsWord line) :
    singleCommands turn d line = singleCommands turn d (removeComment line) ∧
      (singleCommands turn d line).commands.flatten ++ (singleCommands turn d line).left
        = hoistWord (removeComment line) ∧
      ((singleCommands turn d line).left ≠ [] →
        ∃ before command, (singleCommands turn d line).commands = before ++ [command] ∧
          EndsLine (turn before.length).halted command (singleCommands turn d line).left) := by
  have hcut : CutUpToEnd turn d line := cutUpToEnd_iff.mpr h
  exact ⟨hcut.1, hcut.2, endsLine_of_left le_rfl nofun⟩

/-- A move, a distance mode, a spindle start, a text for the panel and a comment. -/
def movesAndText : List Char := "G1 X2 G90 M3 M117 Hello Gus (slow)".toList

theorem modeIsWord_movesAndText : ModeIsWord movesAndText := by
  have hplace : modePlace movesAndText = some (g90, 6) := by decide +kernel
  intro word pos h
  obtain ⟨rfl, rfl⟩ := Prod.mk.inj (Option.some.inj (hplace.symm.trans h))
  exact ⟨by decide +kernel, .inl (by decide +kernel)⟩

theorem cut_as_words_text :
    (singleCommands (fun _ => {}) {} movesAndText).commands
        = ["G90".toList, "G1 X2  ".toList, "M3 ".toList, "M117 Hello ".toList] ∧
      (singleCommands (fun _ => {}) {} movesAndText).commands.flatten ++ "Gus ".toList
        = hoistWord (removeComment movesAndText) ∧
      ∃ before command,
        (singleCommands (fun _ => {}) {} movesAndText).commands = before ++ [command] ∧
          EndsLine false command "Gus ".toList := by
  have hleft : (singleCommands (fun _ => {}) {} movesAndText).left = "Gus ".toList := by
    decide +kernel
  obtain ⟨-, hwords, hends⟩ := cut_as_words (fun _ => {}) {} modeIsWord_movesAndText
  rw [hleft] at hwords hends
  exact ⟨by decide +kernel, hwords, hends (by decide)⟩

/-- The text behind `M118` is printed and not cut. -/
theorem printed_text_not_cut :
    (singleCommands (fun _ => {}) {} "G1 X1 M118 Go home".toList).commands
        = ["G1 X1 ".toList, "M118 ".toList] ∧
      ¬ CutAsWords (fun _ => {}) {} "G1 X1 M118 Go home".toList := by
  refine ⟨by decide +kernel, fun h => ?_⟩
  exact absurd h.2 (by decide +kernel)

/-- The mode named in a comment is carried out. -/
theorem commented_mode_cut :
    (singleCommands (fun _ => {}) {} "G1 X5 (was G91)".toList).commands
        = ["G91".toList, "G1 X5 ".toList] ∧
      ¬ CutUpToEnd (fun _ => {}) {} "G1 X5 (was G91)".toList := by
  refine ⟨by decide +kernel, fun h => ?_⟩
  exact absurd h.2 (by decide +kernel)

end CarveraFirmware.Gcode
