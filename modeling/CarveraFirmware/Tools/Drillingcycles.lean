import Mathlib
import CarveraFirmware.Library.CheckedInt
import CarveraFirmware.Library.Reached

/-!
# Drilling cycles

`Drillingcycles::on_gcode_received` for G80 to G83 and G98, G99, over exact arithmetic: the G-code
lines it sends are moves with the numbers before they are printed. The lines it sends come back to
it, and are none of its own codes.
-/

namespace CarveraFirmware.Tools

/-- A line as the cycles read it. -/
structure CycleLine where
  code : ℕ
  x : Option ℚ := none
  y : Option ℚ := none
  z : Option ℚ := none
  r : Option ℚ := none
  f : Option ℚ := none
  q : Option ℚ := none
  p : Option ℚ := none
  /-- The position of Z in work coordinates once the queue is empty. -/
  workZ : ℚ := 0
  absoluteMode : Bool := true
  grblMode : Bool := false
  deriving DecidableEq

inductive RetractType where
  | toZ | toR
  deriving DecidableEq

inductive DwellUnits where
  | seconds | millis
  deriving DecidableEq

structure Drillingcycles where
  cycleStarted : Bool := false
  retractType : RetractType := .toZ
  initialZ : ℚ := 0
  rPlane : ℚ := 0
  stickyZ : ℚ := 0
  stickyR : ℚ := 0
  stickyF : ℚ := 0
  stickyQ : ℚ := 0
  stickyP : ℚ := 0
  dwellUnits : DwellUnits := .seconds
  deriving DecidableEq

/-- A line that is sent. -/
inductive CycleMove where
  | rapidXY (x y : Option ℚ)
  | rapidZ (z : ℚ)
  | feed (f z : ℚ)
  | dwellS (seconds : ℚ)
  | dwellP (value : ℚ)
  deriving DecidableEq

/-- `fmodf`. -/
def fmodf (x y : ℚ) : ℚ := x - y * truncate (x / y)

def resetSticky (s : Drillingcycles) : Drillingcycles :=
  { s with stickyZ := 0, stickyR := 0, stickyF := 0, stickyQ := 0, stickyP := 0 }

def updateSticky (s : Drillingcycles) (line : CycleLine) : Drillingcycles :=
  let s := { s with
    stickyZ := line.z.getD s.stickyZ
    stickyR := line.r.getD s.stickyR
    stickyF := line.f.getD s.stickyF
    stickyQ := line.q.getD s.stickyQ
    stickyP := line.p.getD s.stickyP }
  { s with rPlane := if s.retractType = .toZ then s.initialZ else s.stickyR }

/-- The loop of `peck_hole`, from its turn `i` on. The source counts in an `int`, which this follows up to
`2 ^ 31 - 1` turns; beyond them the behaviour of the source is undefined. -/
def peckFrom (s : Drillingcycles) (cycles : ℚ) (i : ℕ) (zPos : ℚ) : List CycleMove :=
  if (i : ℚ) < cycles then
    .feed s.stickyF (zPos - s.stickyQ) :: .rapidZ s.stickyR ::
      peckFrom s cycles (i + 1) (zPos - s.stickyQ)
  else []
termination_by ⌈cycles⌉₊ - i
decreasing_by
  have hlt : i < ⌈cycles⌉₊ := Nat.lt_ceil.2 ‹_›
  omega

def peckHole (s : Drillingcycles) : List CycleMove :=
  let depth := s.stickyR - s.stickyZ
  let cycles := depth / s.stickyQ
  let rest := fmodf depth s.stickyQ
  peckFrom s cycles 1 s.stickyR ++ if 0 < rest then [.feed s.stickyF s.stickyZ] else []

def dwell (s : Drillingcycles) (line : CycleLine) : List CycleMove :=
  if 0 < s.stickyP then
    match s.dwellUnits with
    | .seconds => [.dwellS s.stickyP]
    | .millis => [.dwellP (if line.grblMode then s.stickyP * 1000 else s.stickyP)]
  else []

def makeHole (s : Drillingcycles) (line : CycleLine) : List CycleMove :=
  [.rapidXY line.x line.y, .rapidZ s.stickyR] ++
    (if 0 < s.stickyQ then peckHole s else [.feed s.stickyF s.stickyZ]) ++
    dwell s line ++ [.rapidZ s.rPlane]

/-- `Drillingcycles::on_gcode_received`. -/
def onGcode (s : Drillingcycles) (line : CycleLine) : Drillingcycles × List CycleMove :=
  if line.code = 98 ∨ line.code = 99 then
    ({ resetSticky s with
        initialZ := line.workZ
        retractType := if line.code = 98 then .toZ else .toR
        cycleStarted := true }, [])
  else if line.code = 80 then
    ({ s with cycleStarted := false },
      if s.retractType = .toR then [.rapidZ s.initialZ] else [])
  else if s.cycleStarted ∧ line.absoluteMode ∧
      (line.code = 81 ∨ line.code = 82 ∨ line.code = 83) then
    (updateSticky s line, makeHole (updateSticky s line) line)
  else (s, [])

/-- What has been programmed since a cycle was started, the newest line first. -/
structure Programmed where
  start : CycleLine
  holes : List CycleLine

/-- A hole as it is programmed. -/
structure Hole where
  x : Option ℚ
  y : Option ℚ
  z : ℚ
  r : ℚ
  q : ℚ
  retract : ℚ

/-- The value of a word that the last line with it gave. -/
def stickyWord (word : CycleLine → Option ℚ) (lines : List CycleLine) : ℚ :=
  (lines.findSome? word).getD 0

/-- The hole of a line, with the words of the lines before it. -/
def Programmed.hole (program : Programmed) (line : CycleLine) : Hole where
  x := line.x
  y := line.y
  z := stickyWord CycleLine.z (line :: program.holes)
  r := stickyWord CycleLine.r (line :: program.holes)
  q := stickyWord CycleLine.q (line :: program.holes)
  retract :=
    if program.start.code = 98 then program.start.workZ
    else stickyWord CycleLine.r (line :: program.holes)

def isHole (line : CycleLine) : Bool :=
  line.absoluteMode && (line.code = 81 || line.code = 82 || line.code = 83)

/-- What a line adds to the program. -/
def programLine (program : Option Programmed) (line : CycleLine) : Option Programmed :=
  if line.code = 98 ∨ line.code = 99 then some ⟨line, []⟩
  else if line.code = 80 then none
  else if isHole line then
    program.map fun program => { program with holes := line :: program.holes }
  else program

/-- Feed moves to these depths, with a retract between them. -/
def pecks (f r : ℚ) : List ℚ → List CycleMove
  | [] => []
  | [depth] => [.feed f depth]
  | depth :: depth' :: depths => .feed f depth :: .rapidZ r :: pecks f r (depth' :: depths)

/-- The depths fall from `r` by at most `q` each time, and end at `z`. -/
structure Reaches (hole : Hole) (depths : List ℚ) : Prop where
  last : depths.getLast? = some hole.z
  falling : (hole.r :: depths).IsChain fun a b => b < a ∧ (0 < hole.q → a - b ≤ hole.q)

def IsDwell : CycleMove → Prop
  | .dwellS _ => True
  | .dwellP _ => True
  | _ => False

/-- The moves for a hole. -/
def Drilled (hole : Hole) (moves : List CycleMove) : Prop :=
  ∃ f depths pause, Reaches hole depths ∧ pause.length ≤ 1 ∧ (∀ m ∈ pause, IsDwell m) ∧
    moves = [.rapidXY hole.x hole.y, .rapidZ hole.r] ++ pecks f hole.r depths ++ pause ++
      [.rapidZ hole.retract]

/-- The depth is a whole number of pecks. -/
def WholePecks (hole : Hole) : Prop := 0 < hole.q ∧ ∃ n : ℕ, hole.r - hole.z = n * hole.q

/-- The depths of the first `n` pecks from `z` on. -/
def depthsFrom (z q : ℚ) : ℕ → List ℚ
  | 0 => []
  | n + 1 => (z - q) :: depthsFrom (z - q) q n

def peck (f r depth : ℚ) : List CycleMove := [.feed f depth, .rapidZ r]

section pecks

variable {z q f r : ℚ}

theorem le_of_mem_depthsFrom (hq : 0 ≤ q) {n : ℕ} {depth : ℚ} (h : depth ∈ depthsFrom z q n) :
    z - n * q ≤ depth := by
  induction n generalizing z with
  | zero => simp [depthsFrom] at h
  | succ n ih =>
    push_cast
    rw [depthsFrom, List.mem_cons] at h
    obtain rfl | h := h
    · have hn : (0 : ℚ) ≤ n * q := by positivity
      linarith
    · have hrest := ih h
      linarith

theorem isChain_depthsFrom (hq : 0 < q) {n : ℕ} {last : ℚ} (hlt : last < z - n * q)
    (hle : z - n * q - last ≤ q) :
    (z :: (depthsFrom z q n ++ [last])).IsChain fun a b => b < a ∧ (0 < q → a - b ≤ q) := by
  induction n generalizing z with
  | zero =>
    simp only [Nat.cast_zero, zero_mul, sub_zero] at hlt hle
    exact .cons_cons ⟨hlt, fun _ => hle⟩ (.singleton _)
  | succ n ih =>
    push_cast at hlt hle
    exact .cons_cons ⟨by linarith, fun _ => by linarith⟩ (ih (by linarith) (by linarith))

theorem pecks_concat {depths : List ℚ} {last : ℚ} :
    pecks f r (depths ++ [last]) = depths.flatMap (peck f r) ++ [.feed f last] := by
  induction depths with
  | nil => rfl
  | cons depth depths ih =>
    have hne : depths ++ [last] ≠ [] := by simp
    obtain ⟨depth', rest, hrest⟩ := List.exists_cons_of_ne_nil hne
    rw [List.cons_append, hrest, pecks, ← hrest, ih]
    rfl

theorem peckFrom_eq (s : Drillingcycles) (cycles : ℚ) (i : ℕ) (zPos : ℚ) :
    peckFrom s cycles i zPos =
      (depthsFrom zPos s.stickyQ (⌈cycles⌉₊ - i)).flatMap (peck s.stickyF s.stickyR) := by
  induction hn : ⌈cycles⌉₊ - i generalizing i zPos with
  | zero =>
    have hnot : ¬ (i : ℚ) < cycles := fun h => by
      have hlt := Nat.lt_ceil.2 h
      omega
    rw [peckFrom, if_neg hnot]
    rfl
  | succ n ih =>
    have hlt : (i : ℚ) < cycles := Nat.lt_ceil.1 (by omega)
    rw [peckFrom, if_pos hlt, ih (i + 1) _ (by omega)]
    rfl

/-- The depths of the feed moves. -/
def feedDepths (moves : List CycleMove) : List ℚ :=
  moves.filterMap fun
    | .feed _ z => some z
    | _ => none

@[simp] theorem feedDepths_append {moves moves' : List CycleMove} :
    feedDepths (moves ++ moves') = feedDepths moves ++ feedDepths moves' :=
  List.filterMap_append

theorem feedDepths_flatMap {depths : List ℚ} : feedDepths (depths.flatMap (peck f r)) = depths := by
  induction depths with
  | nil => rfl
  | cons depth depths ih => rw [List.flatMap_cons, feedDepths_append, ih]; rfl

theorem feedDepths_pecks {depths : List ℚ} : feedDepths (pecks f r depths) = depths := by
  induction depths using List.reverseRecOn with
  | nil => rfl
  | append_singleton depths last _ =>
    rw [pecks_concat, feedDepths_append, feedDepths_flatMap]
    rfl

theorem feedDepths_pause {pause : List CycleMove} (h : ∀ m ∈ pause, IsDwell m) :
    feedDepths pause = [] := by
  rw [feedDepths, List.filterMap_eq_nil_iff]
  intro m hm
  have hdwell := h m hm
  cases m <;> first | rfl | exact hdwell.elim

end pecks

section hole

variable {s : Drillingcycles} {line : CycleLine} {hole : Hole}

theorem dwell_spec : (dwell s line).length ≤ 1 ∧ ∀ m ∈ dwell s line, IsDwell m := by
  rw [dwell]
  split
  · split <;> simp [IsDwell]
  · simp

/-- A state with the words of a hole. -/
structure HoldsHole (s : Drillingcycles) (hole : Hole) : Prop where
  z : s.stickyZ = hole.z
  r : s.stickyR = hole.r
  q : s.stickyQ = hole.q
  retract : s.rPlane = hole.retract

theorem fmodf_pos_iff {x y : ℚ} (hx : 0 < x) (hy : 0 < y) :
    0 < fmodf x y ↔ ¬ ∃ n : ℕ, x = n * y := by
  have hdiv : 0 < x / y := div_pos hx hy
  have hfloor : (⌊x / y⌋ : ℚ) * y ≤ x := (le_div_iff₀ hy).1 (Int.floor_le _)
  rw [fmodf, truncate_of_nonneg hdiv.le, mul_comm]
  constructor
  · rintro hpos ⟨n, rfl⟩
    rw [mul_div_cancel_right₀ _ hy.ne', Int.floor_natCast] at hpos
    simp at hpos
  · intro hnot
    refine sub_pos.2 (lt_of_le_of_ne hfloor fun heq => hnot ⟨⌊x / y⌋.toNat, ?_⟩)
    have hnonneg : 0 ≤ ⌊x / y⌋ := Int.floor_nonneg.2 hdiv.le
    have hcast : ((⌊x / y⌋.toNat : ℕ) : ℚ) = (⌊x / y⌋ : ℚ) := by
      exact_mod_cast Int.toNat_of_nonneg hnonneg
    rw [hcast, heq]

/-- How many pecks come before the last one, and how far they lead. -/
theorem pecks_before {depth q : ℚ} (hdepth : 0 < depth) (hq : 0 < q) :
    (⌈depth / q⌉₊ - 1 : ℕ) * q < depth ∧ depth - (⌈depth / q⌉₊ - 1 : ℕ) * q ≤ q := by
  have hpos : 0 < ⌈depth / q⌉₊ := Nat.ceil_pos.2 (div_pos hdepth hq)
  have hlt : ((⌈depth / q⌉₊ - 1 : ℕ) : ℚ) < depth / q := Nat.lt_ceil.1 (by omega)
  have hle : depth / q ≤ (⌈depth / q⌉₊ : ℚ) := Nat.le_ceil _
  refine ⟨(lt_div_iff₀ hq).1 hlt, ?_⟩
  rw [div_le_iff₀ hq] at hle
  rw [Nat.cast_pred hpos]
  linarith

theorem peckHole_eq (h : HoldsHole s hole) :
    peckHole s =
      (depthsFrom hole.r hole.q (⌈(hole.r - hole.z) / hole.q⌉₊ - 1)).flatMap
          (peck s.stickyF hole.r) ++
        if 0 < fmodf (hole.r - hole.z) hole.q then [.feed s.stickyF hole.z] else [] := by
  simp only [peckHole, peckFrom_eq, h.z, h.r, h.q]

theorem makeHole_drilled (h : HoldsHole s hole) (hx : hole.x = line.x) (hy : hole.y = line.y)
    {depths : List ℚ} (hreaches : Reaches hole depths)
    (hpecks : (if 0 < s.stickyQ then peckHole s else [.feed s.stickyF s.stickyZ]) =
      pecks s.stickyF hole.r depths) : Drilled hole (makeHole s line) :=
  ⟨s.stickyF, depths, dwell s line, hreaches, dwell_spec.1, dwell_spec.2, by
    rw [makeHole, hpecks, h.r, h.retract, hx, hy]⟩

/-- With a whole number of pecks no feed move goes to the depth. -/
theorem not_drilled_of_whole (h : HoldsHole s hole) (habove : hole.z < hole.r)
    (hwhole : WholePecks hole) : ¬ Drilled hole (makeHole s line) := by
  rintro ⟨f, depths, pause, hreaches, -, hpause, hmoves⟩
  obtain ⟨hq, hmultiple⟩ := hwhole
  have hdepths := congrArg feedDepths hmoves
  have hrest : ¬ 0 < fmodf (hole.r - hole.z) hole.q := fun hpos =>
    (fmodf_pos_iff (sub_pos.2 habove) hq).1 hpos hmultiple
  rw [makeHole, if_pos (h.q ▸ hq), peckHole_eq h, if_neg hrest] at hdepths
  simp only [feedDepths_append, feedDepths_flatMap, feedDepths_pecks, feedDepths_pause hpause,
    feedDepths_pause dwell_spec.2, List.append_nil] at hdepths
  have hlast : hole.z ∈ depths := List.mem_of_getLast? hreaches.last
  have hmem : hole.z ∈ depthsFrom hole.r hole.q (⌈(hole.r - hole.z) / hole.q⌉₊ - 1) := by
    simp [feedDepths] at hdepths
    rw [hdepths]
    exact hlast
  have hle := le_of_mem_depthsFrom hq.le hmem
  have hbefore := (pecks_before (sub_pos.2 habove) hq).1
  linarith

theorem drilled_iff (h : HoldsHole s hole) (hx : hole.x = line.x) (hy : hole.y = line.y)
    (habove : hole.z < hole.r) (hq : 0 ≤ hole.q) :
    Drilled hole (makeHole s line) ↔ ¬ WholePecks hole := by
  refine ⟨fun hdrilled hwhole => not_drilled_of_whole h habove hwhole hdrilled, fun hnot => ?_⟩
  obtain hzero | hpos := hq.eq_or_lt
  · -- without pecks one feed move goes all the way
    refine @makeHole_drilled s line hole h hx hy [hole.z] ⟨rfl, ?_⟩ ?_
    · exact .cons_cons ⟨habove, fun hq => absurd hq (by rw [← hzero]; exact lt_irrefl _)⟩
        (.singleton _)
    · rw [if_neg (by rw [h.q, ← hzero]; exact lt_irrefl _), h.z]
      rfl
  · have hrest : 0 < fmodf (hole.r - hole.z) hole.q :=
      (fmodf_pos_iff (sub_pos.2 habove) hpos).2 fun hn => hnot ⟨hpos, hn⟩
    obtain ⟨hlt, hle⟩ := pecks_before (sub_pos.2 habove) hpos
    refine makeHole_drilled h hx hy
      ⟨List.getLast?_concat, isChain_depthsFrom hpos (by linarith) (by linarith)⟩ ?_
    rw [if_pos (h.q ▸ hpos), peckHole_eq h, if_pos hrest, pecks_concat]

end hole

section runs

variable {s : Drillingcycles} {program : Option Programmed} {line : CycleLine}

/-- The words that are kept are those of the program. -/
structure HoldsProgram (s : Drillingcycles) (program : Programmed) : Prop where
  started : s.cycleStarted = true
  initialZ : s.initialZ = program.start.workZ
  retractType : s.retractType = if program.start.code = 98 then .toZ else .toR
  z : s.stickyZ = stickyWord CycleLine.z program.holes
  r : s.stickyR = stickyWord CycleLine.r program.holes
  q : s.stickyQ = stickyWord CycleLine.q program.holes

/-- Between cycles the code is not in one either. -/
def Follows (s : Drillingcycles) : Option Programmed → Prop
  | none => s.cycleStarted = false
  | some program => HoldsProgram s program

theorem stickyWord_cons {word : CycleLine → Option ℚ} {lines : List CycleLine} :
    stickyWord word (line :: lines) = (word line).getD (stickyWord word lines) := by
  rw [stickyWord, List.findSome?_cons]
  cases word line <;> rfl

theorem holdsHole_updateSticky {program : Programmed} (h : HoldsProgram s program) :
    HoldsHole (updateSticky s line) (program.hole line) := by
  refine ⟨?_, ?_, ?_, ?_⟩
  · simp only [updateSticky, Programmed.hole, stickyWord_cons, h.z]
  · simp only [updateSticky, Programmed.hole, stickyWord_cons, h.r]
  · simp only [updateSticky, Programmed.hole, stickyWord_cons, h.q]
  · simp only [updateSticky, Programmed.hole, stickyWord_cons, h.r, h.retractType, h.initialZ]
    by_cases hcode : program.start.code = 98 <;> simp [hcode]

theorem holdsProgram_updateSticky {program : Programmed} (h : HoldsProgram s program) :
    HoldsProgram (updateSticky s line) { program with holes := line :: program.holes } := by
  have hhole : HoldsHole (updateSticky s line) (program.hole line) := holdsHole_updateSticky h
  exact ⟨h.started, h.initialZ, h.retractType, hhole.z, hhole.r, hhole.q⟩

theorem isHole_iff :
    isHole line = true ↔
      line.absoluteMode = true ∧ (line.code = 81 ∨ line.code = 82 ∨ line.code = 83) := by
  simp [isHole, or_assoc]

/-- The moves of a line that is a hole in a cycle. -/
theorem onGcode_hole {program : Programmed} (h : HoldsProgram s program) (hhole : isHole line) :
    onGcode s line = (updateSticky s line, makeHole (updateSticky s line) line) := by
  obtain ⟨habsolute, hcode⟩ := isHole_iff.1 hhole
  rw [onGcode, if_neg (by omega), if_neg (by omega), if_pos ⟨h.started, habsolute, hcode⟩]

theorem follows_step (h : Follows s program) :
    Follows (onGcode s line).1 (programLine program line) := by
  rw [programLine]
  split
  · rename_i hstart
    rw [onGcode, if_pos hstart]
    exact ⟨rfl, rfl, rfl, rfl, rfl, rfl⟩
  · rename_i hstart
    split
    · rename_i hend
      rw [onGcode, if_neg hstart, if_pos hend]
      rfl
    · rename_i hend
      split
      · rename_i hhole
        cases program with
        | none =>
          have hnot : s.cycleStarted = false := h
          rw [onGcode, if_neg hstart, if_neg hend, if_neg (by simp [hnot])]
          exact h
        | some program =>
          rw [onGcode_hole h hhole]
          exact holdsProgram_updateSticky h
      · rename_i hhole
        have hother : ¬ (s.cycleStarted ∧ line.absoluteMode ∧
            (line.code = 81 ∨ line.code = 82 ∨ line.code = 83)) :=
          fun hall => hhole (isHole_iff.2 hall.2)
        rw [onGcode, if_neg hstart, if_neg hend, if_neg hother]
        exact h

/-- A line, for the code and for what is programmed. -/
def cycleStep (s : Drillingcycles × Option Programmed) (line : CycleLine) :
    Drillingcycles × Option Programmed :=
  ((onGcode s.1 line).1, programLine s.2 line)

/-- Where a line is a hole in a cycle, it and the moves emitted for it meet `P`. -/
def AtHole (P : Hole → List CycleMove → Prop) (s : Drillingcycles × Option Programmed)
    (line : CycleLine) : Prop :=
  ∀ program, s.2 = some program → isHole line → P (program.hole line) (onGcode s.1 line).2

theorem atHole_drilled_iff (h : Follows s program)
    (hdomain : AtHole (fun hole _ => hole.z < hole.r ∧ 0 ≤ hole.q) (s, program) line) :
    AtHole Drilled (s, program) line ↔
      AtHole (fun hole _ => ¬ WholePecks hole) (s, program) line := by
  refine forall_congr' fun program' => forall_congr' fun hprogram => forall_congr' fun hhole => ?_
  obtain rfl : program = some program' := hprogram
  obtain ⟨habove, hq⟩ := hdomain program' rfl hhole
  have hholds : HoldsHole (updateSticky s line) (program'.hole line) := holdsHole_updateSticky h
  change Drilled _ (onGcode s line).2 ↔ _
  rw [onGcode_hole h hhole]
  exact drilled_iff hholds rfl rfl habove hq

/-- In a run whose holes have R above Z, all holes are drilled as they should exactly if none is a
whole number of pecks deep. -/
theorem drilling_reaches_iff {lines : List CycleLine} {units : DwellUnits}
    (hdomain : AllOk cycleStep (AtHole fun hole _ => hole.z < hole.r ∧ 0 ≤ hole.q)
      ({ dwellUnits := units }, none) lines) :
    AllOk cycleStep (AtHole Drilled) ({ dwellUnits := units }, none) lines ↔
      AllOk cycleStep (AtHole fun hole _ => ¬ WholePecks hole) ({ dwellUnits := units }, none)
        lines := by
  have hstart : Follows { dwellUnits := units } none := rfl
  revert hstart hdomain
  generalize ({ dwellUnits := units } : Drillingcycles) = s
  generalize (none : Option Programmed) = program
  intro hdomain hfollows
  induction lines generalizing s program with
  | nil => exact Iff.rfl
  | cons line lines ih =>
    exact and_congr (atHole_drilled_iff hfollows hdomain.1)
      (ih _ _ hdomain.2 (follows_step hfollows))

end runs

/-- G98 at a height of 10. -/
def startAtTen : CycleLine := { code := 98, workZ := 10 }

/-- G83 from 3 to 0. -/
def peckThree (q : ℚ) : CycleLine := { code := 83, z := some 0, r := some 3, q := some q }

theorem drilling_reaches_iff_peckTwo :
    AllOk cycleStep (AtHole Drilled) ({ dwellUnits := .seconds }, none) [startAtTen, peckThree 2] ↔
      AllOk cycleStep (AtHole fun hole _ => ¬ WholePecks hole) ({ dwellUnits := .seconds }, none)
        [startAtTen, peckThree 2] := by
  have hstart : AtHole (fun hole _ => hole.z < hole.r ∧ 0 ≤ hole.q) ({}, none) startAtTen := by
    intro program h
    cases h
  refine @drilling_reaches_iff [startAtTen, peckThree 2] .seconds
    ⟨hstart, fun program h _ => ?_, trivial⟩
  obtain rfl := Option.some.inj h
  decide +kernel

/-- Three pecks of one make a depth of three, and the hole ends at 1. -/
theorem whole_pecks_not_drilled :
    ¬ AllOk cycleStep (AtHole Drilled) ({}, none) [startAtTen, peckThree 1] := by
  rintro ⟨-, hhole, -⟩
  have hfollows : HoldsProgram (onGcode {} startAtTen).1 ⟨startAtTen, []⟩ :=
    ⟨rfl, rfl, rfl, rfl, rfl, rfl⟩
  have hdrilled := hhole ⟨startAtTen, []⟩ rfl rfl
  change Drilled _ (onGcode (onGcode {} startAtTen).1 (peckThree 1)).2 at hdrilled
  rw [onGcode_hole hfollows rfl] at hdrilled
  refine not_drilled_of_whole (holdsHole_updateSticky hfollows) ?_ ?_ hdrilled
  · decide +kernel
  · exact ⟨by decide +kernel, 3, by decide +kernel⟩

end CarveraFirmware.Tools
