import Mathlib
import CarveraFirmware.Library.Advance

/-!
# Bed cleaning

`BedCleaning::start`, `clean` and `finish` over exact arithmetic. What comes from outside is whether an
abort or a halt comes while the machine waits for a move. The coordinates are taken before they are
printed into a command.
-/

namespace CarveraFirmware.Tools

open Advance

structure BedCleaningConfig where
  supported : Bool := false
  xMin : ℚ := -359
  xMax : ℚ := -5
  yMin : ℚ := -234
  yMax : ℚ := -1
  parkY : ℚ := -21
  frontX : ℚ := -2
  spacing : ℚ := 40
  cycles : ℚ := 1

/-- `M486.1`, with what the machine is doing. -/
structure CleanRequest where
  n : Option ℚ := none
  t : Option ℚ := none
  playerBusy : Bool := false
  homed : Bool := true
  laserMode : Bool := false

namespace BedCleaningConfig

variable (cfg : BedCleaningConfig) (r : CleanRequest)

def requestedCycles : ℚ := r.n.getD cfg.cycles

def requestedSpacing : ℚ := r.t.getD cfg.spacing

def ValidCycles : Prop :=
  1 ≤ cfg.requestedCycles r ∧ cfg.requestedCycles r ≤ 10 ∧
    (⌊cfg.requestedCycles r⌋ : ℚ) = cfg.requestedCycles r

def ValidArea : Prop := cfg.xMin < cfg.xMax ∧ cfg.yMin < cfg.yMax ∧ cfg.xMax ≤ cfg.frontX

instance : Decidable (cfg.ValidCycles r) := inferInstanceAs (Decidable (_ ∧ _ ∧ _))

instance : Decidable cfg.ValidArea := inferInstanceAs (Decidable (_ ∧ _ ∧ _))

def sweeps : ℚ :=
  if cfg.ValidArea ∧ 0 < cfg.requestedSpacing r then ⌈(cfg.yMax - cfg.yMin) / cfg.requestedSpacing r⌉
  else 1000

def frontSteps : ℚ := if cfg.ValidArea then ⌈(cfg.frontX - cfg.xMax) / (1 / 10)⌉ else 1000

def pathMoves : ℚ :=
  4 + cfg.frontSteps + cfg.requestedCycles r * (2 + 2 * cfg.sweeps r)

/-- The path is neither invalid nor excessively dense. -/
def ValidPath : Prop :=
  cfg.ValidCycles r ∧ cfg.ValidArea ∧ 0 < cfg.requestedSpacing r ∧ cfg.pathMoves r ≤ 256

instance : Decidable (cfg.ValidPath r) := inferInstanceAs (Decidable (_ ∧ _ ∧ _ ∧ _))

end BedCleaningConfig

/-! ## The path -/

/-- A step of `clean`: a move, with the axes that are not NaN, or `set_outputs(true)`. -/
inductive CleanStep where
  | move (x y : Option ℚ)
  | outputs

/-- The area and the spacing that `start` has accepted. -/
structure CleanPath where
  xMin : ℚ
  xMax : ℚ
  yMin : ℚ
  yMax : ℚ
  parkY : ℚ
  frontX : ℚ
  spacing : ℚ
  cycles : ℕ
  xMin_lt : xMin < xMax
  yMin_lt : yMin < yMax
  xMax_le : xMax ≤ frontX
  spacing_pos : 0 < spacing

namespace CleanPath

variable (p : CleanPath)

theorem tenth_pos : (0 : ℚ) < 1 / 10 := by norm_num

/-- The way out to the front edge. -/
def creep : List CleanStep :=
  (upTo (1 / 10) (p.frontX + 1 / 1000) tenth_pos (p.xMax + 1 / 10)).map fun x =>
    .move (some (min x p.frontX)) none

def nextRow (y : ℚ) : ℚ := min (y + p.spacing) p.yMax

theorem turnsLeft_nextRow {y : ℚ} (h : y < p.yMax) :
    turnsLeft p.spacing p.yMax (p.nextRow y) + 1 = turnsLeft p.spacing p.yMax y :=
  turnsLeft_min_add p.spacing_pos h

/-- The loop over the rows: two of them in each turn, there and back. -/
def sweep (p : CleanPath) (y : ℚ) : List CleanStep :=
  if y < p.yMax then
    [.move (some p.xMin) none, .move none (some (p.nextRow y))] ++
      if p.yMax ≤ p.nextRow y then []
      else
        [.move (some p.xMax) none, .move none (some (p.nextRow (p.nextRow y)))] ++
          p.sweep (p.nextRow (p.nextRow y))
  else []
termination_by turnsLeft p.spacing p.yMax y
decreasing_by
  rename_i h hnext
  have hfirst := p.turnsLeft_nextRow h
  have hsecond := p.turnsLeft_nextRow (not_le.mp hnext)
  omega

def cycle : List CleanStep :=
  [.move (some p.xMax) (some p.yMin)] ++ p.sweep p.yMin ++ [.move (some p.xMax) (some p.parkY)]

/-- The steps of `clean`, each of which is taken as long as no move fails. -/
def clean : List CleanStep :=
  [.move (some p.xMax) (some p.parkY), .move none (some p.yMin), .outputs] ++ p.creep ++
    [.move (some p.frontX) none, .move (some p.xMax) none] ++ (List.replicate p.cycles p.cycle).flatten

end CleanPath

/-! ## The cleaning -/

/-- What the cleaning does, in order. -/
inductive CleanAction where
  | pushState
  | popState
  | setPlayerBusy (busy : Bool)
  | brushOn
  | setOutputs (enabled : Bool)
  | command (x y : Option ℚ)
  deriving DecidableEq

structure BedCleaning where
  active : Bool := false
  cancelled : Bool := false
  /-- How many moves have been waited for. -/
  waits : ℕ := 0
  log : List CleanAction := []

namespace BedCleaning

def note (s : BedCleaning) (action : CleanAction) : BedCleaning := { s with log := s.log ++ [action] }

/-- `move(x, y)`: an abort or a halt can come in the wait. -/
def move (interrupted : ℕ → Bool) (s : BedCleaning) (x y : Option ℚ) : BedCleaning × Bool :=
  if s.cancelled then (s, false)
  else
    let s := s.note (.command x y)
    let s := { s with cancelled := interrupted s.waits, waits := s.waits + 1 }
    (s, !s.cancelled)

/-- The steps of `clean`, one after the other, up to a move that fails. -/
def take (interrupted : ℕ → Bool) : List CleanStep → BedCleaning → BedCleaning × Bool
  | [], s => (s, true)
  | .outputs :: steps, s => take interrupted steps (s.note (.setOutputs true))
  | .move x y :: steps, s =>
    let (s, ok) := s.move interrupted x y
    if ok then take interrupted steps s else (s, false)

def finish (s : BedCleaning) : BedCleaning :=
  if !s.active then s
  else
    { ((s.note (.setOutputs false)).note (.setPlayerBusy false)).note .popState with
      active := false, cancelled := false }

/-- `start`. What it refuses, it answers with an error, and nothing is moved; where an axis is not homed,
`is_homed_all_axes` also halts the machine. -/
def start (cfg : BedCleaningConfig) (interrupted : ℕ → Bool) (s : BedCleaning) (r : CleanRequest) :
    BedCleaning :=
  if s.active || r.playerBusy then s
  else if !cfg.supported then s
  else if !r.homed then s
  else if r.laserMode then s
  else if h : cfg.ValidPath r then
    let s := { s.note .pushState with active := true, cancelled := false }
    let s := (s.note (.setPlayerBusy true)).note .brushOn
    let path : CleanPath :=
      { xMin := cfg.xMin, xMax := cfg.xMax, yMin := cfg.yMin, yMax := cfg.yMax, parkY := cfg.parkY,
        frontX := cfg.frontX, spacing := cfg.requestedSpacing r, cycles := ⌊cfg.requestedCycles r⌋₊,
        xMin_lt := h.2.1.1, yMin_lt := h.2.1.2.1, xMax_le := h.2.1.2.2, spacing_pos := h.2.2.1 }
    (take interrupted path.clean s).1.finish
  else s

end BedCleaning

/-! ## The rows -/

/-- What a step moves to. -/
def CleanStep.target : CleanStep → Option (Option ℚ × Option ℚ)
  | .move x y => some (x, y)
  | .outputs => none

def CleanAction.target : CleanAction → Option (Option ℚ × Option ℚ)
  | .command x y => some (x, y)
  | _ => none

/-- The rows that are swept across the whole range of X, by the moves from a position. -/
def sweptRows (xMin xMax : ℚ) : ℚ × ℚ → List (Option ℚ × Option ℚ) → List ℚ
  | _, [] => []
  | (x, y), (toX, toY) :: moves =>
    let next := (toX.getD x, toY.getD y)
    (if next.2 = y ∧ ((x = xMin ∧ next.1 = xMax) ∨ (x = xMax ∧ next.1 = xMin)) then [y] else []) ++
      sweptRows xMin xMax next moves

namespace CleanPath

variable (p : CleanPath)

/-- The moves of the loop over the rows. -/
def sweepMoves (y : ℚ) : List (Option ℚ × Option ℚ) := (p.sweep y).filterMap CleanStep.target

theorem sweepMoves_eq (y : ℚ) : p.sweepMoves y =
    if y < p.yMax then
      [(some p.xMin, none), (none, some (p.nextRow y))] ++
        if p.yMax ≤ p.nextRow y then []
        else
          [(some p.xMax, none), (none, some (p.nextRow (p.nextRow y)))] ++
            p.sweepMoves (p.nextRow (p.nextRow y))
    else [] := by
  rw [sweepMoves, sweep]
  split_ifs <;> rfl

theorem lt_nextRow {y : ℚ} (h : y < p.yMax) : y < p.nextRow y :=
  lt_min (lt_add_of_pos_right y p.spacing_pos) h

/-- A row, and the move to the next one. -/
theorem sweptRows_row {xMin xMax x x' y y' : ℚ} (hx : x = xMin ∧ x' = xMax ∨ x = xMax ∧ x' = xMin)
    (hy : y < y') (rest : List (Option ℚ × Option ℚ)) :
    sweptRows xMin xMax (x, y) ((some x', none) :: (none, some y') :: rest) =
      y :: sweptRows xMin xMax (x', y') rest := by
  show (if y = y ∧ (x = xMin ∧ x' = xMax ∨ x = xMax ∧ x' = xMin) then [y] else []) ++
    ((if y' = y ∧ (x' = xMin ∧ x' = xMax ∨ x' = xMax ∧ x' = xMin) then [y] else []) ++ _) = _
  rw [if_pos ⟨rfl, hx⟩, if_neg fun h => hy.ne' h.1]
  rfl

/-- One turn of the loop over the rows sweeps there, and back unless the last row is reached. -/
theorem sweptRows_sweep (y : ℚ) :
    sweptRows p.xMin p.xMax (p.xMax, y) (p.sweepMoves y) = rows p.spacing p.yMax p.spacing_pos y := by
  induction y using sweep.induct p with
  | case1 y h ih =>
    rw [sweepMoves_eq, if_pos h, rows_of_lt p.spacing_pos h, List.cons_append, List.cons_append,
      List.nil_append, sweptRows_row (.inr ⟨rfl, rfl⟩) (p.lt_nextRow h)]
    congr 1
    by_cases hlast : p.yMax ≤ p.nextRow y
    · rw [if_pos hlast]
      exact (rows_of_le p.spacing_pos hlast).symm
    · have hnext : p.nextRow y < p.yMax := not_le.mp hlast
      rw [if_neg hlast, List.cons_append, List.cons_append, List.nil_append,
        sweptRows_row (.inl ⟨rfl, rfl⟩) (p.lt_nextRow hnext), ih hlast]
      exact (rows_of_lt p.spacing_pos hnext).symm
  | case2 y h =>
    rw [sweepMoves_eq, if_neg h, rows_of_le p.spacing_pos (not_lt.mp h)]
    rfl

/-! ## The number of moves and where they go -/

/-- Each row takes two moves. -/
theorem length_sweepMoves (y : ℚ) : (p.sweepMoves y).length = 2 * turnsLeft p.spacing p.yMax y := by
  induction y using sweep.induct p with
  | case1 y h ih =>
    rw [sweepMoves_eq, if_pos h, ← p.turnsLeft_nextRow h]
    by_cases hlast : p.yMax ≤ p.nextRow y
    · rw [if_pos hlast, turnsLeft_of_le p.spacing_pos hlast]
      rfl
    · rw [if_neg hlast, List.length_append, List.length_append, ih hlast,
        ← p.turnsLeft_nextRow (not_le.mp hlast)]
      show 2 + (2 + _) = _
      omega
  | case2 y h =>
    rw [sweepMoves_eq, if_neg h, turnsLeft_of_le p.spacing_pos (not_lt.mp h)]
    rfl

/-- A target within the area: X between its lower limit and the front edge, Y at the parking point or
between its limits. -/
def Confined (target : Option ℚ × Option ℚ) : Prop :=
  (∀ x ∈ target.1, p.xMin ≤ x ∧ x ≤ p.frontX) ∧
    ∀ y ∈ target.2, y = p.parkY ∨ (p.yMin ≤ y ∧ y ≤ p.yMax)

theorem confined_x {x : ℚ} (hlow : p.xMin ≤ x) (hhigh : x ≤ p.frontX) : p.Confined (some x, none) := by
  refine ⟨?_, fun y hy => absurd hy (Option.not_mem_none y)⟩
  intro x' hx'
  obtain rfl := Option.some.inj hx'
  exact ⟨hlow, hhigh⟩

theorem confined_y {y : ℚ} (hlow : p.yMin ≤ y) (hhigh : y ≤ p.yMax) : p.Confined (none, some y) := by
  refine ⟨fun x hx => absurd hx (Option.not_mem_none x), ?_⟩
  intro y' hy'
  obtain rfl := Option.some.inj hy'
  exact .inr ⟨hlow, hhigh⟩

theorem confined_sweepMoves {y : ℚ} (hy : p.yMin ≤ y) : ∀ t ∈ p.sweepMoves y, p.Confined t := by
  have hfront : p.xMin ≤ p.frontX := p.xMin_lt.le.trans p.xMax_le
  induction y using sweep.induct p with
  | case1 y h ih =>
    have hnext := hy.trans (p.lt_nextRow h).le
    have hto := p.confined_x le_rfl hfront
    have hrow := p.confined_y hnext (min_le_right _ _)
    intro t ht
    rw [sweepMoves_eq, if_pos h] at ht
    simp only [List.cons_append, List.nil_append, List.mem_cons] at ht
    obtain rfl | rfl | ht := ht
    · exact hto
    · exact hrow
    · split at ht
      · exact absurd ht List.not_mem_nil
      · rename_i hlast
        have hback := hnext.trans (p.lt_nextRow (not_le.mp hlast)).le
        simp only [List.mem_cons] at ht
        obtain rfl | rfl | ht := ht
        · exact p.confined_x p.xMin_lt.le p.xMax_le
        · exact p.confined_y hback (min_le_right _ _)
        · exact ih hlast hback t ht
  | case2 y h =>
    intro t ht
    rw [sweepMoves_eq, if_neg h] at ht
    exact absurd ht List.not_mem_nil

def creepMoves : List (Option ℚ × Option ℚ) := p.creep.filterMap CleanStep.target

theorem creepMoves_eq : p.creepMoves =
    (upTo (1 / 10) (p.frontX + 1 / 1000) tenth_pos (p.xMax + 1 / 10)).map fun x =>
      (some (min x p.frontX), none) := by
  rw [creepMoves, creep, List.filterMap_map]
  show List.filterMap (fun x => some (some (min x p.frontX), none)) _ = _
  rw [List.filterMap_eq_map']

theorem length_creepMoves : (p.creepMoves.length : ℚ) ≤ ⌈(p.frontX - p.xMax) / (1 / 10)⌉ := by
  have hnonneg : 0 ≤ (p.frontX - p.xMax) / (1 / 10) := div_nonneg (sub_nonneg.mpr p.xMax_le) tenth_pos.le
  have hceil : (p.frontX - p.xMax) / (1 / 10) ≤ ⌈(p.frontX - p.xMax) / (1 / 10)⌉₊ := Nat.le_ceil _
  have hlength : p.creepMoves.length ≤ ⌈(p.frontX - p.xMax) / (1 / 10)⌉₊ := by
    rw [creepMoves_eq, List.length_map]
    apply length_upTo_le
    rw [div_le_iff₀ tenth_pos] at hceil
    linarith
  rw [← natCast_ceil_eq_intCast_ceil hnonneg]
  exact_mod_cast hlength

theorem confined_creepMoves : ∀ t ∈ p.creepMoves, p.Confined t := by
  intro t ht
  rw [creepMoves_eq] at ht
  obtain ⟨x, hx, rfl⟩ := List.mem_map.mp ht
  have hfrom := (le_of_mem_upTo tenth_pos hx).1
  have hout : p.xMin ≤ x := by linarith [p.xMin_lt]
  exact p.confined_x (le_min hout (p.xMin_lt.le.trans p.xMax_le)) (min_le_right _ _)

def cycleMoves : List (Option ℚ × Option ℚ) :=
  [(some p.xMax, some p.yMin)] ++ p.sweepMoves p.yMin ++ [(some p.xMax, some p.parkY)]

/-- The moves up to the first cycle. -/
def outwardMoves : List (Option ℚ × Option ℚ) :=
  [(some p.xMax, some p.parkY), (none, some p.yMin)] ++ p.creepMoves ++
    [(some p.frontX, none), (some p.xMax, none)]

def moves : List (Option ℚ × Option ℚ) := p.clean.filterMap CleanStep.target

theorem moves_eq : p.moves = p.outwardMoves ++ (List.replicate p.cycles p.cycleMoves).flatten := by
  have hcycle : p.cycle.filterMap CleanStep.target = p.cycleMoves := by
    rw [cycle, List.filterMap_append, List.filterMap_append]
    rfl
  rw [moves, clean, List.filterMap_append, List.filterMap_append, List.filterMap_append,
    List.filterMap_flatten, List.map_replicate, hcycle]
  rfl

theorem confined_outwardMoves : ∀ t ∈ p.outwardMoves, p.Confined t := by
  have hmax := p.confined_x p.xMin_lt.le p.xMax_le
  have hfront := p.confined_x (p.xMin_lt.le.trans p.xMax_le) le_rfl
  have hrow := p.confined_y le_rfl p.yMin_lt.le
  have hpark : p.Confined (some p.xMax, some p.parkY) := by
    refine ⟨hmax.1, ?_⟩
    intro y hy
    exact .inl (Option.some.inj hy).symm
  intro t ht
  simp only [outwardMoves, List.mem_append, List.mem_cons, List.not_mem_nil, or_false] at ht
  obtain ((rfl | rfl) | ht) | rfl | rfl := ht
  · exact hpark
  · exact hrow
  · exact p.confined_creepMoves t ht
  · exact hfront
  · exact hmax

theorem confined_cycleMoves : ∀ t ∈ p.cycleMoves, p.Confined t := by
  have hmax := p.confined_x p.xMin_lt.le p.xMax_le
  have hrow := p.confined_y le_rfl p.yMin_lt.le
  intro t ht
  simp only [cycleMoves, List.mem_append, List.mem_singleton] at ht
  obtain (rfl | ht) | rfl := ht
  · exact ⟨hmax.1, hrow.2⟩
  · exact p.confined_sweepMoves le_rfl t ht
  · exact ⟨hmax.1, fun y hy => .inl (Option.some.inj hy).symm⟩

theorem confined_moves : ∀ t ∈ p.moves, p.Confined t := by
  intro t ht
  rw [moves_eq, List.mem_append, List.mem_flatten] at ht
  obtain ht | ⟨cycle, hcycle, ht⟩ := ht
  · exact p.confined_outwardMoves t ht
  · rw [List.eq_of_mem_replicate hcycle] at ht
    exact p.confined_cycleMoves t ht

/-- The estimate of `start` is never exceeded. -/
theorem length_moves : (p.moves.length : ℚ) ≤
    4 + ⌈(p.frontX - p.xMax) / (1 / 10)⌉ + p.cycles * (2 + 2 * ⌈(p.yMax - p.yMin) / p.spacing⌉) := by
  have hcreep := p.length_creepMoves
  have hcycle : p.cycleMoves.length = 2 + 2 * turnsLeft p.spacing p.yMax p.yMin := by
    rw [cycleMoves, List.length_append, List.length_append, length_sweepMoves]
    show 1 + _ + 1 = _
    omega
  have hlength : p.moves.length =
      4 + p.creepMoves.length + p.cycles * (2 + 2 * turnsLeft p.spacing p.yMax p.yMin) := by
    rw [moves_eq, List.length_append, List.length_flatten, List.map_replicate, List.sum_replicate,
      smul_eq_mul, hcycle, outwardMoves, List.length_append, List.length_append]
    show 2 + _ + 2 + _ = _
    omega
  have hrows : (turnsLeft p.spacing p.yMax p.yMin : ℚ) = ⌈(p.yMax - p.yMin) / p.spacing⌉ :=
    natCast_ceil_eq_intCast_ceil (div_nonneg (sub_nonneg.mpr p.yMin_lt.le) p.spacing_pos.le)
  rw [hlength]
  push_cast
  rw [hrows]
  linarith

end CleanPath

/-! ## A run of the cleaning -/

/-- What a step leaves in the log. -/
def CleanStep.action : CleanStep → CleanAction
  | .move x y => .command x y
  | .outputs => .setOutputs true

namespace BedCleaning

/-- The steps that are taken: all of them, or those up to the first move whose wait is interrupted. -/
structure Takes (interrupted : ℕ → Bool) (steps : List CleanStep) (s : BedCleaning)
    (result : BedCleaning × Bool) (done : List CleanStep) : Prop where
  first : done <+: steps
  log : result.1.log = s.log ++ done.map CleanStep.action
  active : result.1.active = s.active
  completed : result.2 = true → done = steps
  calm : ∀ i, i + 1 < (done.filterMap CleanStep.target).length → interrupted (s.waits + i) = false
  cut : result.2 = false → ∃ i, i + 1 = (done.filterMap CleanStep.target).length ∧
    interrupted (s.waits + i) = true

theorem take_takes (interrupted : ℕ → Bool) (steps : List CleanStep) (s : BedCleaning)
    (hgoing : s.cancelled = false) : ∃ done, Takes interrupted steps s (take interrupted steps s) done := by
  induction steps generalizing s with
  | nil =>
    refine ⟨[], List.prefix_rfl, ?_, rfl, fun _ => rfl, fun i hi => absurd hi (Nat.not_lt_zero _), ?_⟩
    · exact (List.append_nil _).symm
    · intro h
      exact Bool.noConfusion h
  | cons step steps ih =>
    cases step with
    | outputs =>
      obtain ⟨done, h⟩ := ih (s.note (.setOutputs true)) hgoing
      refine ⟨.outputs :: done, (List.prefix_cons_inj _).mpr h.first, ?_, h.active, ?_, h.calm, h.cut⟩
      · show (take interrupted steps _).1.log = _
        rw [h.log]
        exact List.append_assoc ..
      · intro hok
        rw [h.completed hok]
    | move x y =>
      -- A move waits for the conveyor, and an interruption is looked at behind the wait.
      let moved : BedCleaning :=
        { s.note (.command x y) with cancelled := interrupted s.waits, waits := s.waits + 1 }
      have hmove : s.move interrupted x y = (moved, !interrupted s.waits) := by
        rw [move, hgoing, if_neg Bool.false_ne_true]
        rfl
      rw [take, hmove]
      cases hwait : interrupted s.waits with
      | true =>
        refine ⟨[.move x y], ⟨steps, rfl⟩, rfl, rfl, ?_, ?_, fun _ => ⟨0, rfl, hwait⟩⟩
        · intro h
          exact Bool.noConfusion h
        · intro i hi
          exact absurd hi (by simp [CleanStep.target])
      | false =>
        obtain ⟨done, h⟩ := ih moved hwait
        refine ⟨.move x y :: done, (List.prefix_cons_inj _).mpr h.first, ?_, h.active, ?_, ?_, ?_⟩
        · show (take interrupted steps moved).1.log = _
          rw [h.log]
          exact List.append_assoc ..
        · intro hok
          rw [h.completed hok]
        · intro i hi
          cases i with
          | zero => exact hwait
          | succ i =>
            have hlater := h.calm i (Nat.lt_of_succ_lt_succ hi)
            rwa [show moved.waits + i = s.waits + (i + 1) by show s.waits + 1 + i = _; omega] at hlater
        · intro hok
          obtain ⟨i, hi, hcut⟩ := h.cut hok
          refine ⟨i + 1, congrArg (· + 1) hi, ?_⟩
          rwa [show moved.waits + i = s.waits + (i + 1) by show s.waits + 1 + i = _; omega] at hcut

/-- `start` takes the request. -/
structure Accepts (cfg : BedCleaningConfig) (s : BedCleaning) (r : CleanRequest) : Prop where
  idle : s.active = false ∧ r.playerBusy = false
  supported : cfg.supported = true
  homed : r.homed = true
  noLaser : r.laserMode = false
  path : cfg.ValidPath r

/-- The path of a request that is taken. -/
def pathOf (cfg : BedCleaningConfig) (r : CleanRequest) (h : cfg.ValidPath r) : CleanPath where
  xMin := cfg.xMin
  xMax := cfg.xMax
  yMin := cfg.yMin
  yMax := cfg.yMax
  parkY := cfg.parkY
  frontX := cfg.frontX
  spacing := cfg.requestedSpacing r
  cycles := ⌊cfg.requestedCycles r⌋₊
  xMin_lt := h.2.1.1
  yMin_lt := h.2.1.2.1
  xMax_le := h.2.1.2.2
  spacing_pos := h.2.2.1

theorem length_pathOf (cfg : BedCleaningConfig) (r : CleanRequest) (h : cfg.ValidPath r) :
    ((pathOf cfg r h).moves.length : ℚ) ≤ cfg.pathMoves r := by
  have hcycles : ((⌊cfg.requestedCycles r⌋₊ : ℕ) : ℚ) = cfg.requestedCycles r := by
    have hfloor := h.1.2.2
    rw [← natCast_floor_eq_intCast_floor (zero_le_one.trans h.1.1)] at hfloor
    exact hfloor
  have hsweeps : cfg.sweeps r = ⌈(cfg.yMax - cfg.yMin) / cfg.requestedSpacing r⌉ := if_pos ⟨h.2.1, h.2.2.1⟩
  have hfront : cfg.frontSteps = ⌈(cfg.frontX - cfg.xMax) / (1 / 10)⌉ := if_pos h.2.1
  have hlength := (pathOf cfg r h).length_moves
  rw [BedCleaningConfig.pathMoves, hsweeps, hfront, ← hcycles]
  exact hlength

/-- The steps that a request makes the cleaning take, and what surrounds them. -/
theorem start_takes {cfg : BedCleaningConfig} {s : BedCleaning} {r : CleanRequest}
    (interrupted : ℕ → Bool) (h : Accepts cfg s r) :
    ∃ (ready : BedCleaning) (result : BedCleaning × Bool) (done : List CleanStep),
      ready.waits = s.waits ∧
      Takes interrupted (pathOf cfg r h.path).clean ready result done ∧
      (start cfg interrupted s r).active = false ∧
      (start cfg interrupted s r).log =
        s.log ++ [.pushState, .setPlayerBusy true, .brushOn] ++ done.map CleanStep.action ++
          [.setOutputs false, .setPlayerBusy false, .popState] := by
  let ready : BedCleaning :=
    (({ s.note .pushState with active := true, cancelled := false }).note (.setPlayerBusy true)).note .brushOn
  obtain ⟨done, htakes⟩ := take_takes interrupted (pathOf cfg r h.path).clean ready rfl
  have hstart : start cfg interrupted s r = (take interrupted (pathOf cfg r h.path).clean ready).1.finish := by
    rw [start, h.idle.1, h.idle.2, h.supported, h.homed, h.noLaser, dif_pos h.path]
    rfl
  have hactive : (take interrupted (pathOf cfg r h.path).clean ready).1.active = true := htakes.active
  refine ⟨ready, _, done, rfl, htakes, ?_, ?_⟩
  · rw [hstart, finish, hactive]
    rfl
  · rw [hstart, finish, hactive]
    show (take interrupted _ ready).1.log ++ [_] ++ [_] ++ [_] = _
    rw [htakes.log]
    show s.log ++ [_] ++ [_] ++ [_] ++ _ ++ [_] ++ [_] ++ [_] = _
    simp only [List.append_assoc, List.cons_append, List.nil_append]

/-- The commands that a request leads to. -/
def commands (log : List CleanAction) : List (Option ℚ × Option ℚ) := log.filterMap CleanAction.target

theorem commands_action (done : List CleanStep) :
    commands (done.map CleanStep.action) = done.filterMap CleanStep.target := by
  rw [commands, List.filterMap_map]
  apply List.filterMap_congr
  intro step _
  cases step with
  | move => rfl
  | outputs => rfl

end BedCleaning

open BedCleaning

/-- A cleaning that is accepted gives back what it took exactly once and last of all, whenever an abort
or a halt comes; it makes no move after an interrupted one, at most as many as were estimated, and none
out of the area. -/
theorem bed_cleaning_confined (cfg : BedCleaningConfig) (interrupted : ℕ → Bool) (s : BedCleaning)
    (r : CleanRequest) (h : Accepts cfg s r) :
    ∃ made : List CleanAction,
      (start cfg interrupted s r).log =
        s.log ++ [.pushState, .setPlayerBusy true, .brushOn] ++ made ++
          [.setOutputs false, .setPlayerBusy false, .popState] ∧
      (∀ action ∈ made, action = .setOutputs true ∨ action.target ≠ none) ∧
      (start cfg interrupted s r).active = false ∧
      ((commands made).length : ℚ) ≤ cfg.pathMoves r ∧ (commands made).length ≤ 256 ∧
      (∀ t ∈ commands made,
        (∀ x ∈ t.1, cfg.xMin ≤ x ∧ x ≤ cfg.frontX) ∧
          ∀ y ∈ t.2, y = cfg.parkY ∨ (cfg.yMin ≤ y ∧ y ≤ cfg.yMax)) ∧
      ∀ i, i + 1 < (commands made).length → interrupted (s.waits + i) = false := by
  obtain ⟨ready, result, done, hwaits, htakes, hactive, hlog⟩ := start_takes interrupted h
  -- Interrupted or not, what has been done is the first part of the path.
  have hpart : done.filterMap CleanStep.target <+: (pathOf cfg r h.path).moves :=
    htakes.first.filterMap _
  have hestimate : ((commands (done.map CleanStep.action)).length : ℚ) ≤ cfg.pathMoves r := by
    rw [commands_action]
    have hle : ((done.filterMap CleanStep.target).length : ℚ) ≤ (pathOf cfg r h.path).moves.length := by
      exact_mod_cast hpart.length_le
    exact hle.trans (length_pathOf cfg r h.path)
  refine ⟨done.map CleanStep.action, hlog, ?_, hactive, hestimate, ?_, ?_, ?_⟩
  · intro action haction
    obtain ⟨step, -, rfl⟩ := List.mem_map.mp haction
    cases step with
    | move => exact .inr (Option.some_ne_none _)
    | outputs => exact .inl rfl
  · exact_mod_cast hestimate.trans h.path.2.2.2
  · intro t ht
    rw [commands_action] at ht
    exact (pathOf cfg r h.path).confined_moves t (hpart.subset ht)
  · intro i hi
    rw [commands_action] at hi
    rw [← hwaits]
    exact htakes.calm i hi

/-- A cleaning that is not interrupted ends with as many equal cycles as were asked for. A cycle starts at
the first row and ends at the parking point; the rows that it sweeps across the whole range of X begin at
the lower limit of Y, are no further apart than the spacing and leave no more than the spacing. -/
theorem bed_cleaning_covers (cfg : BedCleaningConfig) (interrupted : ℕ → Bool) (s : BedCleaning)
    (r : CleanRequest) (h : Accepts cfg s r) (hcalm : ∀ i, interrupted i = false) :
    ∃ outward sweep : List (Option ℚ × Option ℚ), ∃ swept : List ℚ,
      commands (start cfg interrupted s r).log = commands s.log ++ outward ++
        (List.replicate ⌊cfg.requestedCycles r⌋₊
          ((some cfg.xMax, some cfg.yMin) :: sweep ++ [(some cfg.xMax, some cfg.parkY)])).flatten ∧
      swept = sweptRows cfg.xMin cfg.xMax (cfg.xMax, cfg.yMin) sweep ∧
      swept.head? = some cfg.yMin ∧
      swept.IsChain (fun a b => a ≤ b ∧ b ≤ a + cfg.requestedSpacing r) ∧
      ∀ y, swept.getLast? = some y → cfg.yMax ≤ y + cfg.requestedSpacing r := by
  obtain ⟨ready, result, done, hwaits, htakes, -, hlog⟩ := start_takes interrupted h
  let path := pathOf cfg r h.path
  have hdone : done = path.clean := by
    apply htakes.completed
    by_contra hok
    obtain ⟨i, -, hcut⟩ := htakes.cut (Bool.eq_false_of_not_eq_true hok)
    rw [hcalm] at hcut
    exact Bool.noConfusion hcut
  -- with no interruption the log is the whole path, and what is switched is no command
  have hmoves : commands (start cfg interrupted s r).log = commands s.log ++ path.moves := by
    rw [hlog, hdone]
    show List.filterMap _ (_ ++ _ ++ _ ++ _) = _
    rw [List.filterMap_append, List.filterMap_append, List.filterMap_append]
    show commands s.log ++ [] ++ commands (path.clean.map CleanStep.action) ++ [] = _
    rw [commands_action, List.append_nil, List.append_nil]
    rfl
  have hrows : sweptRows path.xMin path.xMax (path.xMax, path.yMin) (path.sweepMoves path.yMin) =
      rows path.spacing path.yMax path.spacing_pos path.yMin := path.sweptRows_sweep path.yMin
  refine ⟨path.outwardMoves, path.sweepMoves path.yMin, _, ?_, rfl, ?_, ?_, ?_⟩
  · rw [hmoves, path.moves_eq, List.append_assoc]
    rfl
  · show (sweptRows path.xMin path.xMax (path.xMax, path.yMin) _).head? = _
    rw [hrows, rows_of_lt path.spacing_pos path.yMin_lt]
    rfl
  · show (sweptRows path.xMin path.xMax (path.xMax, path.yMin) _).IsChain _
    rw [hrows]
    exact isChain_rows path.spacing_pos
  · intro y hy
    have hlast : (rows path.spacing path.yMax path.spacing_pos path.yMin).getLast? = some y := by
      rw [← hrows]
      exact hy
    exact last_rows path.spacing_pos hlast

/-- A cleaning that is accepted makes no more moves than were estimated, none out of the area and none
after an interrupted one, and gives back what it took exactly once and last of all. If it is not
interrupted, it sweeps all of the area in each of its cycles. -/
theorem bed_cleaning_path (cfg : BedCleaningConfig) (interrupted : ℕ → Bool) (s : BedCleaning)
    (r : CleanRequest) (h : Accepts cfg s r) :
    (∃ made : List CleanAction,
      (start cfg interrupted s r).log =
        s.log ++ [.pushState, .setPlayerBusy true, .brushOn] ++ made ++
          [.setOutputs false, .setPlayerBusy false, .popState] ∧
      (∀ action ∈ made, action = .setOutputs true ∨ action.target ≠ none) ∧
      (start cfg interrupted s r).active = false ∧
      ((commands made).length : ℚ) ≤ cfg.pathMoves r ∧ (commands made).length ≤ 256 ∧
      (∀ t ∈ commands made,
        (∀ x ∈ t.1, cfg.xMin ≤ x ∧ x ≤ cfg.frontX) ∧
          ∀ y ∈ t.2, y = cfg.parkY ∨ (cfg.yMin ≤ y ∧ y ≤ cfg.yMax)) ∧
      ∀ i, i + 1 < (commands made).length → interrupted (s.waits + i) = false) ∧
    ((∀ i, interrupted i = false) →
      ∃ outward sweep : List (Option ℚ × Option ℚ), ∃ swept : List ℚ,
        commands (start cfg interrupted s r).log = commands s.log ++ outward ++
          (List.replicate ⌊cfg.requestedCycles r⌋₊
            ((some cfg.xMax, some cfg.yMin) :: sweep ++ [(some cfg.xMax, some cfg.parkY)])).flatten ∧
        swept = sweptRows cfg.xMin cfg.xMax (cfg.xMax, cfg.yMin) sweep ∧
        swept.head? = some cfg.yMin ∧
        swept.IsChain (fun a b => a ≤ b ∧ b ≤ a + cfg.requestedSpacing r) ∧
        ∀ y, swept.getLast? = some y → cfg.yMax ≤ y + cfg.requestedSpacing r) :=
  ⟨bed_cleaning_confined cfg interrupted s r h, bed_cleaning_covers cfg interrupted s r h⟩

/-- The settings of the configuration, with the module enabled. -/
def bedConfig : BedCleaningConfig := { supported := true }

theorem accepts_bedConfig : Accepts bedConfig {} {} where
  idle := ⟨rfl, rfl⟩
  supported := rfl
  homed := rfl
  noLaser := rfl
  path := by decide +kernel

theorem bed_cleaning_path_default : ∃ outward sweep : List (Option ℚ × Option ℚ),
    commands (start bedConfig (fun _ => false) {} {}).log = outward ++
        ((some (-5), some (-234)) :: sweep ++ [(some (-5), some (-21))]) ∧
      (start bedConfig (fun _ => false) {} {}).active = false := by
  obtain ⟨⟨_, _, _, hactive, _⟩, hcovers⟩ :=
    bed_cleaning_path bedConfig (fun _ => false) {} {} accepts_bedConfig
  obtain ⟨outward, sweep, _, hcommands, _⟩ := hcovers fun _ => rfl
  have hone : ⌊bedConfig.requestedCycles {}⌋₊ = 1 := by decide +kernel
  rw [hone] at hcommands
  exact ⟨outward, sweep, by simpa [commands, bedConfig] using hcommands, hactive⟩

end CarveraFirmware.Tools
