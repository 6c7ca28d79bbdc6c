import Mathlib

/-!
# The tool offset from repeated measurements

`ATCHandler::set_tool_offset` with the queue of the measured heights, over exact arithmetic. A read
of the queue outside its size has no result.
-/

namespace CarveraFirmware.Tools

def maxTlMczValues : ℕ := 5

structure ToolOffset where
  refToolMz : ℚ
  curToolMz : ℚ := 0
  toolOffset : ℚ := 0
  /-- The newest height comes first. -/
  tlMczValues : List ℚ := List.replicate maxTlMczValues 0
  activeTool : ℤ := -1
  threeAxisProbeTloCorrection : ℚ := 0
  /-- `eeprom_data->REFMZ`. -/
  eepromRefMz : ℚ := -10
  deriving DecidableEq

/-- `get_last_probe_position`, of which the height and the success are used. -/
structure ProbePosition where
  z : ℚ
  success : Bool
  deriving DecidableEq

/-- The variables of the loop over the last measurements. -/
structure Extremes where
  lowest : ℚ
  highest : ℚ
  indexLowest : ℕ
  indexHighest : ℕ
  deriving DecidableEq

/-- What is printed under "Results"; measurements are counted from the oldest, which is 1. -/
structure TloReport where
  used : ℕ
  usedValue : ℚ
  maxDelta : ℚ
  lowestCuttingEdge : ℕ
  highestCuttingEdge : ℕ
  deriving DecidableEq

structure ToolOffsetOutcome where
  state : ToolOffset
  report : Option TloReport := none
  /-- The height and the current position that `saveToolOffset` gets. -/
  saved : Option (ℚ × ℚ) := none
  halted : Bool := false
  deriving DecidableEq

/-- `push_front`, and `pop_back` where the size is the largest one. -/
def pushMeasurement (values : List ℚ) (height : ℚ) : List ℚ :=
  if (height :: values).length = maxTlMczValues then (height :: values).dropLast
  else height :: values

/-- One turn of the loop. -/
def measureStep (e : Extremes) (i : ℕ) (value : ℚ) : Extremes :=
  let e := if value < e.lowest then { e with lowest := value, indexLowest := i } else e
  if e.highest < value then { e with highest := value, indexHighest := i } else e

/-- The loop over the measurements `n - 1` down to 0. -/
def measureFrom (values : List ℚ) : ℕ → Extremes → Option Extremes
  | 0, e => some e
  | i + 1, e => do
    let value ← values[i]?
    measureFrom values i (measureStep e i value)

def tloReport (s : ToolOffset) (repeatCount : ℕ) (e : Extremes) : TloReport where
  used := repeatCount - e.indexHighest
  usedValue := e.highest - s.refToolMz
  maxDelta := e.highest - e.lowest
  lowestCuttingEdge := repeatCount - e.indexHighest
  highestCuttingEdge := repeatCount - e.indexLowest

/-- The heights of the last measurements, and whether they are reported. -/
def measureExtremes (values : List ℚ) (repeatCount : ℕ) : Option (Extremes × Bool) :=
  -- the index is `repeat_count - 1`, which for zero lies outside the queue
  if repeatCount = 0 then none
  else do
    let first ← values[repeatCount - 1]?
    let e : Extremes := ⟨first, first, 0, repeatCount - 1⟩
    if 1 < repeatCount ∧ repeatCount ≤ values.length then
      return (← measureFrom values repeatCount e, true)
    else return (e, false)

/-- `three_axis_probe_tlo_correction` is added for a probe. -/
def zSave (s : ToolOffset) (offset : ℚ) : ℚ :=
  if 999990 ≤ s.activeTool ∨ s.activeTool = 9999 then offset + s.threeAxisProbeTloCorrection
  else offset

/-- `ATCHandler::set_tool_offset`. -/
def setToolOffset (s : ToolOffset) (probe : ProbePosition) (repeatCount : ℕ) :
    Option ToolOffsetOutcome :=
  if probe.success then
    let s := { s with curToolMz := probe.z }
    if s.refToolMz < 1 then do
      let values := pushMeasurement s.tlMczValues probe.z
      let (e, reported) ← measureExtremes values repeatCount
      let offset := e.lowest - s.refToolMz
      some {
        state := { s with tlMczValues := values, toolOffset := offset }
        report := if reported then some (tloReport s repeatCount e) else none
        saved := some (zSave s offset, probe.z) }
    else
      let offset := s.curToolMz - s.refToolMz
      some {
        state := { s with eepromRefMz := -10, toolOffset := offset }
        saved := some (offset, probe.z)
        halted := true }
  else some { state := s }

/-- A history of calls with successful probes: the heights and the counts. -/
def measureAll (s : ToolOffset) : List (ℚ × ℕ) → Option ToolOffset
  | [] => some s
  | (height, repeatCount) :: calls => do
    let outcome ← setToolOffset s ⟨height, true⟩ repeatCount
    measureAll outcome.state calls

/-- What a call with this outcome should do: the queue keeps its size, and the offset is that of
the measurement named in the report, one of the last. -/
structure WellMeasured (repeatCount : ℕ) (outcome : ToolOffsetOutcome) : Prop where
  size : outcome.state.tlMczValues.length ≤ maxTlMczValues
  used : ∀ report, outcome.report = some report →
    1 ≤ report.used ∧ report.used ≤ repeatCount ∧
      outcome.state.tlMczValues[repeatCount - report.used]? =
        some (outcome.state.toolOffset + outcome.state.refToolMz)

section measure

variable {values : List ℚ} {e e' : Extremes} {r : ℕ}

/-- What the loop keeps: the extremes are heights among the last `r`. -/
structure Found (values : List ℚ) (r : ℕ) (e : Extremes) : Prop where
  lowest : ∃ i < r, values[i]? = some e.lowest
  highest : values[e.indexHighest]? = some e.highest
  inside : e.indexHighest < r

theorem measureStep_lowest (i : ℕ) (value : ℚ) :
    (measureStep e i value).lowest = min e.lowest value := by
  rw [measureStep]
  grind

theorem measureStep_highest (i : ℕ) (value : ℚ) :
    (measureStep e i value).highest = max e.highest value := by
  rw [measureStep]
  grind

theorem found_measureStep {i : ℕ} {value : ℚ} (h : Found values r e) (hi : i < r)
    (hvalue : values[i]? = some value) : Found values r (measureStep e i value) := by
  obtain ⟨⟨j, hj, hlowest⟩, hhighest, hinside⟩ := h
  refine ⟨?_, ?_, ?_⟩
  · rw [measureStep_lowest]
    obtain hmin | hmin := min_choice e.lowest value <;> rw [hmin]
    · exact ⟨j, hj, hlowest⟩
    · exact ⟨i, hi, hvalue⟩
  · rw [measureStep]
    grind
  · rw [measureStep]
    grind

theorem measureFrom_spec {n : ℕ} (hn : n ≤ r) (hr : r ≤ values.length) (h : Found values r e) :
    ∃ e', measureFrom values n e = some e' ∧ Found values r e' ∧
      e'.lowest ≤ e.lowest ∧ e.highest ≤ e'.highest ∧
      ∀ i < n, ∀ value, values[i]? = some value → e'.lowest ≤ value ∧ value ≤ e'.highest := by
  induction n generalizing e with
  | zero => exact ⟨e, rfl, h, le_rfl, le_rfl, fun i hi => absurd hi (Nat.not_lt_zero i)⟩
  | succ n ih =>
    have hvalue : values[n]? = some values[n] := List.getElem?_eq_getElem (by omega)
    obtain ⟨e', he', hfound, hlow, hhigh, hall⟩ :=
      ih (by omega) (found_measureStep h (by omega) hvalue)
    rw [measureStep_lowest] at hlow
    rw [measureStep_highest] at hhigh
    refine ⟨e', by rw [measureFrom, hvalue]; exact he', hfound, hlow.trans (min_le_left ..),
      (le_max_left ..).trans hhigh, fun i hi value hget => ?_⟩
    obtain hlt | rfl := Nat.lt_succ_iff_lt_or_eq.1 hi
    · exact hall i hlt value hget
    · rw [hvalue] at hget
      obtain rfl := Option.some.inj hget
      exact ⟨hlow.trans (min_le_right ..), (le_max_right ..).trans hhigh⟩

end measure

section history

variable {s t : ToolOffset} {calls : List (ℚ × ℕ)} {height : ℚ} {r : ℕ}

/-- The queue starts full, so that its size is never the largest one after a push. -/
theorem pushMeasurement_eq {values : List ℚ} (h : maxTlMczValues ≤ values.length) :
    pushMeasurement values height = height :: values :=
  if_neg fun heq => absurd (heq ▸ List.length_cons) (by omega)

theorem measureExtremes_spec {values : List ℚ} (hr : 1 ≤ r) (hle : r ≤ values.length) :
    ∃ e, measureExtremes values r = some (e, decide (1 < r)) ∧ Found values r e ∧
      ∀ i < r, ∀ value, values[i]? = some value → e.lowest ≤ value ∧ value ≤ e.highest := by
  have hfirst : values[r - 1]? = some values[r - 1] := List.getElem?_eq_getElem (by omega)
  have hstart : Found values r ⟨values[r - 1], values[r - 1], 0, r - 1⟩ :=
    ⟨⟨r - 1, by omega, hfirst⟩, hfirst, by change r - 1 < r; omega⟩
  rw [measureExtremes, if_neg (by omega), hfirst]
  obtain rfl | hlt := Nat.eq_or_lt_of_le hr
  · refine ⟨_, rfl, hstart, fun i hi value hget => ?_⟩
    obtain rfl : i = 0 := by omega
    rw [hfirst] at hget
    obtain rfl := Option.some.inj hget
    exact ⟨le_rfl, le_rfl⟩
  · obtain ⟨e, he, hfound, -, -, hall⟩ := measureFrom_spec le_rfl hle hstart
    refine ⟨e, ?_, hfound, hall⟩
    simp [hlt, hle, he]

theorem setToolOffset_eq {e : Extremes} {reported : Bool} (href : t.refToolMz < 1)
    (hqueue : maxTlMczValues ≤ t.tlMczValues.length)
    (he : measureExtremes (height :: t.tlMczValues) r = some (e, reported)) :
    setToolOffset t ⟨height, true⟩ r = some {
      state := { t with
        curToolMz := height
        tlMczValues := height :: t.tlMczValues
        toolOffset := e.lowest - t.refToolMz }
      report := if reported then some (tloReport t r e) else none
      saved := some (zSave t (e.lowest - t.refToolMz), height) } := by
  simp only [setToolOffset, if_pos href, pushMeasurement_eq hqueue, he]
  rfl

/-- After a history the queue holds all its heights before the five zeros it began with. -/
theorem measureAll_spec (href : s.refToolMz < 1) (hqueue : maxTlMczValues ≤ s.tlMczValues.length)
    (hrun : measureAll s calls = some t) :
    t.refToolMz = s.refToolMz ∧
      t.tlMczValues = (calls.map Prod.fst).reverse ++ s.tlMczValues := by
  induction calls generalizing s with
  | nil =>
    obtain rfl := Option.some.inj hrun
    exact ⟨rfl, rfl⟩
  | cons call calls ih =>
    obtain ⟨height, r⟩ := call
    rw [measureAll] at hrun
    obtain ⟨outcome, houtcome, hrest⟩ := Option.bind_eq_some_iff.1 hrun
    cases he : measureExtremes (height :: s.tlMczValues) r with
    | none =>
      rw [setToolOffset, if_pos rfl, if_pos href] at houtcome
      simp [pushMeasurement_eq hqueue, he] at houtcome
    | some e =>
      rw [setToolOffset_eq href hqueue he] at houtcome
      obtain rfl := Option.some.inj houtcome
      obtain ⟨href', hvalues⟩ :=
        ih (by exact href) (by exact hqueue.trans (Nat.le_succ _)) hrest
      refine ⟨href', ?_⟩
      rw [hvalues, List.map_cons, List.reverse_cons, List.append_assoc]
      rfl

/-- The lowest height is the highest exactly if the last `r` heights are the same. -/
theorem found_eq_iff {values : List ℚ} {e : Extremes} (h : Found values r e)
    (hall : ∀ i < r, ∀ value, values[i]? = some value → e.lowest ≤ value ∧ value ≤ e.highest) :
    e.highest = e.lowest ↔ ∀ a ∈ values.take r, ∀ b ∈ values.take r, a = b := by
  obtain ⟨⟨i, hi, hlowest⟩, hhighest, hinside⟩ := h
  constructor
  · intro heq a ha b hb
    obtain ⟨m, hm, ha⟩ := List.mem_take_iff_getElem.1 ha
    obtain ⟨n, hn, hb⟩ := List.mem_take_iff_getElem.1 hb
    have hboundA := hall m (by omega) a (List.getElem?_eq_some_iff.2 ⟨by omega, ha⟩)
    have hboundB := hall n (by omega) b (List.getElem?_eq_some_iff.2 ⟨by omega, hb⟩)
    linarith
  · intro hsame
    have hmem {j : ℕ} {value : ℚ} (hj : j < r) (hget : values[j]? = some value) :
        value ∈ values.take r :=
      List.mem_of_getElem? (by rw [List.getElem?_take_of_lt hj, hget])
    exact hsame _ (hmem hinside hhighest) _ (hmem hi hlowest)

/-- After its first measurement the queue is too long, and the offset saved is the lowest height of
the last `r` where the report names the highest, so that they agree only if all are the same. -/
theorem setToolOffset_never_wellMeasured (hqueue : s.tlMczValues = List.replicate maxTlMczValues 0)
    (href : s.refToolMz < 1) (hrun : measureAll s calls = some t) (hr : 1 ≤ r)
    (hearlier : r - 1 ≤ calls.length) :
    ∃ outcome, setToolOffset t ⟨height, true⟩ r = some outcome ∧ ¬ WellMeasured r outcome ∧
      outcome.state.tlMczValues.length = maxTlMczValues + calls.length + 1 ∧
      (outcome.report.isSome ↔ 1 < r) ∧
      ∀ report, outcome.report = some report →
        (outcome.state.tlMczValues[r - report.used]? =
            some (outcome.state.toolOffset + outcome.state.refToolMz) ↔
          ∀ a ∈ (height :: (calls.map Prod.fst).reverse).take r,
            ∀ b ∈ (height :: (calls.map Prod.fst).reverse).take r, a = b) := by
  have hlen : s.tlMczValues.length = maxTlMczValues := by rw [hqueue, List.length_replicate]
  obtain ⟨hreft, hvalues⟩ := measureAll_spec href hlen.ge hrun
  have hlent : t.tlMczValues.length = calls.length + maxTlMczValues := by
    rw [hvalues, List.length_append, List.length_reverse, List.length_map, hlen]
  obtain ⟨e, he, hfound, hall⟩ :=
    @measureExtremes_spec r (height :: t.tlMczValues) hr (by rw [List.length_cons]; omega)
  have hsize : (height :: t.tlMczValues).length = maxTlMczValues + calls.length + 1 := by
    rw [List.length_cons, hlent, Nat.add_comm calls.length]
  -- Heights are put in front, so the ones of this tool are the first of the list, before the zeros.
  refine ⟨_, setToolOffset_eq (hreft ▸ href) (by omega) he, ?_, hsize, ?_, ?_⟩
  · rintro ⟨hle, -⟩
    have hle' : (height :: t.tlMczValues).length ≤ maxTlMczValues := hle
    omega
  · simp
  · intro report hreport
    obtain ⟨-, rfl⟩ : 1 < r ∧ tloReport t r e = report := by simpa using hreport
    have htake : (height :: (calls.map Prod.fst).reverse).take r =
        (height :: t.tlMczValues).take r := by
      rw [hvalues, ← List.cons_append, List.take_append_of_le_length]
      rw [List.length_cons, List.length_reverse, List.length_map]
      omega
    rw [htake, ← found_eq_iff hfound hall]
    have hindex : r - (tloReport t r e).used = e.indexHighest := by
      have hinside := hfound.inside
      change r - (r - e.indexHighest) = e.indexHighest
      omega
    change (height :: t.tlMczValues)[r - (tloReport t r e).used]? =
      some (e.lowest - t.refToolMz + t.refToolMz) ↔ _
    rw [hindex, hfound.highest, sub_add_cancel, Option.some.injEq]

end history

/-- After one measurement at -50. -/
def measuredOnce : ToolOffset where
  refToolMz := -60
  curToolMz := -50
  toolOffset := 10
  tlMczValues := [-50, 0, 0, 0, 0, 0]

theorem setToolOffset_never_wellMeasured_second :
    ∃ outcome, setToolOffset measuredOnce ⟨-49, true⟩ 2 = some outcome ∧ ¬ WellMeasured 2 outcome ∧
      outcome.state.tlMczValues.length = maxTlMczValues + 1 + 1 ∧
      (outcome.report.isSome ↔ 1 < 2) ∧
      ∀ report, outcome.report = some report →
        (outcome.state.tlMczValues[2 - report.used]? =
            some (outcome.state.toolOffset + outcome.state.refToolMz) ↔
          ∀ a ∈ ([-49, -50] : List ℚ).take 2, ∀ b ∈ ([-49, -50] : List ℚ).take 2, a = b) :=
  @setToolOffset_never_wellMeasured { refToolMz := -60 } measuredOnce [(-50, 1)] (-49) 2 rfl
    (by decide +kernel) (by decide +kernel) (by decide) (by decide)

/-- Measurements at -50 and -49: the offset is that of the first, the report names the second, and
the queue holds seven heights. -/
theorem setToolOffset_uses_lowest :
    measureAll { refToolMz := -60 } [(-50, 1)] = some measuredOnce ∧
      (setToolOffset measuredOnce ⟨-49, true⟩ 2).map (fun outcome =>
        (outcome.state.toolOffset, outcome.report.map fun report => (report.used, report.usedValue),
          outcome.state.tlMczValues.length)) = some (10, some (2, 11), 7) := by
  decide +kernel

end CarveraFirmware.Tools
