import Mathlib
import CarveraFirmware.Robot.Milestone

/-!
# Speed limits

The rate of a planned block in closed form, and when it is within the limits of the axes, the path
and the motors.
-/

namespace CarveraFirmware.Robot

namespace Machine

variable {K : Type} [Field K] [LinearOrder K] (m : Machine K) (move : Move K)

/-- The rates of X, Y and Z and of the path are within their limits. -/
def WithinPath (rate : K) : Prop :=
  (∀ i ∈ Axis.primary, 0 < m.maxSpeeds i →
    |move.deltas i| * rate / move.distance ≤ m.maxSpeeds i) ∧
  (0 < m.maxSpeed → rate ≤ m.maxSpeed)

/-- The rate of a motor is within its limit. -/
def WithinActuator (rate : K) (i : Axis) : Prop :=
  m.Moves move i → m.travel move i * rate / move.distance ≤ (m.actuators i).maxRate

def WithinLimits (rate : K) : Prop :=
  (∀ i ∈ Axis.motors, m.WithinActuator move rate i) ∧
    (move.auxilliary = false → m.WithinPath move rate)

/-! ## The condition -/

/-- The rate of the path at which a motor has its full rate. -/
def actuatorLimit (i : Axis) : K := (m.actuators i).maxRate * move.distance / m.travel move i

/-- A rate cut at the limit of a motor that moves. -/
def cutAt (rate : K) (i : Axis) : K :=
  if m.Moves move i then min rate (m.actuatorLimit move i) else rate

/-- The feed within all limits of X, Y, Z and the path. -/
def linearRate (feedRate : K) : K :=
  Axis.primary.foldl (m.cutAt move) (m.limitPath move (m.feed move feedRate))

/-- The rule of the surface applies: a feed move along with the A axis, in millimetres a minute,
whose surface is not as fast as the path. -/
def MatchesSurface (rate : K) : Prop :=
  m.isG123 = true ∧ m.inverseTimeMode = false ∧ 0.001 < |rate * m.surfaceRatio move - rate| ∧
    0.00001 < rate * m.surfaceRatio move

instance (rate : K) : Decidable (m.MatchesSurface move rate) :=
  inferInstanceAs (Decidable (_ ∧ _))

/-- The rate that the A axis leaves, along with others. -/
def surfaceRate (rate : K) : K :=
  min (if m.MatchesSurface move rate then rate / m.surfaceRatio move else rate)
    (m.actuatorLimit move .a)

/-- The A axis has set the rate, and the time of the move to that of its own degrees. -/
def SetByTurn (rate : K) : Prop :=
  m.MatchesSurface move rate ∨ m.actuatorLimit move .a < rate

instance (rate : K) : Decidable (m.SetByTurn move rate) :=
  inferInstanceAs (Decidable (m.MatchesSurface move rate ∨ m.actuatorLimit move .a < rate))

/-- The limit of the B axis as it is taken then: for the degrees of the A axis in place of the
path. -/
def limitByTurn (rate : K) : K :=
  if m.Moves move .b then
    min rate ((m.actuators .b).maxRate * m.travel move .a / m.travel move .b)
  else rate

/-- The A axis does not raise the rate beyond a limit, and the limit of the B axis is taken for no
longer a way than the path, in terms of the rate that comes out. -/
def FinalRateFits (feedRate : K) : Prop :=
  let rate := m.linearRate move feedRate
  if move.auxilliary then
    m.isG123 = true → m.turnRate move rate ≤ rate ∨
      ∀ i, i ≠ .a → m.WithinActuator move (m.turnRate move rate) i
  else
    (m.MatchesSurface move rate →
      m.WithinPath move (m.limitByTurn move (m.surfaceRate move rate)) ∧
      ∀ i ∈ Axis.primary,
        m.WithinActuator move (m.limitByTurn move (m.surfaceRate move rate)) i) ∧
    (m.SetByTurn move rate → m.travel move .a ≤ move.distance ∨
      m.WithinActuator move (m.surfaceRate move rate) .b)

/-- The rates of the path at which X, Y, Z, the path itself or one of their motors has its limit. -/
def linearLimits : List K :=
  (if move.auxilliary then []
    else
      ((Axis.primary.filter fun i => 0 < m.maxSpeeds i ∧ move.deltas i ≠ 0).map fun i =>
        m.maxSpeeds i * move.distance / |move.deltas i|) ++
      (if 0 < m.maxSpeed then [m.maxSpeed] else [])) ++
  (Axis.primary.filter (m.Moves move ·)).map (m.actuatorLimit move)

/-- The feed and those limits. The lowest of these is the rate that comes to the A axis. -/
def linearRates (feedRate : K) : List K := m.feed move feedRate :: m.linearLimits move

/-- The rule of the surface applies to the feed and at each limit. -/
def SurfaceRules (feedRate : K) : Prop := ∀ r ∈ m.linearRates move feedRate, m.MatchesSurface move r

/-- A turn alone does not outrun the motors other than A: its rate is not raised, or A's own limit
holds it back, or the raised rate is within their limits. -/
def TurnAloneFits (feedRate : K) : Prop :=
  m.isG123 = true → m.inverseTimeMode = true ∨ m.degreesPerMm move ≤ 1 ∨
    (∀ r ∈ m.linearRates move feedRate, (m.actuators .a).maxRate ≤ r) ∨
    ∀ i, i ≠ .a → m.Moves move i →
      (m.actuators .a).maxRate ≤ m.actuatorLimit move i ∨
        ∃ r ∈ m.linearRates move feedRate, r * m.degreesPerMm move ≤ m.actuatorLimit move i

/-- A turn along with others does not outrun the path: where the rule of the surface applies, the
surface is no slower than the path, or the feed is so low that raising it for the surface reaches no
limit, or the limit of A, or that of B for the way of A, is below all of them. -/
def PathFits (feedRate : K) : Prop :=
  m.SurfaceRules move feedRate → 1 ≤ m.surfaceRatio move ∨
    (∀ limit ∈ m.linearLimits move, m.feed move feedRate ≤ limit * m.surfaceRatio move) ∨
    (∀ limit ∈ m.linearLimits move, m.actuatorLimit move .a ≤ limit) ∨
    (m.Moves move .b ∧ ∀ limit ∈ m.linearLimits move,
      (m.actuators .b).maxRate * m.travel move .a / m.travel move .b ≤ limit)

/-- Nor does it outrun the B axis: where A has set the time of the move, the way of A is no longer
than the path, or the limit of A or the rate for the surface is within that of B. -/
def BesideFits (feedRate : K) : Prop :=
  m.SurfaceRules move feedRate ∨
      (∀ r ∈ m.linearRates move feedRate, m.actuatorLimit move .a < r) →
    m.travel move .a ≤ move.distance ∨ (m.Moves move .b →
      m.actuatorLimit move .a ≤ m.actuatorLimit move .b ∨
        (m.SurfaceRules move feedRate ∧ ∃ r ∈ m.linearRates move feedRate,
          r ≤ m.actuatorLimit move .b * m.surfaceRatio move))

/-- The A axis does not raise the rate beyond a limit, in terms of the feed, the way and the radius of
the turn, and the limits. -/
def TurnFits (feedRate : K) : Prop :=
  feedRate < 0 ∨ ¬ m.Moves move .a ∨
    if move.auxilliary then m.TurnAloneFits move feedRate
    else m.PathFits move feedRate ∧ m.BesideFits move feedRate

/-! ## The limits of the path -/

set_option linter.unusedSectionVars false

variable [IsStrictOrderedRing K] {m} {move} {rate rate' : K}

theorem limitAxis_le (hrate : 0 ≤ rate) (i : Axis) :
    0 ≤ m.limitAxis move rate i ∧ m.limitAxis move rate i ≤ rate := by
  rw [limitAxis]
  split
  · rename_i hlimit
    have hspeed := hlimit.1.trans hlimit.2
    refine ⟨by have := hlimit.1; positivity, mul_le_of_le_one_right hrate ?_⟩
    exact (div_le_one hspeed).mpr hlimit.2.le
  · exact ⟨hrate, le_rfl⟩

theorem limitAxis_nonpos (hrate : rate ≤ 0) (i : Axis) : m.limitAxis move rate i ≤ 0 := by
  rw [limitAxis]
  split
  · rename_i hlimit
    exact mul_nonpos_of_nonpos_of_nonneg hrate (by have := hlimit.1; positivity)
  · exact hrate

/-- The rate is zero or less, and the loop over the motors leaves it there. -/
theorem limitPath_nonpos (m : Machine K) (move : Move K) (hrate : rate ≤ 0) : m.limitPath move rate ≤ 0 := by
  have hz : Axis.primary.foldl (m.limitAxis move) rate ≤ 0 :=
    limitAxis_nonpos (limitAxis_nonpos (limitAxis_nonpos hrate .x) .y) .z
  rw [limitPath]
  split
  · exact hrate
  · exact (if_neg fun h => (hz.trans_lt h.1).not_gt h.2).trans_le hz

section
variable (hdistance : 0 < move.distance)
include hdistance

theorem limitAxis_within (hrate : 0 ≤ rate) (i : Axis) (hpos : 0 < m.maxSpeeds i) :
    |move.deltas i| * m.limitAxis move rate i / move.distance ≤ m.maxSpeeds i := by
  have hspeed : |move.deltas i / move.distance * rate| =
      |move.deltas i| * rate / move.distance := by
    rw [abs_mul, abs_div, abs_of_pos hdistance, abs_of_nonneg hrate, div_mul_eq_mul_div]
  rw [limitAxis, hspeed]
  split
  · rename_i hlimit
    have hpos' := hlimit.1.trans hlimit.2
    have hfull : |move.deltas i| * (rate * (m.maxSpeeds i / (|move.deltas i| * rate / move.distance)))
        / move.distance = |move.deltas i| * rate / move.distance *
          (m.maxSpeeds i / (|move.deltas i| * rate / move.distance)) := by ring
    rw [hfull]
    exact (mul_div_cancel₀ _ hpos'.ne').le
  · rename_i hlimit
    exact not_lt.mp fun hlt => hlimit ⟨hpos, hlt⟩

theorem axis_within_of_le {i : Axis} (hle : rate' ≤ rate)
    (h : |move.deltas i| * rate / move.distance ≤ m.maxSpeeds i) :
    |move.deltas i| * rate' / move.distance ≤ m.maxSpeeds i := by
  refine le_trans ?_ h
  gcongr

theorem WithinPath.of_le (h : m.WithinPath move rate) (hle : rate' ≤ rate) :
    m.WithinPath move rate' :=
  ⟨fun i hi hpos => axis_within_of_le hdistance hle (h.1 i hi hpos),
    fun hpos => hle.trans (h.2 hpos)⟩

theorem WithinActuator.of_le {i : Axis} (h : m.WithinActuator move rate i) (hle : rate' ≤ rate) :
    m.WithinActuator move rate' i := by
  intro hi
  have htravel : 0 ≤ m.travel move i := abs_nonneg _
  refine le_trans ?_ (h hi)
  gcongr

theorem limitPath_within (hrate : 0 ≤ rate) :
    0 ≤ m.limitPath move rate ∧
      (move.auxilliary = false → m.WithinPath move (m.limitPath move rate)) := by
  rw [limitPath]
  split
  · rename_i haux
    exact ⟨hrate, fun haux' => absurd (haux.symm.trans haux') nofun⟩
  · obtain ⟨hx, hx'⟩ := limitAxis_le hrate .x
    obtain ⟨hy, hy'⟩ := limitAxis_le hx .y
    obtain ⟨hz, hz'⟩ := limitAxis_le hy .z
    have hfinal : 0 ≤ Axis.primary.foldl (m.limitAxis move) rate := hz
    -- the limit of an axis still holds when the next ones have lowered the rate
    have haxes (rate' : K) (hle : rate' ≤ Axis.primary.foldl (m.limitAxis move) rate) :
        ∀ i ∈ Axis.primary, 0 < m.maxSpeeds i →
          |move.deltas i| * rate' / move.distance ≤ m.maxSpeeds i := by
      intro i hi hpos
      simp only [Axis.primary, List.mem_cons, List.not_mem_nil, or_false] at hi
      obtain rfl | rfl | rfl := hi
      · exact axis_within_of_le hdistance (le_trans hle (hz'.trans hy'))
          (limitAxis_within hdistance hrate .x hpos)
      · exact axis_within_of_le hdistance (le_trans hle hz') (limitAxis_within hdistance hx .y hpos)
      · exact axis_within_of_le hdistance hle (limitAxis_within hdistance hy .z hpos)
    dsimp only
    split
    · rename_i hspeed
      exact ⟨hspeed.1.le, fun _ => ⟨haxes _ hspeed.2.le, fun _ => le_rfl⟩⟩
    · rename_i hspeed
      exact ⟨hfinal, fun _ => ⟨haxes _ le_rfl, fun hpos =>
        not_lt.mp fun hlt => hspeed ⟨hpos, hlt⟩⟩⟩

end

theorem limitPath_le (hrate : 0 ≤ rate) : m.limitPath move rate ≤ rate := by
  have haxis (i : Axis) {rate : K} (hrate : 0 ≤ rate) :
      0 ≤ m.limitAxis move rate i ∧ m.limitAxis move rate i ≤ rate := limitAxis_le hrate i
  obtain ⟨hx, hx'⟩ := haxis .x hrate
  obtain ⟨hy, hy'⟩ := haxis .y hx
  obtain ⟨-, hz'⟩ := haxis .z hy
  have hall : Axis.primary.foldl (m.limitAxis move) rate ≤ rate := hz'.trans (hy'.trans hx')
  rw [limitPath]
  split
  · exact le_rfl
  · dsimp only
    split
    · rename_i hspeed
      exact hspeed.2.le.trans hall
    · exact hall

/-! ## One motor -/

/-- The rate, and the time that a way takes with it. -/
def Takes (speed : Speed K) (rate way : K) : Prop :=
  speed.rate = rate ∧ speed.isecs = way / rate

theorem Moves.travel_pos {i : Axis} (h : m.Moves move i) : 0 < m.travel move i :=
  lt_of_lt_of_le (by norm_num) h.2

variable {speed : Speed K} {way : K} {i : Axis}

theorem limitAcceleration_rate (speed : Speed K) :
    (m.limitAcceleration move i speed).rate = speed.rate := by
  rw [limitAcceleration]
  split <;> rfl

theorem Takes.limitAcceleration (h : Takes speed rate way) :
    Takes (m.limitAcceleration move i speed) rate way := by
  rw [Machine.limitAcceleration]
  split
  · exact h
  · exact h

theorem Takes.div_isecs (h : Takes speed rate way) (d : K) : d / speed.isecs = d * rate / way := by
  rw [h.2, div_div_eq_mul_div]

/-- A motor is too fast for a way exactly if the rate is above the one where it has its limit. -/
theorem maxRate_lt_iff (rate : K) (hway : 0 < way) (hmoves : m.Moves move i) :
    (m.actuators i).maxRate < m.travel move i * rate / way ↔
      (m.actuators i).maxRate * way / m.travel move i < rate := by
  rw [lt_div_iff₀ hway, div_lt_iff₀ (Moves.travel_pos hmoves), mul_comm rate]

/-- The limit of a motor, taken for a way. -/
theorem limitRate_eq (h : speed.rate = rate) (hway : 0 < way) (hmoves : m.Moves move i) :
    (m.limitRate move i speed (m.travel move i * rate / way)).rate =
        min rate ((m.actuators i).maxRate * way / m.travel move i) ∧
      (m.limitRate move i speed (m.travel move i * rate / way)).isecs =
        if (m.actuators i).maxRate * way / m.travel move i < rate then
          (if i = .a ∧ ¬ move.auxilliary then m.travel move i else move.distance) /
            min rate ((m.actuators i).maxRate * way / m.travel move i)
        else speed.isecs := by
  have htravel := Moves.travel_pos hmoves
  have hiff := maxRate_lt_iff rate hway hmoves
  rw [limitRate]
  by_cases hlt : (m.actuators i).maxRate * way / m.travel move i < rate
  · have hpos : 0 < rate := lt_of_le_of_lt (by have := (m.actuators i).maxRate_pos; positivity) hlt
    have hcut : speed.rate * ((m.actuators i).maxRate / (m.travel move i * rate / way)) =
        (m.actuators i).maxRate * way / m.travel move i := by
      rw [h]
      field_simp
    rw [if_pos (hiff.mpr hlt), if_pos hlt, min_eq_right hlt.le]
    exact ⟨hcut, congrArg _ hcut⟩
  · rw [if_neg (hiff.not.mpr hlt), if_neg hlt, min_eq_left (not_lt.mp hlt)]
    exact ⟨h, rfl⟩

/-- A motor other than the A axis leaves the rate at its limit, for the path. -/
theorem Takes.limitActuator (h : Takes speed rate move.distance) (hdistance : 0 < move.distance)
    (hmoves : m.Moves move i) (hi : ¬ (i = .a ∧ ¬ move.auxilliary)) :
    Takes (m.limitActuator move i speed (m.travel move i / speed.isecs))
      (m.cutAt move rate i) move.distance := by
  obtain ⟨hnew, htime⟩ := limitRate_eq h.1 hdistance hmoves
  rw [h.div_isecs, cutAt, if_pos hmoves, actuatorLimit]
  refine Takes.limitAcceleration ⟨hnew, htime.trans ?_⟩
  rw [if_neg hi]
  split
  · rfl
  · rename_i hlt
    rw [min_eq_left (not_lt.mp hlt)]
    exact h.2

theorem Takes.checkActuator (m : Machine K) (h : Takes speed rate move.distance)
    (hdistance : 0 < move.distance) (hi : i ≠ .a) :
    Takes (m.checkActuator move speed i) (m.cutAt move rate i) move.distance := by
  rw [Machine.checkActuator]
  by_cases hmoves : m.Moves move i
  · rw [if_neg (not_not.mpr hmoves), if_neg fun h => hi h.1]
    exact h.limitActuator hdistance hmoves fun h => hi h.1
  · rw [if_pos hmoves, cutAt, if_neg hmoves]
    exact h

theorem cutAt_nonneg (hdistance : 0 < move.distance) (hrate : 0 ≤ rate) :
    0 ≤ m.cutAt move rate i := by
  rw [cutAt]
  split
  · rename_i hmoves
    have := Moves.travel_pos hmoves
    have := (m.actuators i).maxRate_pos
    exact le_min hrate (by rw [actuatorLimit]; positivity)
  · exact hrate

theorem cutAt_le : m.cutAt move rate i ≤ rate := by
  rw [cutAt]
  split
  · exact min_le_left _ _
  · exact le_rfl

theorem withinActuator_iff (hdistance : 0 < move.distance) :
    m.WithinActuator move rate i ↔ (m.Moves move i → rate ≤ m.actuatorLimit move i) := by
  refine forall_congr' fun hmoves => ?_
  rw [actuatorLimit, div_le_iff₀ hdistance, le_div_iff₀ (Moves.travel_pos hmoves),
    mul_comm rate]

theorem cutAt_within (hdistance : 0 < move.distance) :
    m.WithinActuator move (m.cutAt move rate i) i := by
  rw [withinActuator_iff hdistance]
  intro hmoves
  rw [cutAt, if_pos hmoves]
  exact min_le_right _ _

/-! ## X, Y and Z -/

variable {feedRate : K}

/-- The speed when the loop comes to the A axis. -/
def linearSpeed (m : Machine K) (move : Move K) (feedRate : K) : Speed K :=
  Axis.primary.foldl (m.checkActuator move) (m.startSpeed move feedRate)

theorem feed_nonneg (hdistance : 0 < move.distance) (hfeed : 0 ≤ feedRate) :
    0 ≤ m.feed move feedRate := by
  have := m.secondsPerMinute_pos
  rw [feed]
  split <;> positivity

theorem linearSpeed_takes (m : Machine K) (hdistance : 0 < move.distance) (feedRate : K) :
    Takes (m.linearSpeed move feedRate) (m.linearRate move feedRate) move.distance := by
  have hstart : Takes (m.startSpeed move feedRate) (m.limitPath move (m.feed move feedRate))
      move.distance := ⟨rfl, rfl⟩
  have hx := hstart.checkActuator (i := .x) m hdistance nofun
  have hy := hx.checkActuator (i := .y) m hdistance nofun
  exact hy.checkActuator (i := .z) m hdistance nofun

theorem linearRate_within (hdistance : 0 < move.distance) (hfeed : 0 ≤ feedRate) :
    0 ≤ m.linearRate move feedRate ∧
      (move.auxilliary = false → m.WithinPath move (m.linearRate move feedRate)) ∧
      ∀ i ∈ Axis.primary, m.WithinActuator move (m.linearRate move feedRate) i := by
  obtain ⟨hpath, hwithin⟩ := limitPath_within (m := m) hdistance
    (feed_nonneg (m := m) hdistance hfeed)
  have hx := cutAt_nonneg (m := m) (i := .x) hdistance hpath
  have hy := cutAt_nonneg (m := m) (i := .y) hdistance hx
  have hz := cutAt_nonneg (m := m) (i := .z) hdistance hy
  refine ⟨hz, fun haux => WithinPath.of_le hdistance (hwithin haux) ?_, ?_⟩
  · exact cutAt_le.trans (cutAt_le.trans cutAt_le)
  · intro i hi
    simp only [Axis.primary, List.mem_cons, List.not_mem_nil, or_false] at hi
    obtain rfl | rfl | rfl := hi
    · exact WithinActuator.of_le hdistance (cutAt_within hdistance) (cutAt_le.trans cutAt_le)
    · exact WithinActuator.of_le hdistance (cutAt_within hdistance) cutAt_le
    · exact cutAt_within hdistance

/-! ## The A axis -/

theorem perimeter_pos (m : Machine K) (move : Move K) : 0 < m.perimeter move := by
  have hpi : (0 : K) < floatPi K := by rw [floatPi]; positivity
  unfold perimeter
  extract_lets position rotationRadius
  by_cases hradius : 0.1 < rotationRadius
  · have hpos := lt_trans (by norm_num : (0 : K) < 0.1) hradius
    rw [if_pos hradius]
    positivity
  · rw [if_neg hradius]
    positivity

theorem matchSurface_eq (h : Takes speed rate move.distance) (hg : m.isG123 = true) :
    (m.matchSurface move speed (m.travel move .a / speed.isecs)).2 =
        m.travel move .a *
          (if m.MatchesSurface move rate then rate / m.surfaceRatio move else rate) / move.distance ∧
      Takes (m.matchSurface move speed (m.travel move .a / speed.isecs)).1
        (if m.MatchesSurface move rate then rate / m.surfaceRatio move else rate)
        (if m.MatchesSurface move rate then m.travel move .a else move.distance) := by
  have hsurface : m.travel move .a * rate / move.distance * m.perimeter move / 360 =
      rate * m.surfaceRatio move := by
    rw [surfaceRatio]
    ring
  rw [matchSurface, h.div_isecs, hsurface, h.1]
  by_cases hmatch : m.MatchesSurface move rate
  · have ⟨_, hmode, hfar, hfast⟩ := hmatch
    have hne : rate * m.surfaceRatio move ≠ 0 := (lt_trans (by norm_num) hfast).ne'
    have hrate : rate * (rate / (rate * m.surfaceRatio move)) = rate / m.surfaceRatio move := by
      have := left_ne_zero_of_mul hne
      have := right_ne_zero_of_mul hne
      field_simp
    rw [if_pos hmatch, if_pos hmatch, if_pos ⟨by simp [hmode], hfar, hfast⟩]
    refine ⟨?_, hrate, congrArg _ hrate⟩
    rw [← hrate]
    ring
  · rw [if_neg hmatch, if_neg hmatch, if_neg]
    · exact ⟨rfl, h⟩
    · rintro ⟨hmode, hfar, hfast⟩
      exact hmatch ⟨hg, by simpa using hmode, hfar, hfast⟩

theorem checkActuator_turn (hmoves : m.Moves move .a) (hg : m.isG123 = true)
    (haux : move.auxilliary = false) :
    m.checkActuator move speed .a =
      m.limitActuator move .a (m.matchSurface move speed (m.travel move .a / speed.isecs)).1
        (m.matchSurface move speed (m.travel move .a / speed.isecs)).2 := by
  rw [checkActuator, if_neg (not_not.mpr hmoves), if_pos ⟨rfl, hg⟩, if_neg (by simp [haux])]

/-- The A axis along with others. -/
theorem Takes.checkTurn (h : Takes speed rate move.distance) (hdistance : 0 < move.distance)
    (hmoves : m.Moves move .a) (haux : move.auxilliary = false) :
    Takes (m.checkActuator move speed .a) (m.surfaceRate move rate)
      (if m.SetByTurn move rate then m.travel move .a else move.distance) := by
  have hturn : Axis.a = .a ∧ ¬ move.auxilliary := ⟨rfl, by simp [haux]⟩
  have hunset (hmatch : ¬ m.MatchesSurface move rate)
      (hlt : ¬ m.actuatorLimit move .a < rate) : ¬ m.SetByTurn move rate := not_or.mpr ⟨hmatch, hlt⟩
  rw [surfaceRate]
  -- G0 has no rule for the surface, so only the limit of A can set the rate there.
  by_cases hg : m.isG123 = true
  · obtain ⟨hactual, hmatched⟩ := matchSurface_eq h hg
    obtain ⟨hnew, htime⟩ := limitRate_eq hmatched.1 hdistance hmoves
    rw [checkActuator_turn hmoves hg haux, Machine.limitActuator, hactual]
    refine Takes.limitAcceleration ⟨hnew, htime.trans ?_⟩
    rw [if_pos hturn, hmatched.2, ← actuatorLimit]
    by_cases hmatch : m.MatchesSurface move rate
    · rw [if_pos hmatch, if_pos hmatch, if_pos (show m.SetByTurn move rate from .inl hmatch)]
      split
      · rfl
      · rename_i hlt
        rw [min_eq_left (not_lt.mp hlt)]
    · rw [if_neg hmatch, if_neg hmatch]
      split
      · rename_i hlt
        rw [if_pos (show m.SetByTurn move rate from .inr hlt)]
      · rename_i hlt
        rw [if_neg (hunset hmatch hlt), min_eq_left (not_lt.mp hlt)]
  · obtain ⟨hnew, htime⟩ := limitRate_eq h.1 hdistance hmoves
    have hmatch : ¬ m.MatchesSurface move rate := fun hmatch => hg hmatch.1
    rw [Machine.checkActuator, if_neg (not_not.mpr hmoves), if_neg fun h => hg h.2,
      Machine.limitActuator, h.div_isecs]
    refine Takes.limitAcceleration ⟨hnew.trans (by rw [if_neg hmatch, actuatorLimit]),
      htime.trans ?_⟩
    rw [if_pos hturn, ← actuatorLimit, if_neg hmatch]
    split
    · rename_i hlt
      rw [if_pos (show m.SetByTurn move rate from .inr hlt)]
    · rename_i hlt
      rw [if_neg (hunset hmatch hlt), min_eq_left (not_lt.mp hlt)]
      exact h.2

/-! ## The B axis -/

/-- The limit of the B axis behind a turn of the A axis that has set the rate. -/
theorem Takes.checkBehindTurn (h : Takes speed rate (m.travel move .a))
    (hmoves : m.Moves move .a) :
    (m.checkActuator move speed .b).rate = m.limitByTurn move rate := by
  rw [Machine.checkActuator, limitByTurn]
  by_cases hb : m.Moves move .b
  · rw [if_neg (not_not.mpr hb), if_pos hb, if_neg (by simp), Machine.limitActuator,
      limitAcceleration_rate, h.div_isecs]
    exact (limitRate_eq h.1 (Moves.travel_pos hmoves) hb).1
  · rw [if_pos hb, if_neg hb]
    exact h.1

theorem ite_lt_eq_min (a b : K) : (if b < a then b else a) = min a b := by
  split
  · rename_i hlt
    exact (min_eq_right hlt.le).symm
  · rename_i hlt
    exact (min_eq_left (not_lt.mp hlt)).symm

theorem turnOnly_rate (hrate : 0 ≤ speed.rate) :
    (m.turnOnly move speed).rate = m.turnRate move speed.rate := by
  have hperimeter := perimeter_pos m move
  have hraised : (if ¬ m.inverseTimeMode ∧ m.perimeter move * (speed.rate / 360) < speed.rate then
      speed.rate * (speed.rate / (m.perimeter move * (speed.rate / 360))) else speed.rate) =
      if m.inverseTimeMode = false ∧ m.perimeter move < 360 then
        speed.rate * 360 / m.perimeter move else speed.rate := by
    obtain hzero | hpos := hrate.eq_or_lt
    · simp [← hzero]
    · have hiff : m.perimeter move * (speed.rate / 360) < speed.rate ↔ m.perimeter move < 360 := by
        rw [← mul_div_assoc, div_lt_iff₀ (by norm_num), mul_comm, mul_lt_mul_iff_right₀ hpos]
      have hratio : speed.rate * (speed.rate / (m.perimeter move * (speed.rate / 360))) =
          speed.rate * 360 / m.perimeter move := by
        field_simp
      rw [hratio]
      simp only [hiff, Bool.not_eq_true]
  have hturn : (m.turnOnly move speed).rate =
      if (m.actuators .a).maxRate < (if ¬ m.inverseTimeMode ∧
          m.perimeter move * (speed.rate / 360) < speed.rate then
        speed.rate * (speed.rate / (m.perimeter move * (speed.rate / 360))) else speed.rate) then
        (m.actuators .a).maxRate
      else (if ¬ m.inverseTimeMode ∧ m.perimeter move * (speed.rate / 360) < speed.rate then
        speed.rate * (speed.rate / (m.perimeter move * (speed.rate / 360))) else speed.rate) := rfl
  rw [hturn, hraised, turnRate]
  exact ite_lt_eq_min _ _

/-- A turn alone, and the limit of the B axis behind it, for the rate before the turn. -/
theorem Takes.checkTurnOnly (h : Takes speed rate move.distance) (hdistance : 0 < move.distance)
    (hrate : 0 ≤ rate) (hmoves : m.Moves move .a) (haux : move.auxilliary = true)
    (hg : m.isG123 = true) :
    (m.checkActuator move (m.checkActuator move speed .a) .b).rate =
      if m.Moves move .b ∧ m.actuatorLimit move .b < rate then
        m.turnRate move rate * (m.actuatorLimit move .b / rate)
      else m.turnRate move rate := by
  have hturn : m.checkActuator move speed .a = m.turnOnly move speed := by
    rw [Machine.checkActuator, if_neg (not_not.mpr hmoves), if_pos ⟨rfl, hg⟩, if_pos haux]
  have hnew : (m.turnOnly move speed).rate = m.turnRate move rate := by
    rw [turnOnly_rate (h.1 ▸ hrate), h.1]
  have htime : (m.turnOnly move speed).isecs = move.distance / rate := h.2
  rw [hturn]
  by_cases hb : m.Moves move .b
  · have htravel := Moves.travel_pos hb
    have hiff := maxRate_lt_iff rate hdistance hb
    rw [← actuatorLimit] at hiff
    rw [Machine.checkActuator, if_neg (not_not.mpr hb), if_neg (by simp), Machine.limitActuator,
      limitAcceleration_rate, htime, div_div_eq_mul_div, Machine.limitRate]
    -- B is checked against the time from before the rate was raised
    by_cases hlt : m.actuatorLimit move .b < rate
    · have hcut : (m.actuators .b).maxRate / (m.travel move .b * rate / move.distance) =
          m.actuatorLimit move .b / rate := by
        rw [actuatorLimit]
        field_simp
      rw [if_pos (hiff.mpr hlt)]
      refine Eq.trans ?_ (if_pos ⟨hb, hlt⟩).symm
      rw [← hcut, ← hnew]
    · rw [if_neg (hiff.not.mpr hlt), if_neg fun h => hlt h.2]
      exact hnew
  · rw [Machine.checkActuator, if_pos hb, if_neg fun h => hb h.1]
    exact hnew

/-! ## Within the limits -/

theorem turnRate_nonneg (m : Machine K) (move : Move K) (hrate : 0 ≤ rate) : 0 ≤ m.turnRate move rate := by
  have := perimeter_pos m move
  refine le_min ?_ (m.actuators .a).maxRate_pos.le
  split <;> positivity

theorem forall_motors_iff (P : Axis → Prop) :
    (∀ i ∈ Axis.motors, P i) ↔ (∀ i ∈ Axis.primary, P i) ∧ P .a ∧ P .b := by
  simp [Axis.motors, Axis.primary, and_assoc]

theorem findSpeed_eq (m : Machine K) (move : Move K) (feedRate : K) :
    m.findSpeed move feedRate =
      m.checkActuator move (m.checkActuator move (m.linearSpeed move feedRate) .a) .b := rfl

variable (hdistance : 0 < move.distance) (hfeed : 0 ≤ feedRate)
include hdistance hfeed

/-- A turn alone. -/
theorem turnOnly_within_iff (hmoves : m.Moves move .a) (haux : move.auxilliary = true)
    (hg : m.isG123 = true) (htravel : m.travel move .a ≤ move.distance) :
    m.WithinLimits move (m.findSpeed move feedRate).rate ↔
      m.turnRate move (m.linearRate move feedRate) ≤ m.linearRate move feedRate ∨
        ∀ i, i ≠ .a → m.WithinActuator move (m.turnRate move (m.linearRate move feedRate)) i := by
  obtain ⟨hrate, -, hlinear⟩ := linearRate_within (m := m) hdistance hfeed
  have hspeed :=
    (linearSpeed_takes m hdistance feedRate).checkTurnOnly hdistance hrate hmoves haux hg
  rw [findSpeed_eq, hspeed]
  have hturn := turnRate_nonneg m move hrate
  have hmax : m.turnRate move (m.linearRate move feedRate) ≤ (m.actuators .a).maxRate :=
    min_le_right _ _
  generalize m.linearRate move feedRate = rate at hrate hlinear hturn hmax ⊢
  generalize m.turnRate move rate = turn at hturn hmax ⊢
  have hlimit (hb : m.Moves move .b) : 0 < m.actuatorLimit move .b := by
    have := Moves.travel_pos hb
    have := (m.actuators .b).maxRate_pos
    rw [actuatorLimit]
    positivity
  constructor
  · rintro ⟨hmotors, -⟩
    obtain ⟨hprimary, -, hb⟩ := (forall_motors_iff _).mp hmotors
    by_cases hcut : m.Moves move .b ∧ m.actuatorLimit move .b < rate
    · have hpos := (hlimit hcut.1).trans hcut.2
      rw [if_pos hcut, withinActuator_iff hdistance] at hb
      have hle := hb hcut.1
      rw [mul_div_assoc', div_le_iff₀ hpos, mul_comm] at hle
      exact .inl (le_of_mul_le_mul_left hle (hlimit hcut.1))
    · rw [if_neg hcut] at hprimary hb
      right
      rintro (_ | _ | _ | _ | _) hi
      · exact hprimary .x (by simp [Axis.primary])
      · exact hprimary .y (by simp [Axis.primary])
      · exact hprimary .z (by simp [Axis.primary])
      · exact absurd rfl hi
      · exact hb
  · intro hfits
    -- the limit of the B axis only lowers the rate
    have hfinal : 0 ≤ (if m.Moves move .b ∧ m.actuatorLimit move .b < rate then
          turn * (m.actuatorLimit move .b / rate) else turn) ∧
        (if m.Moves move .b ∧ m.actuatorLimit move .b < rate then
          turn * (m.actuatorLimit move .b / rate) else turn) ≤ turn ∧
        (turn ≤ rate → m.WithinActuator move
          (if m.Moves move .b ∧ m.actuatorLimit move .b < rate then
            turn * (m.actuatorLimit move .b / rate) else turn) .b) := by
      rw [withinActuator_iff hdistance]
      by_cases hcut : m.Moves move .b ∧ m.actuatorLimit move .b < rate
      · have hpos := hlimit hcut.1
        have hrate' := hpos.trans hcut.2
        rw [if_pos hcut]
        refine ⟨by positivity, mul_le_of_le_one_right hturn ((div_le_one hrate').mpr hcut.2.le),
          fun hle _ => ?_⟩
        rw [mul_div_left_comm]
        exact mul_le_of_le_one_right hpos.le ((div_le_one hrate').mpr hle)
      · rw [if_neg hcut]
        refine ⟨hturn, le_rfl, fun hle hb => hle.trans (not_lt.mp fun hlt => hcut ⟨hb, hlt⟩)⟩
    obtain ⟨hnonneg, hle, hb⟩ := hfinal
    refine ⟨(forall_motors_iff _).mpr ⟨fun i hi => ?_, fun _ => ?_, ?_⟩,
      fun haux' => absurd (haux.symm.trans haux') nofun⟩
    · obtain hlow | hwithin := hfits
      · exact WithinActuator.of_le hdistance (hlinear i hi) (hle.trans hlow)
      · refine WithinActuator.of_le hdistance (hwithin i ?_) hle
        rintro rfl
        simp [Axis.primary] at hi
    · rw [mul_div_right_comm]
      exact (mul_le_of_le_one_left hnonneg ((div_le_one hdistance).mpr htravel)).trans
        (hle.trans hmax)
    · obtain hlow | hwithin := hfits
      · exact hb hlow
      · exact WithinActuator.of_le hdistance (hwithin .b nofun) hle

/-- A turn along with others. -/
theorem turn_within_iff (hmoves : m.Moves move .a) (haux : move.auxilliary = false) :
    m.WithinLimits move (m.findSpeed move feedRate).rate ↔
      (m.MatchesSurface move (m.linearRate move feedRate) →
        m.WithinPath move
          (m.limitByTurn move (m.surfaceRate move (m.linearRate move feedRate))) ∧
        ∀ i ∈ Axis.primary, m.WithinActuator move
          (m.limitByTurn move (m.surfaceRate move (m.linearRate move feedRate))) i) ∧
      (m.SetByTurn move (m.linearRate move feedRate) →
        m.travel move .a ≤ move.distance ∨
          m.WithinActuator move (m.surfaceRate move (m.linearRate move feedRate)) .b) := by
  obtain ⟨hrate, hpath, hlinear⟩ := linearRate_within (m := m) hdistance hfeed
  have hturn := (linearSpeed_takes m hdistance feedRate).checkTurn hdistance hmoves haux
  rw [findSpeed_eq]
  generalize m.linearRate move feedRate = rate at hrate hpath hlinear hturn ⊢
  have hlimit : m.surfaceRate move rate ≤ m.actuatorLimit move .a := min_le_right _ _
  have hcalm (hmatch : ¬ m.MatchesSurface move rate) : m.surfaceRate move rate ≤ rate := by
    rw [surfaceRate, if_neg hmatch]
    exact min_le_left _ _
  -- Where the surface rule or the limit of A sets the time, B is checked against the degrees of A.
  by_cases hset : m.SetByTurn move rate
  · rw [if_pos hset] at hturn
    rw [hturn.checkBehindTurn hmoves, imp_iff_right hset]
    have hle : m.limitByTurn move (m.surfaceRate move rate) ≤ m.surfaceRate move rate := by
      rw [limitByTurn]
      split
      · exact min_le_left _ _
      · exact le_rfl
    have ha : m.WithinActuator move (m.limitByTurn move (m.surfaceRate move rate)) .a :=
      (withinActuator_iff hdistance).mpr fun _ => hle.trans hlimit
    have hb : m.WithinActuator move (m.limitByTurn move (m.surfaceRate move rate)) .b ↔
        m.travel move .a ≤ move.distance ∨ m.WithinActuator move (m.surfaceRate move rate) .b := by
      rw [withinActuator_iff hdistance, withinActuator_iff hdistance, limitByTurn]
      by_cases hmovesb : m.Moves move .b
      · have hb := Moves.travel_pos hmovesb
        have hmax := (m.actuators .b).maxRate_pos
        rw [imp_iff_right hmovesb, imp_iff_right hmovesb, if_pos hmovesb, min_le_iff, or_comm,
          actuatorLimit, div_le_div_iff_of_pos_right hb, mul_le_mul_iff_right₀ hmax]
      · exact iff_of_true (fun h => absurd h hmovesb) (.inr fun h => absurd h hmovesb)
    rw [WithinLimits, forall_motors_iff, and_iff_right ha, hb, imp_iff_right haux]
    constructor
    · rintro ⟨⟨hprimary, hb⟩, hpath⟩
      exact ⟨fun _ => ⟨hpath, hprimary⟩, hb⟩
    · rintro ⟨hfits, hb⟩
      by_cases hmatch : m.MatchesSurface move rate
      · exact ⟨⟨(hfits hmatch).2, hb⟩, (hfits hmatch).1⟩
      · have hlow := hle.trans (hcalm hmatch)
        exact ⟨⟨fun i hi => WithinActuator.of_le hdistance (hlinear i hi) hlow, hb⟩,
          WithinPath.of_le hdistance (hpath haux) hlow⟩
  · have hmatch : ¬ m.MatchesSurface move rate := fun h => hset (.inl h)
    rw [if_neg hset] at hturn
    obtain ⟨hfinal, -⟩ := hturn.checkActuator (i := .b) m hdistance nofun
    rw [hfinal]
    refine iff_of_true ⟨(forall_motors_iff _).mpr ⟨fun i hi => ?_, ?_, cutAt_within hdistance⟩,
      fun haux => ?_⟩ ⟨fun h => absurd h hmatch, fun h => absurd h hset⟩
    · exact WithinActuator.of_le hdistance (hlinear i hi) (cutAt_le.trans (hcalm hmatch))
    · exact (withinActuator_iff hdistance).mpr fun _ => cutAt_le.trans hlimit
    · exact WithinPath.of_le hdistance (hpath haux) (cutAt_le.trans (hcalm hmatch))

/-- The A axis does not turn in a feed move of its own. -/
theorem still_within (h : ¬ m.Moves move .a ∨ move.auxilliary = true ∧ m.isG123 = false) :
    m.WithinLimits move (m.findSpeed move feedRate).rate := by
  obtain ⟨hrate, hpath, hlinear⟩ := linearRate_within (m := m) hdistance hfeed
  have hspeed := linearSpeed_takes m hdistance feedRate
  have hturn : Takes (m.checkActuator move (m.linearSpeed move feedRate) .a)
      (m.cutAt move (m.linearRate move feedRate) .a) move.distance := by
    rw [Machine.checkActuator]
    by_cases hmoves : m.Moves move .a
    · obtain ⟨haux, hg⟩ := h.resolve_left (not_not.mpr hmoves)
      rw [if_neg (not_not.mpr hmoves), if_neg (by simp [hg])]
      exact hspeed.limitActuator hdistance hmoves (by simp [haux])
    · rw [if_pos hmoves, cutAt, if_neg hmoves]
      exact hspeed
  obtain ⟨hfinal, -⟩ := hturn.checkActuator (i := .b) m hdistance nofun
  rw [findSpeed_eq, hfinal]
  refine ⟨(forall_motors_iff _).mpr ⟨fun i hi => ?_, ?_, cutAt_within hdistance⟩, fun haux => ?_⟩
  · exact WithinActuator.of_le hdistance (hlinear i hi) (cutAt_le.trans cutAt_le)
  · exact WithinActuator.of_le hdistance (cutAt_within hdistance) cutAt_le
  · exact WithinPath.of_le hdistance (hpath haux) (cutAt_le.trans cutAt_le)

/-! ### In terms of the feed and the limits -/

theorem actuatorLimit_pos (hmoves : m.Moves move i) : 0 < m.actuatorLimit move i := by
  have := Moves.travel_pos hmoves
  have := (m.actuators i).maxRate_pos
  rw [actuatorLimit]
  positivity

omit hfeed in
theorem axis_within_iff (haxis : move.deltas i ≠ 0) :
    |move.deltas i| * rate / move.distance ≤ m.maxSpeeds i ↔
      rate ≤ m.maxSpeeds i * move.distance / |move.deltas i| := by
  rw [div_le_iff₀ hdistance, le_div_iff₀ (abs_pos.mpr haxis), mul_comm rate]

omit hfeed in
theorem withinPath_iff :
    m.WithinPath move rate ↔ ∀ limit ∈ ((Axis.primary.filter fun i =>
        0 < m.maxSpeeds i ∧ move.deltas i ≠ 0).map fun i =>
          m.maxSpeeds i * move.distance / |move.deltas i|) ++
        (if 0 < m.maxSpeed then [m.maxSpeed] else []), rate ≤ limit := by
  simp only [List.mem_append, List.mem_map, List.mem_filter, decide_eq_true_eq]
  constructor
  · rintro ⟨haxes, hpath⟩ limit (⟨i, ⟨hi, hpos, hdelta⟩, rfl⟩ | hlimit)
    · exact (axis_within_iff hdistance hdelta).mp (haxes i hi hpos)
    · split at hlimit
      · rename_i hpos
        obtain rfl := List.mem_singleton.mp hlimit
        exact hpath hpos
      · cases hlimit
  · intro h
    refine ⟨fun i hi hpos => ?_, fun hpos => ?_⟩
    · by_cases hdelta : move.deltas i = 0
      · rw [hdelta, abs_zero, zero_mul, zero_div]
        exact hpos.le
      · exact (axis_within_iff hdistance hdelta).mpr (h _ (.inl ⟨i, ⟨hi, hpos, hdelta⟩, rfl⟩))
    · refine h _ (.inr ?_)
      rw [if_pos hpos]
      exact List.mem_cons_self ..

omit hfeed in
/-- A rate is within the limits of X, Y, Z, the path and their motors if it is not above any of
them. -/
theorem withinLinear_iff :
    ((move.auxilliary = false → m.WithinPath move rate) ∧
        ∀ i ∈ Axis.primary, m.WithinActuator move rate i) ↔
      ∀ limit ∈ m.linearLimits move, rate ≤ limit := by
  rw [linearLimits, List.forall_mem_append]
  have hmotors : (∀ i ∈ Axis.primary, m.WithinActuator move rate i) ↔
      ∀ limit ∈ (Axis.primary.filter (m.Moves move ·)).map (m.actuatorLimit move),
        rate ≤ limit := by
    rw [List.forall_mem_map]
    refine forall_congr' fun i => ?_
    rw [List.mem_filter, decide_eq_true_eq, withinActuator_iff hdistance, and_imp]
  refine and_congr ?_ hmotors
  cases haux : move.auxilliary with
  | true => exact iff_of_true nofun fun _ hlimit => nomatch hlimit
  | false => exact ⟨fun h => (withinPath_iff hdistance).mp (h rfl),
      fun h _ => (withinPath_iff hdistance).mpr h⟩

omit hfeed in
theorem limitAxis_eq (hrate : 0 ≤ rate) (i : Axis) :
    m.limitAxis move rate i = rate ∨ (0 < m.maxSpeeds i ∧ move.deltas i ≠ 0) ∧
      m.limitAxis move rate i = m.maxSpeeds i * move.distance / |move.deltas i| := by
  rw [limitAxis]
  split
  · rename_i hlimit
    have hspeed : |move.deltas i / move.distance * rate| = |move.deltas i| * rate / move.distance := by
      rw [abs_mul, abs_div, abs_of_pos hdistance, abs_of_nonneg hrate, div_mul_eq_mul_div]
    have hpos := hlimit.1.trans hlimit.2
    rw [hspeed] at hpos ⊢
    have hrate' : rate ≠ 0 := by
      rintro rfl
      simp at hpos
    have hdelta : move.deltas i ≠ 0 := by
      intro hzero
      simp [hzero] at hpos
    have habs := abs_pos.mpr hdelta
    refine .inr ⟨⟨hlimit.1, hdelta⟩, ?_⟩
    field_simp
  · exact .inl rfl

omit hfeed in
theorem limitPath_mem (hrate : 0 ≤ rate) :
    m.limitPath move rate = rate ∨ m.limitPath move rate ∈ m.linearLimits move := by
  cases haux : move.auxilliary with
  | true =>
    left
    rw [limitPath, haux, if_pos rfl]
  | false =>
    have haxis (i : Axis) (hi : i ∈ Axis.primary) (limit : K) (h : (0 < m.maxSpeeds i ∧
        move.deltas i ≠ 0) ∧ limit = m.maxSpeeds i * move.distance / |move.deltas i|) :
        limit ∈ m.linearLimits move := by
      rw [linearLimits, haux]
      refine List.mem_append_left _ (List.mem_append_left _ (List.mem_map.mpr ⟨i, ?_, h.2.symm⟩))
      rw [List.mem_filter, decide_eq_true_eq]
      exact ⟨hi, h.1⟩
    have hnonneg (i : Axis) {rate : K} (hrate : 0 ≤ rate) : 0 ≤ m.limitAxis move rate i :=
      (limitAxis_le hrate i).1
    have hx := hnonneg .x hrate
    have hy := hnonneg .y hx
    have hall : Axis.primary.foldl (m.limitAxis move) rate = rate ∨
        Axis.primary.foldl (m.limitAxis move) rate ∈ m.linearLimits move := by
      show m.limitAxis move (m.limitAxis move (m.limitAxis move rate .x) .y) .z = rate ∨
        m.limitAxis move (m.limitAxis move (m.limitAxis move rate .x) .y) .z ∈ m.linearLimits move
      -- the last axis that has cut the rate set it to its own limit
      obtain hz | hz := limitAxis_eq hdistance hy .z
      · obtain hy' | hy' := limitAxis_eq hdistance hx .y
        · obtain hx' | hx' := limitAxis_eq hdistance hrate .x
          · exact .inl (hz.trans (hy'.trans hx'))
          · rw [hz, hy']
            exact .inr (haxis .x (by simp [Axis.primary]) _ hx')
        · rw [hz]
          exact .inr (haxis .y (by simp [Axis.primary]) _ hy')
      · exact .inr (haxis .z (by simp [Axis.primary]) _ hz)
    rw [limitPath, haux, if_neg Bool.false_ne_true]
    dsimp only
    split
    · rename_i hspeed
      right
      rw [linearLimits, haux]
      refine List.mem_append_left _ (List.mem_append_right _ ?_)
      rw [if_pos hspeed.1]
      exact List.mem_cons_self ..
    · exact hall

omit hfeed in
theorem cutAt_mem (hi : i ∈ Axis.primary) {rates : List K}
    (hlimits : ∀ limit ∈ m.linearLimits move, limit ∈ rates) (hrate : rate ∈ rates) :
    m.cutAt move rate i ∈ rates := by
  rw [cutAt]
  split
  · rename_i hmoves
    obtain hmin | hmin := min_choice rate (m.actuatorLimit move i)
    · rwa [hmin]
    · rw [hmin]
      refine hlimits _ (List.mem_append_right _ (List.mem_map.mpr ⟨i, ?_, rfl⟩))
      rw [List.mem_filter, decide_eq_true_eq]
      exact ⟨hi, hmoves⟩
  · exact hrate

/-- The rate that comes to the A axis is the lowest of the feed and the limits. -/
theorem linearRate_isLeast :
    (∀ r ∈ m.linearRates move feedRate, m.linearRate move feedRate ≤ r) ∧
      m.linearRate move feedRate ∈ m.linearRates move feedRate := by
  have hpos := feed_nonneg (m := m) hdistance hfeed
  obtain ⟨-, hpath, hmotors⟩ := linearRate_within (m := m) hdistance hfeed
  have hlimits : ∀ limit ∈ m.linearLimits move, limit ∈ m.linearRates move feedRate :=
    fun limit hlimit => List.mem_cons_of_mem _ hlimit
  have hstart : m.limitPath move (m.feed move feedRate) ∈ m.linearRates move feedRate := by
    obtain hsame | hlimit := limitPath_mem (m := m) hdistance hpos
    · rw [hsame]
      exact List.mem_cons_self ..
    · exact hlimits _ hlimit
  constructor
  · rintro r (_ | ⟨_, hr⟩)
    · exact cutAt_le.trans (cutAt_le.trans (cutAt_le.trans (limitPath_le hpos)))
    · exact (withinLinear_iff hdistance).mp ⟨hpath, hmotors⟩ r hr
  · have hx := cutAt_mem hdistance (i := .x) (by simp [Axis.primary]) hlimits hstart
    have hy := cutAt_mem hdistance (i := .y) (by simp [Axis.primary]) hlimits hx
    exact cutAt_mem hdistance (i := .z) (by simp [Axis.primary]) hlimits hy

/-- What holds of the lowest rate and of all higher ones. -/
theorem linearRate_iff (P : K → Prop) (hup : ∀ r r', r ≤ r' → P r → P r') :
    P (m.linearRate move feedRate) ↔ ∀ r ∈ m.linearRates move feedRate, P r := by
  obtain ⟨hle, hmem⟩ := linearRate_isLeast (m := m) hdistance hfeed
  exact ⟨fun h r hr => hup _ r (hle r hr) h, fun h => h _ hmem⟩

/-- What holds of the lowest rate if it holds of any. -/
theorem linearRate_iff_exists (P : K → Prop) (hdown : ∀ r r', r ≤ r' → P r' → P r) :
    P (m.linearRate move feedRate) ↔ ∃ r ∈ m.linearRates move feedRate, P r := by
  obtain ⟨hle, hmem⟩ := linearRate_isLeast (m := m) hdistance hfeed
  exact ⟨fun h => ⟨_, hmem, h⟩, fun ⟨r, hr, h⟩ => hdown _ r (hle r hr) h⟩

theorem surfaceRatio_nonneg : 0 ≤ m.surfaceRatio move := by
  have := perimeter_pos m move
  have : 0 ≤ m.travel move .a := abs_nonneg _
  rw [surfaceRatio]
  positivity

theorem surfaceRules_iff :
    m.MatchesSurface move (m.linearRate move feedRate) ↔ m.SurfaceRules move feedRate := by
  refine linearRate_iff hdistance hfeed (m.MatchesSurface move) fun r r' hle h => ?_
  obtain ⟨hg, hmode, hfar, hfast⟩ := h
  have hratio := surfaceRatio_nonneg (m := m) hdistance hfeed
  refine ⟨hg, hmode, hfar.trans_le ?_, hfast.trans_le (by gcongr)⟩
  have hr : 0 < r := by
    by_contra hr
    exact (lt_trans (by norm_num) hfast).not_ge (mul_nonpos_of_nonpos_of_nonneg (not_lt.mp hr) hratio)
  have hscale (x : K) (hx : 0 < x) : |x * m.surfaceRatio move - x| = x * |m.surfaceRatio move - 1| := by
    rw [← mul_sub_one, abs_mul, abs_of_pos hx]
  rw [hscale r hr, hscale r' (hr.trans_le hle)]
  gcongr

omit hdistance hfeed in
theorem degreesPerMm_pos : 0 < m.degreesPerMm move :=
  div_pos (by norm_num) (perimeter_pos m move)

omit hdistance hfeed in
theorem one_lt_degreesPerMm_iff : 1 < m.degreesPerMm move ↔ m.perimeter move < 360 :=
  one_lt_div (perimeter_pos m move)

/-- The raised rate of a turn alone. -/
theorem turnRate_le_iff (hmode : m.inverseTimeMode = false) (hsmall : 1 < m.degreesPerMm move)
    {limit : K} : m.turnRate move (m.linearRate move feedRate) ≤ limit ↔
      (m.actuators .a).maxRate ≤ limit ∨
        ∃ r ∈ m.linearRates move feedRate, r * m.degreesPerMm move ≤ limit := by
  have hpos : 0 < m.degreesPerMm move := degreesPerMm_pos
  have hrates : m.linearRate move feedRate * m.degreesPerMm move ≤ limit ↔
      ∃ r ∈ m.linearRates move feedRate, r * m.degreesPerMm move ≤ limit :=
    linearRate_iff_exists hdistance hfeed (fun r => r * m.degreesPerMm move ≤ limit)
      fun _ _ hle h => le_trans (by gcongr) h
  rw [turnRate, if_pos ⟨hmode, one_lt_degreesPerMm_iff.mp hsmall⟩, min_le_iff, mul_div_assoc,
    ← degreesPerMm, hrates, or_comm]

theorem turnAloneFits_iff :
    (m.isG123 = true → m.turnRate move (m.linearRate move feedRate) ≤ m.linearRate move feedRate ∨
      ∀ i, i ≠ .a → m.WithinActuator move (m.turnRate move (m.linearRate move feedRate)) i) ↔
    m.TurnAloneFits move feedRate := by
  refine forall_congr' fun _ => ?_
  -- The rate is raised for a small radius in G94 only.
  by_cases hraise : m.inverseTimeMode = false ∧ 1 < m.degreesPerMm move
  · obtain ⟨hmode, hsmall⟩ := hraise
    have hdegrees : 0 < m.degreesPerMm move := degreesPerMm_pos
    obtain ⟨hle, hmem⟩ := linearRate_isLeast (m := m) hdistance hfeed
    have hrate := (linearRate_within (m := m) hdistance hfeed).1
    simp only [hmode, Bool.false_eq_true, hsmall.not_ge, false_or, withinActuator_iff hdistance,
      turnRate_le_iff hdistance hfeed hmode hsmall]
    constructor
    · rintro ((hmax | ⟨r, hr, hlow⟩) | hother)
      · exact .inl fun r hr => hmax.trans (hle r hr)
      · -- a rate that is raised and not above what it was is zero
        have hzero : m.linearRate move feedRate = 0 := by
          by_contra hne
          have hpos := hrate.lt_of_ne' hne
          have hless : m.linearRate move feedRate * 1
              < m.linearRate move feedRate * m.degreesPerMm move := by gcongr
          have hscale : m.linearRate move feedRate * m.degreesPerMm move
              ≤ r * m.degreesPerMm move := by
            have := hle r hr
            gcongr
          rw [mul_one] at hless
          exact (hless.trans_le hscale).not_ge hlow
        refine .inr fun i _ hmoves => .inr ⟨_, hmem, ?_⟩
        have := actuatorLimit_pos hdistance hfeed hmoves
        rw [hzero, zero_mul]
        positivity
      · exact .inr hother
    · rintro (hmax | hother)
      · exact .inl (.inl (hmax _ hmem))
      · exact .inr hother
  · have hsame : m.turnRate move (m.linearRate move feedRate) ≤ m.linearRate move feedRate := by
      rw [turnRate, if_neg (by rwa [one_lt_degreesPerMm_iff] at hraise)]
      exact min_le_left _ _
    refine iff_of_true (.inl hsame) ?_
    obtain hmode | hlarge := not_and_or.mp hraise
    · exact .inl (by simpa using hmode)
    · exact .inr (.inl (not_lt.mp hlarge))

omit hdistance hfeed in
theorem forall_min_le {limits : List K} {a b : K} :
    (∀ limit ∈ limits, min a b ≤ limit) ↔
      (∀ limit ∈ limits, a ≤ limit) ∨ ∀ limit ∈ limits, b ≤ limit := by
  obtain hle | hle := le_total a b
  · rw [min_eq_left hle]
    exact ⟨.inl, fun h => h.elim id fun h limit hlimit => hle.trans (h limit hlimit)⟩
  · rw [min_eq_right hle]
    exact ⟨.inr, fun h => h.elim (fun h limit hlimit => hle.trans (h limit hlimit)) id⟩

/-- The rate for the surface is within the limits of the path. -/
theorem surfaceWithin_iff (hratio : 0 < m.surfaceRatio move) (hrate : 0 < m.linearRate move feedRate) :
    (∀ limit ∈ m.linearLimits move, m.linearRate move feedRate / m.surfaceRatio move ≤ limit) ↔
      1 ≤ m.surfaceRatio move ∨
        ∀ limit ∈ m.linearLimits move, m.feed move feedRate ≤ limit * m.surfaceRatio move := by
  obtain ⟨hle, hmem⟩ := linearRate_isLeast (m := m) hdistance hfeed
  simp only [div_le_iff₀ hratio]
  constructor
  · intro h
    obtain hfeed' | hlimit := List.mem_cons.mp hmem
    · right
      rwa [hfeed'] at h
    · left
      exact le_of_mul_le_mul_left (by simpa using h _ hlimit) hrate
  · rintro (hfast | hslow) limit hlimit
    · have hlow := hle limit (List.mem_cons_of_mem _ hlimit)
      exact hlow.trans (le_mul_of_one_le_right (hrate.le.trans hlow) hfast)
    · exact (hle _ (List.mem_cons_self ..)).trans (hslow limit hlimit)

theorem pathFits_iff (haux : move.auxilliary = false) :
    (m.MatchesSurface move (m.linearRate move feedRate) →
      m.WithinPath move (m.limitByTurn move (m.surfaceRate move (m.linearRate move feedRate))) ∧
      ∀ i ∈ Axis.primary, m.WithinActuator move
        (m.limitByTurn move (m.surfaceRate move (m.linearRate move feedRate))) i) ↔
    m.PathFits move feedRate := by
  rw [PathFits, ← surfaceRules_iff hdistance hfeed]
  refine forall_congr' fun hmatch => ?_
  have hboth (rate : K) : (m.WithinPath move rate ∧
      ∀ i ∈ Axis.primary, m.WithinActuator move rate i) ↔
        ∀ limit ∈ m.linearLimits move, rate ≤ limit := by
    rw [← withinLinear_iff hdistance, imp_iff_right haux]
  have hpos : 0 < m.linearRate move feedRate * m.surfaceRatio move :=
    lt_trans (by norm_num) hmatch.2.2.2
  have hratio := (surfaceRatio_nonneg (m := m) hdistance hfeed).lt_of_ne'
    (right_ne_zero_of_mul hpos.ne')
  have hrate := (linearRate_within (m := m) hdistance hfeed).1.lt_of_ne'
    (left_ne_zero_of_mul hpos.ne')
  rw [hboth, limitByTurn, surfaceRate, if_pos hmatch]
  by_cases hb : m.Moves move .b
  · rw [if_pos hb, forall_min_le, forall_min_le, surfaceWithin_iff hdistance hfeed hratio hrate,
      and_iff_right hb, or_assoc, or_assoc]
  · rw [if_neg hb, forall_min_le, surfaceWithin_iff hdistance hfeed hratio hrate, or_assoc]
    simp only [hb, false_and, or_false]

theorem besideFits_iff :
    (m.SetByTurn move (m.linearRate move feedRate) → m.travel move .a ≤ move.distance ∨
      m.WithinActuator move (m.surfaceRate move (m.linearRate move feedRate)) .b) ↔
    m.BesideFits move feedRate := by
  have hlow : m.actuatorLimit move .a < m.linearRate move feedRate ↔
      ∀ r ∈ m.linearRates move feedRate, m.actuatorLimit move .a < r :=
    linearRate_iff hdistance hfeed (m.actuatorLimit move .a < ·) fun _ _ hle h => h.trans_le hle
  rw [BesideFits, SetByTurn, ← surfaceRules_iff hdistance hfeed, ← hlow,
    withinActuator_iff hdistance, surfaceRate]
  refine forall_congr' fun hset => or_congr_right (forall_congr' fun _ => ?_)
  by_cases hmatch : m.MatchesSurface move (m.linearRate move feedRate)
  · have hratio := (surfaceRatio_nonneg (m := m) hdistance hfeed).lt_of_ne'
      (right_ne_zero_of_mul (lt_trans (by norm_num) hmatch.2.2.2).ne')
    have hrates : m.linearRate move feedRate ≤ m.actuatorLimit move .b * m.surfaceRatio move ↔
        ∃ r ∈ m.linearRates move feedRate, r ≤ m.actuatorLimit move .b * m.surfaceRatio move :=
      linearRate_iff_exists hdistance hfeed (· ≤ m.actuatorLimit move .b * m.surfaceRatio move)
        fun _ _ hle h => hle.trans h
    rw [if_pos hmatch, min_le_iff, div_le_iff₀ hratio, hrates, and_iff_right hmatch, or_comm]
  · -- the limit of A has set the rate
    have hcut := hset.resolve_left hmatch
    rw [if_neg hmatch, min_eq_right hcut.le]
    simp only [hmatch, false_and, or_false]

theorem finalRateFits_iff :
    m.FinalRateFits move feedRate ↔
      if move.auxilliary then m.TurnAloneFits move feedRate
      else m.PathFits move feedRate ∧ m.BesideFits move feedRate := by
  rw [FinalRateFits]
  cases haux : move.auxilliary with
  | true => exact turnAloneFits_iff hdistance hfeed
  | false => exact and_congr (pathFits_iff hdistance hfeed haux) (besideFits_iff hdistance hfeed)

theorem within_iff_turnFits
    (htravel : move.auxilliary = true → m.travel move .a ≤ move.distance) :
    m.WithinLimits move (m.findSpeed move feedRate).rate ↔ m.TurnFits move feedRate := by
  rw [TurnFits, or_iff_right hfeed.not_gt]
  by_cases hmoves : m.Moves move .a
  · rw [or_iff_right (not_not.mpr hmoves), ← finalRateFits_iff hdistance hfeed, FinalRateFits]
    by_cases haux : move.auxilliary = true
    · rw [if_pos haux]
      by_cases hg : m.isG123 = true
      · rw [imp_iff_right hg]
        exact turnOnly_within_iff hdistance hfeed hmoves haux hg (htravel haux)
      · exact iff_of_true (still_within hdistance hfeed (.inr ⟨haux, by simpa using hg⟩))
          fun h => absurd h hg
    · rw [if_neg haux]
      exact turn_within_iff hdistance hfeed hmoves (by simpa using haux)
  · exact iff_of_true (still_within hdistance hfeed (.inl hmoves)) (.inl hmoves)

omit hfeed

/-! ## A feed below zero -/

omit hdistance in
/-- The loop over the motors leaves a rate that is not positive so. -/
theorem checkActuator_nonpos (m : Machine K) (move : Move K) (h : speed.rate ≤ 0 ∧ speed.isecs ≤ 0) (i : Axis) :
    (m.checkActuator move speed i).rate ≤ 0 ∧ (m.checkActuator move speed i).isecs ≤ 0 := by
  have hactual : m.travel move i / speed.isecs ≤ 0 :=
    div_nonpos_of_nonneg_of_nonpos (abs_nonneg _) h.2
  have hlimit : (m.limitActuator move i speed (m.travel move i / speed.isecs)).rate ≤ 0 ∧
      (m.limitActuator move i speed (m.travel move i / speed.isecs)).isecs ≤ 0 := by
    rw [limitActuator, limitRate,
      if_neg (not_lt.mpr (hactual.trans (m.actuators i).maxRate_pos.le))]
    rw [limitAcceleration]
    split <;> exact h
  rw [checkActuator]
  by_cases hmoves : m.Moves move i
  · rw [if_neg (not_not.mpr hmoves)]
    by_cases hg : i = .a ∧ m.isG123 = true
    · obtain ⟨rfl, hg⟩ := hg
      have hperimeter := perimeter_pos m move
      rw [if_pos ⟨rfl, hg⟩]
      by_cases haux : move.auxilliary = true
      · rw [if_pos haux]
        refine ⟨?_, h.2⟩
        have hsurface : m.perimeter move * (speed.rate / 360) ≤ 0 :=
          mul_nonpos_of_nonneg_of_nonpos hperimeter.le
            (div_nonpos_of_nonpos_of_nonneg h.1 (by norm_num))
        have hraised : speed.rate * (speed.rate / (m.perimeter move * (speed.rate / 360))) ≤ 0 :=
          mul_nonpos_of_nonpos_of_nonneg h.1 (div_nonneg_of_nonpos h.1 hsurface)
        refine (ite_lt_eq_min _ _).trans_le ((min_le_left _ _).trans ?_)
        split
        · exact hraised
        · exact h.1
      · have hsurface : m.travel move .a / speed.isecs * m.perimeter move / 360 ≤ 0 :=
          div_nonpos_of_nonpos_of_nonneg (mul_nonpos_of_nonpos_of_nonneg hactual hperimeter.le)
            (by norm_num)
        have hsame : m.matchSurface move speed (m.travel move .a / speed.isecs) =
            (speed, m.travel move .a / speed.isecs) :=
          if_neg fun hmatch => (lt_trans (by norm_num) hmatch.2.2).not_ge hsurface
        rw [if_neg haux, hsame]
        exact hlimit
    · rw [if_neg hg]
      exact hlimit
  · rw [if_pos hmoves]
    exact h

theorem within_of_nonpos (hrate : rate ≤ 0) : m.WithinLimits move rate := by
  refine ⟨fun i _ _ => ?_, fun _ => ⟨fun i _ hpos => ?_, fun hpos => hrate.trans hpos.le⟩⟩
  · exact (div_nonpos_of_nonpos_of_nonneg (mul_nonpos_of_nonneg_of_nonpos (abs_nonneg _) hrate)
      hdistance.le).trans (m.actuators i).maxRate_pos.le
  · exact (div_nonpos_of_nonpos_of_nonneg (mul_nonpos_of_nonneg_of_nonpos (abs_nonneg _) hrate)
      hdistance.le).trans hpos.le

theorem findSpeed_nonpos (hfeed : feedRate < 0) : (m.findSpeed move feedRate).rate ≤ 0 := by
  have hspm := m.secondsPerMinute_pos
  have hfeed' : m.feed move feedRate ≤ 0 := by
    rw [feed]
    refine div_nonpos_of_nonpos_of_nonneg ?_ hspm.le
    split
    · exact mul_nonpos_of_nonpos_of_nonneg hfeed.le hdistance.le
    · exact hfeed.le
  have hpath := limitPath_nonpos m move hfeed'
  have hstart : (m.startSpeed move feedRate).rate ≤ 0 ∧ (m.startSpeed move feedRate).isecs ≤ 0 :=
    ⟨hpath, div_nonpos_of_nonneg_of_nonpos hdistance.le hpath⟩
  rw [findSpeed_eq, linearSpeed]
  have hx := checkActuator_nonpos m move hstart .x
  have hy := checkActuator_nonpos m move hx .y
  have hz := checkActuator_nonpos m move hy .z
  exact (checkActuator_nonpos m move (checkActuator_nonpos m move hz .a) .b).1

omit hdistance

/-! ## What is handed to the planner -/

theorem moveTo_of_findMove {target : Axis → K} (h : m.findMove target = some move) :
    move = m.moveTo target ∧ 0 < move.distance := by
  rw [findMove] at h
  split at h
  · exact absurd h nofun
  · split at h
    · exact absurd h nofun
    · rename_i hdistance
      split at h
      · exact absurd h nofun
      · obtain rfl := Option.some.inj h
        exact ⟨rfl, lt_of_lt_of_le (by norm_num) (not_lt.mp hdistance)⟩

/-- The motors that turn in a move of their own turn no further than the distance. -/
theorem travel_le_distance {target : Axis → K} (h : m.findMove target = some move)
    (haux : move.auxilliary = true) : m.travel move .a ≤ move.distance := by
  obtain ⟨rfl, hdistance⟩ := moveTo_of_findMove h
  have hsum : (m.moveTo target).distance = m.root.sqrtf
      (((m.moveTo target).actuatorPos .a - (m.actuators .a).lastMilestone) ^ 2
        + ((m.moveTo target).actuatorPos .b - (m.actuators .b).lastMilestone) ^ 2) := by
    refine (if_pos (of_decide_eq_true haux)).trans ?_
    simp only [Axis.rotary, List.map_cons, List.map_nil, List.sum_cons, List.sum_nil, add_zero]
    rfl
  have hsq := m.root.sq (((m.moveTo target).actuatorPos .a - (m.actuators .a).lastMilestone) ^ 2
    + ((m.moveTo target).actuatorPos .b - (m.actuators .b).lastMilestone) ^ 2) (by positivity)
  rw [← hsum] at hsq
  refine abs_le_of_sq_le_sq ?_ hdistance.le
  rw [hsq]
  exact le_add_of_nonneg_right (sq_nonneg _)

theorem appendMilestone_block {interrupted : Bool} {target : Axis → K} {block : PlannedBlock K}
    (h : m.appendMilestone interrupted target feedRate = .block block) :
    m.findMove target = some block.move ∧ block.rate = (m.findSpeed block.move feedRate).rate := by
  rw [appendMilestone] at h
  split at h
  · exact absurd h nofun
  · split at h
    · split at h <;> exact absurd h nofun
    · split at h
      · exact absurd h nofun
      · rename_i move hmove
        obtain rfl := Appended.block.inj h
        exact ⟨hmove, rfl⟩

/-- A block that is handed to the planner is within all limits exactly if the A axis does not raise
its rate beyond one, or makes the B axis be checked for a longer way than the path. -/
theorem rate_within_iff (m : Machine ℝ) (interrupted : Bool) (target : Axis → ℝ) (feedRate : ℝ) :
    (∀ block, m.appendMilestone interrupted target feedRate = .block block →
      m.WithinLimits block.move block.rate) ↔
    ∀ block, m.appendMilestone interrupted target feedRate = .block block →
      m.TurnFits block.move feedRate := by
  refine forall_congr' fun block => forall_congr' fun h => ?_
  obtain ⟨hmove, hrate⟩ := appendMilestone_block h
  obtain ⟨-, hdistance⟩ := moveTo_of_findMove hmove
  rw [hrate]
  obtain hfeed | hfeed := le_or_gt 0 feedRate
  · exact within_iff_turnFits hdistance hfeed (travel_le_distance hmove)
  · exact iff_of_true (within_of_nonpos hdistance (findSpeed_nonpos hdistance hfeed)) (.inl hfeed)

/-- A machine at its origin, in a feed move, with all motors limited to 100 and all axes to 10. -/
noncomputable def atOrigin : Machine ℝ where
  work :=
    { machinePosition := ⟨0, 0, 0, 0, 0⟩
      wcsOffsets := fun _ => ⟨0, 0, 0, 0, 0⟩
      cosR := fun _ => 1
      sinR := fun _ => 0
      currentWcs := ⟨0, by decide⟩
      g92Offset := ⟨0, 0, 0, 0, 0⟩
      toolOffset := ⟨0, 0, 0, 0, 0⟩ }
  compensatedMachinePosition := 0
  compensationTransform := id
  cartesianToActuator := id
  eScale := 1
  actuators := fun _ => ⟨0, true, 100.0, none, by norm_num⟩
  root := ⟨Real.sqrt, fun x _ => Real.sqrt_nonneg x, fun _ hx => Real.sq_sqrt hx⟩
  softEndstopEnabled := false
  softEndstopHalt := false
  isHomed := fun _ => false
  softEndstopMin := fun _ => none
  softEndstopMax := fun _ => none
  rotaryInstalled := false
  rotaryClearanceYMin := none
  isContinuousMode := false
  inverseTimeMode := false
  isG123 := true
  secondsPerMinute := 60
  maxSpeeds := fun _ => 10
  maxSpeed := 0
  defaultAcceleration := 100.0
  secondsPerMinute_pos := by norm_num

/-- A millimetre of X along with a degree of A. -/
def withTurn : Axis → ℝ
  | .x => 1
  | .y => 0
  | .z => 0
  | .a => 1
  | .b => 0

noncomputable def turnAlong : Move ℝ := atOrigin.moveTo withTurn

theorem turnAlong_eq :
    turnAlong.deltas = withTurn ∧ turnAlong.actuatorPos = withTurn ∧
      turnAlong.auxilliary = false ∧ turnAlong.distance = 1 := by
  have hdeltas : turnAlong.deltas = withTurn := by
    funext i
    simp [turnAlong, moveTo, atOrigin]
  have hpos : turnAlong.actuatorPos = withTurn := by
    funext i
    cases i <;> simp [turnAlong, moveTo, atOrigin, Axis.primary]
  have hmoves : ¬ ∀ i ∈ Axis.primary, IsStill (turnAlong.deltas i) := by
    intro h
    have := h .x (by simp [Axis.primary])
    norm_num [hdeltas, IsStill, withTurn] at this
  have hstill : (Axis.primary.filter fun i => ¬ IsStill (turnAlong.deltas i)) = [.x] := by
    norm_num [Axis.primary, hdeltas, IsStill, withTurn]
  have hroot : turnAlong.distance = Real.sqrt ((((Axis.primary.filter fun i =>
      ¬ IsStill (turnAlong.deltas i)).map fun i => turnAlong.deltas i ^ 2).sum)) := if_neg hmoves
  refine ⟨hdeltas, hpos, decide_eq_false hmoves, ?_⟩
  rw [hroot, hstill, hdeltas]
  simp [withTurn]

/-- At 60 millimetres a minute, no limit of X, Y or Z is reached. -/
theorem turnAlong_rate :
    atOrigin.linearRate turnAlong 60 = 1 ∧
      atOrigin.surfaceRatio turnAlong = 13176795 / 4194304 * 2 / 360 := by
  obtain ⟨hdeltas, hpos, haux, hdistance⟩ := turnAlong_eq
  constructor
  · have hfeed : atOrigin.feed turnAlong 60 = 1 := by
      norm_num [feed, atOrigin]
    have haxis (i : Axis) : atOrigin.limitAxis turnAlong 1 i = 1 := by
      rw [limitAxis, hdeltas, hdistance]
      refine if_neg fun hlt => ?_
      cases i <;> norm_num [atOrigin, withTurn] at hlt
    have hpath : atOrigin.limitPath turnAlong 1 = 1 := by
      simp only [limitPath, haux, Axis.primary, List.foldl_cons, List.foldl_nil, haxis]
      norm_num [atOrigin]
    have hcut (i : Axis) : atOrigin.cutAt turnAlong 1 i = 1 := by
      rw [cutAt]
      split
      · rename_i hmoves
        rw [actuatorLimit, travel, hpos, hdistance]
        rw [Moves, travel, hpos] at hmoves
        revert hmoves
        cases i <;> norm_num [atOrigin, withTurn]
      · rfl
    rw [linearRate, hfeed, hpath]
    simp only [Axis.primary, List.foldl_cons, List.foldl_nil, hcut]
  · have hperimeter : atOrigin.perimeter turnAlong = 13176795 / 4194304 * 2 := by
      norm_num [perimeter, atOrigin, turnAlong, moveTo, WorkState.mcs2wcs,
        WorkState.mcs2selectedWcs, floatPi, withTurn]
    rw [surfaceRatio, travel, hpos, hdistance, hperimeter]
    norm_num [atOrigin, withTurn]

/-- The move goes at the rate for which the surface at the axis has the feed, which is too fast
for X. -/
theorem turn_raises_rate :
    ¬ ∀ (m : Machine ℝ) (interrupted : Bool) (target : Axis → ℝ) (feedRate : ℝ),
      ∀ block, m.appendMilestone interrupted target feedRate = .block block →
        m.WithinLimits block.move block.rate := by
  intro h
  obtain ⟨hdeltas, hpos, haux, hdistance⟩ := turnAlong_eq
  obtain ⟨hrate, hratio⟩ := turnAlong_rate
  have hmove : atOrigin.findMove withTurn = some turnAlong := by
    rw [findMove]
    change (if ∀ i ∈ Axis.motors, IsStill (turnAlong.deltas i) then none
      else if turnAlong.distance < 0.00001 then none
      else if turnAlong.auxilliary ∧ ¬ IsStill (turnAlong.deltas .a) ∧ turnAlong.distance < 0.001
        then none
      else some turnAlong) = some turnAlong
    rw [hdeltas, haux, hdistance]
    norm_num [Axis.motors, IsStill, withTurn]
  have hmoves : atOrigin.Moves turnAlong .a := by
    rw [Moves, travel, hpos]
    norm_num [atOrigin, withTurn]
  have hstill : ¬ atOrigin.Moves turnAlong .b := by
    rw [Moves, travel, hpos]
    norm_num [atOrigin, withTurn]
  have hmatch : atOrigin.MatchesSurface turnAlong 1 := by
    rw [MatchesSurface, hratio]
    norm_num [atOrigin]
  have happend : atOrigin.appendMilestone false withTurn 60 =
      .block ⟨turnAlong, (atOrigin.findSpeed turnAlong 60).rate,
        (atOrigin.findSpeed turnAlong 60).acceleration⟩ := by
    simp only [appendMilestone, hmove]
    norm_num [atOrigin]
  have hfits := (turn_within_iff (by rw [hdistance]; norm_num) (by norm_num) hmoves haux).mp
    (h atOrigin false withTurn 60 _ happend)
  rw [hrate] at hfits
  have hx := (hfits.1 hmatch).1.1 .x (by simp [Axis.primary])
  rw [limitByTurn, if_neg hstill, surfaceRate, if_pos hmatch, hratio, actuatorLimit, travel, hdeltas,
    hpos, hdistance] at hx
  norm_num [atOrigin, withTurn] at hx

end Machine

end CarveraFirmware.Robot
