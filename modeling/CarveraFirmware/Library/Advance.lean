import Mathlib

/-!
# Values that advance by a step

Two loops over an ordered field: one adds a positive step to a value as long as the value has not passed
a limit, the other never goes beyond the limit.
-/

namespace CarveraFirmware.Advance

variable {K : Type*} [Field K] [LinearOrder K] [IsStrictOrderedRing K] {step limit x : K}

/-- The number of steps that it takes to reach the limit. -/
def turnsLeft [FloorRing K] (step limit x : K) : ℕ := ⌈(limit - x) / step⌉₊

variable [FloorRing K]

theorem turnsLeft_pos_iff (hstep : 0 < step) : 0 < turnsLeft step limit x ↔ x < limit := by
  rw [turnsLeft, Nat.ceil_pos, div_pos_iff_of_pos_right hstep, sub_pos]

theorem turnsLeft_of_le (hstep : 0 < step) (h : limit ≤ x) : turnsLeft step limit x = 0 :=
  Nat.eq_zero_of_not_pos fun hpos => absurd ((turnsLeft_pos_iff hstep).mp hpos) (not_lt.mpr h)

theorem turnsLeft_add (hstep : 0 < step) (h : x < limit) :
    turnsLeft step limit (x + step) + 1 = turnsLeft step limit x := by
  have hone : (limit - (x + step)) / step = (limit - x) / step - (1 : ℕ) := by
    rw [Nat.cast_one, ← sub_sub, sub_div, div_self hstep.ne']
  have hpos := (turnsLeft_pos_iff hstep).mpr h
  rw [turnsLeft, hone, Nat.ceil_sub_natCast]
  exact Nat.sub_add_cancel hpos

/-- What is cut off at the limit does not count. -/
theorem turnsLeft_min (hstep : 0 < step) (y : K) : turnsLeft step limit (min y limit) = turnsLeft step limit y := by
  obtain h | h := le_total y limit
  · rw [min_eq_left h]
  · rw [min_eq_right h, turnsLeft_of_le hstep h, turnsLeft_of_le hstep le_rfl]

theorem turnsLeft_min_add (hstep : 0 < step) (h : x < limit) :
    turnsLeft step limit (min (x + step) limit) + 1 = turnsLeft step limit x := by
  rw [turnsLeft_min hstep, turnsLeft_add hstep h]

/-- The values up to the limit. -/
def upTo {K : Type*} [Field K] [LinearOrder K] [IsStrictOrderedRing K] [FloorRing K]
    (step limit : K) (hstep : 0 < step) (x : K) : List K :=
  if x ≤ limit then x :: upTo step limit hstep (x + step) else []
termination_by turnsLeft step (limit + step) x
decreasing_by
  rename_i h
  exact Nat.lt_of_succ_le (turnsLeft_add hstep (lt_of_le_of_lt h (lt_add_of_pos_right limit hstep))).le

theorem length_upTo_le (hstep : 0 < step) {n : ℕ} (h : limit < x + n * step) :
    (upTo step limit hstep x).length ≤ n := by
  induction n generalizing x with
  | zero =>
    rw [Nat.cast_zero, zero_mul, add_zero] at h
    rw [upTo, if_neg (not_le.mpr h)]
    exact le_rfl
  | succ n ih =>
    rw [upTo]
    split
    · apply Nat.succ_le_succ
      apply ih
      calc limit < x + (n + 1 : ℕ) * step := h
        _ = x + step + n * step := by push_cast; ring
    · exact Nat.zero_le _

theorem le_of_mem_upTo (hstep : 0 < step) {y : K} (h : y ∈ upTo step limit hstep x) : x ≤ y ∧ y ≤ limit := by
  induction x using upTo.induct step limit hstep with
  | case1 x hx ih =>
    rw [upTo, if_pos hx] at h
    obtain rfl | h := List.mem_cons.mp h
    · exact ⟨le_rfl, hx⟩
    · obtain ⟨hle, hlimit⟩ := ih h
      exact ⟨(le_add_of_nonneg_right hstep.le).trans hle, hlimit⟩
  | case2 x hx =>
    rw [upTo, if_neg hx] at h
    exact absurd h List.not_mem_nil

/-- The values before the limit, each a step from the one before it. -/
def rows {K : Type*} [Field K] [LinearOrder K] [IsStrictOrderedRing K] [FloorRing K]
    (step limit : K) (hstep : 0 < step) (x : K) : List K :=
  if x < limit then x :: rows step limit hstep (min (x + step) limit) else []
termination_by turnsLeft step limit x
decreasing_by
  rename_i h
  exact Nat.lt_of_succ_le (turnsLeft_min_add hstep h).le

theorem rows_of_lt (hstep : 0 < step) (h : x < limit) :
    rows step limit hstep x = x :: rows step limit hstep (min (x + step) limit) := by
  rw [rows, if_pos h]

theorem rows_of_le (hstep : 0 < step) (h : limit ≤ x) : rows step limit hstep x = [] := by
  rw [rows, if_neg (not_lt.mpr h)]

theorem rows_eq_nil_iff (hstep : 0 < step) : rows step limit hstep x = [] ↔ limit ≤ x := by
  refine ⟨?_, rows_of_le hstep⟩
  intro h
  by_contra hx
  rw [rows_of_lt hstep (not_le.mp hx)] at h
  exact List.cons_ne_nil _ _ h

/-- No two neighbours are further apart than a step. -/
theorem isChain_rows (hstep : 0 < step) :
    (rows step limit hstep x).IsChain fun a b => a ≤ b ∧ b ≤ a + step := by
  induction x using rows.induct step limit hstep with
  | case1 x hx ih =>
    rw [rows_of_lt hstep hx]
    apply List.IsChain.cons ih
    intro y hy
    rw [rows] at hy
    split at hy
    · obtain rfl := Option.some.inj hy
      exact ⟨le_min (le_add_of_nonneg_right hstep.le) hx.le, min_le_left _ _⟩
    · exact absurd hy (Option.some_ne_none y).symm
  | case2 x hx =>
    rw [rows_of_le hstep (not_lt.mp hx)]
    exact List.IsChain.nil

/-- The last value is at most a step away from the limit. -/
theorem last_rows (hstep : 0 < step) {y : K} (h : (rows step limit hstep x).getLast? = some y) :
    limit ≤ y + step := by
  induction x using rows.induct step limit hstep with
  | case1 x hx ih =>
    rw [rows_of_lt hstep hx] at h
    cases hrest : rows step limit hstep (min (x + step) limit) with
    | nil =>
      rw [hrest] at h
      obtain rfl : x = y := Option.some.inj h
      exact ((rows_eq_nil_iff hstep).mp hrest).trans (min_le_left _ _)
    | cons z zs =>
      apply ih
      rw [hrest] at h ⊢
      rw [List.getLast?_cons_cons] at h
      exact h
  | case2 x hx =>
    rw [rows_of_le hstep (not_lt.mp hx)] at h
    exact absurd h.symm (Option.some_ne_none y)

end CarveraFirmware.Advance
