import Mathlib

/-!
# Debounced readings

A pin is read at every tick, and counts as on once it has been on for more than `n` readings in a
row. A routine that counts up to `n` while the pin is on, and starts over when it is off, sees this.
-/

namespace CarveraFirmware.Debounce

/-- How many readings in a row the pin has been on. -/
def trailing (readings : List Bool) : Nat := (readings.rtakeWhile id).length

/-- At how many of the readings the pin counts as on. -/
def hits (n : Nat) (readings : List Bool) : Nat := readings.inits.countP fun upTo => n < trailing upTo

variable {n : Nat} {readings : List Bool}

@[simp] theorem trailing_nil : trailing [] = 0 := rfl

theorem trailing_concat_true : trailing (readings ++ [true]) = trailing readings + 1 := by
  rw [trailing, List.rtakeWhile_concat_pos _ _ _ rfl, List.length_append]
  rfl

theorem trailing_concat_false : trailing (readings ++ [false]) = 0 := by
  rw [trailing, List.rtakeWhile_concat_neg _ _ _ (by decide)]
  rfl

@[simp] theorem hits_nil : hits n [] = 0 := by simp [hits]

theorem hits_concat {b : Bool} :
    hits n (readings ++ [b]) = hits n readings + if n < trailing (readings ++ [b]) then 1 else 0 := by
  have hinits : (readings ++ [b]).inits = readings.inits ++ [readings ++ [b]] := by
    simp [List.inits_append]
  rw [hits, hinits, List.countP_append, List.countP_singleton]
  simp [hits]

theorem hits_concat_false : hits n (readings ++ [false]) = hits n readings := by
  rw [hits_concat, trailing_concat_false]
  simp

/-- The counter while the pin is still bouncing. -/
theorem counter_concat_of_lt (h : min (trailing readings) n < n) :
    hits n (readings ++ [true]) = hits n readings ∧
      min (trailing (readings ++ [true])) n = min (trailing readings) n + 1 := by
  rw [hits_concat, trailing_concat_true]
  have hrun : trailing readings < n := by omega
  exact ⟨by rw [if_neg (by omega), Nat.add_zero], by omega⟩

/-- The counter once the pin counts as on. -/
theorem counter_concat_of_ge (h : ¬ min (trailing readings) n < n) :
    hits n (readings ++ [true]) = hits n readings + 1 ∧
      min (trailing (readings ++ [true])) n = min (trailing readings) n := by
  rw [hits_concat, trailing_concat_true]
  exact ⟨by rw [if_pos (by omega)], by omega⟩

theorem hits_le_concat {b : Bool} : hits n readings ≤ hits n (readings ++ [b]) := by
  rw [hits_concat]
  exact Nat.le_add_right ..

end CarveraFirmware.Debounce
