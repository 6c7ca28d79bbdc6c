import Mathlib

/-!
# Loops over distinct indices

A loop whose turn at `i` reads and writes entry `i` of a table only, and adds what it found
to an accumulator, leaves each entry as its own turn leaves it.
-/

namespace CarveraFirmware.Loop

variable {ι α β γ : Type*} [DecidableEq ι]

/-- One turn: entry `i` is replaced, and the accumulator takes what the turn found. -/
def turn (f : ι → α → α × β) (g : γ → ι → β → γ) (s : (ι → α) × γ) (i : ι) : (ι → α) × γ :=
  (Function.update s.1 i (f i (s.1 i)).1, g s.2 i (f i (s.1 i)).2)

theorem foldl_turn (f : ι → α → α × β) (g : γ → ι → β → γ) {l : List ι} (hl : l.Nodup)
    (table : ι → α) (acc : γ) :
    l.foldl (turn f g) (table, acc) =
      (fun i => if i ∈ l then (f i (table i)).1 else table i,
        l.foldl (fun c i => g c i (f i (table i)).2) acc) := by
  induction l generalizing table acc with
  | nil => simp
  | cons a l ih =>
    obtain ⟨ha, hl⟩ := List.nodup_cons.mp hl
    rw [List.foldl_cons, turn, ih hl, List.foldl_cons]
    refine Prod.ext ?_ ?_
    · funext i
      by_cases hia : i = a
      · subst hia
        simp [ha]
      · simp [hia]
    · -- The turns to come read entries that this one has not written.
      refine List.foldl_ext _ _ _ fun c i hi => ?_
      have hia : i ≠ a := fun h => ha (h ▸ hi)
      simp [hia]

end CarveraFirmware.Loop
