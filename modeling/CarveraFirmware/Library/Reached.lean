import Mathlib

/-!
# Runs whose steps meet a condition

`Reached step ok init` are the states that a machine comes to from `init`, by events each of which
meets `ok` in the state it finds.
-/

namespace CarveraFirmware

inductive Reached {σ ε : Type*} (step : σ → ε → σ) (ok : σ → ε → Prop) (init : σ) : σ → Prop
  | start : Reached step ok init init
  | step {s : σ} {e : ε} (h : Reached step ok init s) (hok : ok s e) : Reached step ok init (step s e)

/-- Every event of a list meets the condition where it comes. -/
def AllOk {σ ε : Type*} (step : σ → ε → σ) (ok : σ → ε → Prop) : σ → List ε → Prop
  | _, [] => True
  | s, e :: events => ok s e ∧ AllOk step ok (step s e) events

theorem allOk_append {σ ε : Type*} {step : σ → ε → σ} {ok : σ → ε → Prop} {s : σ}
    {events later : List ε} :
    AllOk step ok s (events ++ later) ↔
      AllOk step ok s events ∧ AllOk step ok (events.foldl step s) later := by
  induction events generalizing s with
  | nil => exact ⟨fun h => ⟨trivial, h⟩, fun h => h.2⟩
  | cons e events ih => exact (and_congr_right fun _ => ih).trans and_assoc.symm

/-- Two conditions that come to the same in all states that the second of them leads to. -/
theorem allOk_iff {σ ε : Type*} {step : σ → ε → σ} {ok ok' : σ → ε → Prop} {inv : σ → Prop} {s : σ}
    (hs : inv s) (hiff : ∀ s e, inv s → (ok s e ↔ ok' s e))
    (hstep : ∀ s e, inv s → ok' s e → inv (step s e)) (events : List ε) :
    AllOk step ok s events ↔ AllOk step ok' s events := by
  induction events generalizing s with
  | nil => exact Iff.rfl
  | cons e events ih =>
    exact (and_congr_left' (hiff s e hs)).trans (and_congr_right fun hok => ih (hstep s e hs hok))

namespace Reached

variable {σ ε : Type*} {step : σ → ε → σ} {ok : σ → ε → Prop} {init s : σ}

/-- What holds at the start and is kept by every step that meets the condition holds throughout. -/
theorem invariant {inv : σ → Prop} (h : Reached step ok init s) (hinit : inv init)
    (hstep : ∀ s e, inv s → ok s e → inv (step s e)) : inv s := by
  induction h with
  | start => exact hinit
  | step _ hok ih => exact hstep _ _ ih hok

theorem run (h : Reached step ok init s) {events : List ε} (hok : AllOk step ok s events) :
    Reached step ok init (events.foldl step s) := by
  induction events generalizing s with
  | nil => exact h
  | cons e events ih => exact ih (h.step hok.1) hok.2

end Reached

end CarveraFirmware
