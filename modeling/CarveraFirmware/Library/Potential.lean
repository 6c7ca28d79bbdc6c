import Mathlib

/-!
# Totals along a run

What each event of a run adds up to, and a potential that follows it.
-/

namespace CarveraFirmware

variable {σ ε : Type*} (step : σ → ε → σ) (gain : σ → ε → ℤ)

/-- The sum of what the events of a list bring, each in the state it finds. -/
def total : σ → List ε → ℤ
  | _, [] => 0
  | s, e :: events => gain s e + total (step s e) events

variable {step gain}

/-- A potential that changes by what an event brings changes over a run by the total. -/
theorem total_eq_sub {inv : σ → Prop} {potential : σ → ℤ}
    (hstep : ∀ s e, inv s → inv (step s e))
    (hgain : ∀ s e, inv s → gain s e = potential (step s e) - potential s)
    {s : σ} (hs : inv s) (events : List ε) :
    total step gain s events = potential (events.foldl step s) - potential s := by
  induction events generalizing s with
  | nil => exact (sub_self _).symm
  | cons e events ih =>
    show gain s e + total step gain (step s e) events = _
    rw [hgain s e hs, ih (hstep s e hs)]
    show _ = potential (events.foldl step (step s e)) - potential s
    ring

/-- A total that is the difference of two others. -/
theorem total_sub {on want : σ → ε → ℤ} (s : σ) (events : List ε) :
    total step (fun s e => on s e - want s e) s events =
      total step on s events - total step want s events := by
  induction events generalizing s with
  | nil => exact (sub_self 0).symm
  | cons e events ih =>
    show on s e - want s e + total step _ (step s e) events = _
    rw [ih]
    show _ = on s e + total step on (step s e) events -
      (want s e + total step want (step s e) events)
    ring

theorem total_mul {on : σ → ε → ℤ} (k : ℤ) (s : σ) (events : List ε) :
    total step (fun s e => k * on s e) s events = k * total step on s events := by
  induction events generalizing s with
  | nil => exact (mul_zero k).symm
  | cons e events ih =>
    show k * on s e + total step _ (step s e) events = _
    rw [ih, ← mul_add]
    rfl

/-- What holds at the start and is kept by every event holds at the end. -/
theorem foldl_invariant {inv : σ → Prop} (hstep : ∀ s e, inv s → inv (step s e)) {s : σ}
    (hs : inv s) (events : List ε) : inv (events.foldl step s) := by
  induction events generalizing s with
  | nil => exact hs
  | cons e events ih => exact ih (hstep s e hs)

end CarveraFirmware
