import Mathlib

/-!
# Runs of a machine that emits

A machine takes one step after another, and a step may emit a value. `Emits step s out s'` says
that some number of steps leads from `s` to `s'` and emits `out` on the way.
-/

namespace CarveraFirmware.Runs

variable {σ α : Type*} {step : σ → Option α × σ}

/-- What `n` steps emit, and the state after them. -/
def run (step : σ → Option α × σ) : Nat → σ → List α × σ
  | 0, s => ([], s)
  | n + 1, s => ((step s).1.toList ++ (run step n (step s).2).1, (run step n (step s).2).2)

def Emits (step : σ → Option α × σ) (s : σ) (out : List α) (s' : σ) : Prop :=
  ∃ n, run step n s = (out, s')

theorem run_add (m n : Nat) (s : σ) :
    run step (m + n) s =
      ((run step m s).1 ++ (run step n (run step m s).2).1, (run step n (run step m s).2).2) := by
  induction m generalizing s with
  | zero => simp [run]
  | succ m ih =>
    rw [Nat.succ_add, run, ih (step s).2]
    simp [run]

namespace Emits

variable {s s' s'' : σ} {out out' : List α}

theorem refl (s : σ) : Emits step s [] s := ⟨0, rfl⟩

theorem trans (h : Emits step s out s') (h' : Emits step s' out' s'') :
    Emits step s (out ++ out') s'' := by
  obtain ⟨m, hm⟩ := h
  obtain ⟨n, hn⟩ := h'
  exact ⟨m + n, by rw [run_add, hm, hn]⟩

theorem head {a : α} (hstep : step s = (some a, s')) (h : Emits step s' out s'') :
    Emits step s (a :: out) s'' := by
  obtain ⟨n, hn⟩ := h
  exact ⟨n + 1, by rw [run, hstep, hn]; rfl⟩

theorem silent (hstep : step s = (none, s')) (h : Emits step s' out s'') :
    Emits step s out s'' := by
  obtain ⟨n, hn⟩ := h
  exact ⟨n + 1, by rw [run, hstep, hn]; rfl⟩

end Emits

end CarveraFirmware.Runs
