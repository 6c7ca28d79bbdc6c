import Mathlib

/-!
# Recursion with fuel

A recursive function that is not plainly structural takes a bound on its depth, and gives nothing where
the bound is too low. `Settles f a`: with enough fuel, `f` gives `a`.
-/

namespace CarveraFirmware

variable {α β : Type*} {f : Nat → Option α} {a b : α}

/-- What is given with some fuel is given with more. -/
def Grows (f : Nat → Option α) : Prop := ∀ n a, f n = some a → f (n + 1) = some a

def Settles (f : Nat → Option α) (a : α) : Prop := ∃ n, ∀ m, n ≤ m → f m = some a

theorem Grows.le (hf : Grows f) {n m : Nat} (h : f n = some a) (hle : n ≤ m) : f m = some a := by
  induction hle with
  | refl => exact h
  | step _ ih => exact hf _ _ ih

theorem Grows.settles (hf : Grows f) {n : Nat} (h : f n = some a) : Settles f a :=
  ⟨n, fun _ hle => hf.le h hle⟩

theorem Grows.eq_of_settles (hf : Grows f) {n : Nat} (h : f n = some a) (hs : Settles f b) : a = b := by
  obtain ⟨k, hk⟩ := hs
  have hmax := hf.le h (Nat.le_max_left n k)
  rw [hk _ (Nat.le_max_right n k)] at hmax
  exact (Option.some.inj hmax).symm

namespace Settles

/-- One unfolding of the recursion. -/
theorem succ (h : Settles (fun m => f (m + 1)) a) : Settles f a := by
  obtain ⟨n, hn⟩ := h
  refine ⟨n + 1, ?_⟩
  intro m hm
  obtain ⟨k, rfl⟩ := Nat.exists_eq_succ_of_ne_zero (show m ≠ 0 by omega)
  exact hn k (Nat.le_of_succ_le_succ hm)

theorem const (a : α) : Settles (fun _ => some a) a := ⟨0, fun _ _ => rfl⟩

/-- What follows from one part with the same fuel. -/
theorem imp {k : Nat → Option β} {c : β} (hf : Settles f a) (h : ∀ m, f m = some a → k m = some c) :
    Settles k c := by
  obtain ⟨n, hn⟩ := hf
  exact ⟨n, fun m hm => h m (hn m hm)⟩

/-- What follows from two parts with the same fuel. -/
theorem join {γ : Type*} {g : Nat → Option γ} {d : γ} {k : Nat → Option β} {c : β} (hf : Settles f a)
    (hg : Settles g d) (h : ∀ m, f m = some a → g m = some d → k m = some c) : Settles k c := by
  obtain ⟨n, hn⟩ := hf
  obtain ⟨n', hn'⟩ := hg
  refine ⟨max n n', ?_⟩
  intro m hm
  exact h m (hn m (le_trans (Nat.le_max_left n n') hm)) (hn' m (le_trans (Nat.le_max_right n n') hm))

end Settles

/-- More fuel for each part of a composition is more fuel for it. -/
theorem bind_le {x x' : Option α} {k k' : α → Option β} {c : β}
    (h : x.bind k = some c) (hx : ∀ a, x = some a → x' = some a)
    (hk : ∀ a c, k a = some c → k' a = some c) : x'.bind k' = some c := by
  obtain ⟨a, ha, hka⟩ := Option.bind_eq_some_iff.mp h
  rw [hx a ha]
  exact hk a c hka

theorem map_le {x x' : Option α} {k : α → β} {c : β} (h : x.map k = some c)
    (hx : ∀ a, x = some a → x' = some a) : x'.map k = some c := by
  obtain ⟨a, ha, hka⟩ := Option.map_eq_some_iff.mp h
  rw [hx a ha]
  exact congrArg some hka

end CarveraFirmware
