import Mathlib

/-!
# The first place of a pattern

`firstWhere p s` is the least index from which the rest of `s` satisfies `p`; a substring search is the
case of a prefix.
-/

namespace CarveraFirmware

variable {α : Type*}

def firstWhere (p : List α → Bool) (s : List α) : Option Nat :=
  (List.range (s.length + 1)).find? fun i => p (s.drop i)

theorem firstWhere_eq_some {p : List α → Bool} {s : List α} {i : Nat} :
    firstWhere p s = some i ↔
      p (s.drop i) = true ∧ i ≤ s.length ∧ ∀ j < i, p (s.drop j) = false := by
  simp [firstWhere]

theorem firstWhere_eq_none {p : List α → Bool} {s : List α} :
    firstWhere p s = none ↔ ∀ i ≤ s.length, p (s.drop i) = false := by
  simp [firstWhere]

/-- A predicate that holds less often finds its place no earlier. -/
theorem firstWhere_mono {p q : List α → Bool} {s : List α} (hpq : ∀ t, q t = true → p t = true)
    {i j : Nat} (hi : firstWhere p s = some i) (hj : firstWhere q s = some j) : i ≤ j := by
  by_contra! hlt
  have hq := hpq _ (firstWhere_eq_some.mp hj).1
  rw [(firstWhere_eq_some.mp hi).2.2 j hlt] at hq
  cases hq

theorem firstWhere_none_mono {p q : List α → Bool} {s : List α} (hpq : ∀ t, q t = true → p t = true)
    (h : firstWhere p s = none) : firstWhere q s = none := by
  rw [firstWhere_eq_none] at h ⊢
  intro i hi
  by_contra hq
  have hp := hpq (s.drop i) (by simpa using hq)
  exact absurd (hp.symm.trans (h i hi)) nofun

/-! ## Patterns within the first elements that satisfy a predicate -/

variable {ok : α → Bool} {pat : List α}

theorem prefix_takeWhile_iff (hpat : ∀ a ∈ pat, ok a = true) (s : List α) :
    pat <+: s.takeWhile ok ↔ pat <+: s := by
  refine ⟨fun h => h.trans (List.takeWhile_prefix ok), fun ⟨rest, h⟩ => ?_⟩
  rw [← h, List.takeWhile_append_of_pos hpat]
  exact List.prefix_append ..

theorem drop_takeWhile {s : List α} {i : Nat} (hi : i ≤ (s.takeWhile ok).length) :
    (s.takeWhile ok).drop i = (s.drop i).takeWhile ok := by
  induction s generalizing i with
  | nil => simp
  | cons a s ih =>
    cases i with
    | zero => rfl
    | succ i =>
      cases hok : ok a with
      | false => simp [hok] at hi
      | true =>
        rw [List.takeWhile_cons, if_pos hok] at hi ⊢
        exact ih (Nat.le_of_succ_le_succ hi)

variable [DecidableEq α]

/-- `std::string::find`. -/
def find (pat s : List α) : Option Nat := firstWhere pat.isPrefixOf s

theorem find_takeWhile_eq_some (hpat : ∀ a ∈ pat, ok a = true) {s : List α} {i : Nat} :
    find pat (s.takeWhile ok) = some i ↔
      find pat s = some i ∧ i ≤ (s.takeWhile ok).length := by
  have hsame (j : Nat) (hj : j ≤ (s.takeWhile ok).length) :
      pat.isPrefixOf ((s.takeWhile ok).drop j) = pat.isPrefixOf (s.drop j) := by
    rw [drop_takeWhile hj, Bool.eq_iff_iff, List.isPrefixOf_iff_prefix, List.isPrefixOf_iff_prefix,
      prefix_takeWhile_iff hpat]
  have hle : (s.takeWhile ok).length ≤ s.length := (List.takeWhile_prefix ok).length_le
  rw [find, find, firstWhere_eq_some, firstWhere_eq_some]
  constructor
  · rintro ⟨hat, hi, hbefore⟩
    refine ⟨⟨(hsame i hi).symm.trans hat, hi.trans hle, fun j hj => ?_⟩, hi⟩
    exact (hsame j (hj.le.trans hi)).symm.trans (hbefore j hj)
  · rintro ⟨⟨hat, -, hbefore⟩, hi⟩
    refine ⟨(hsame i hi).trans hat, hi, fun j hj => ?_⟩
    exact (hsame j (hj.le.trans hi)).trans (hbefore j hj)

end CarveraFirmware
