import Mathlib

/-!
# Indices that go round a ring

Positions in a queue are counted without end; the slot of position `c` in a ring of `length`
slots is `c % length`. Positions less than one turn apart have different slots.
-/

namespace CarveraFirmware.RingIndex

/-- The slot after a slot. -/
def next (length i : ℕ) : ℕ :=
  if length = 0 then 0 else if i + 1 ≥ length then 0 else i + 1

variable {length : ℕ}

theorem next_mod (hlen : 0 < length) (c : ℕ) : next length (c % length) = (c + 1) % length := by
  have hlt := Nat.mod_lt c hlen
  rw [next, if_neg (by omega), ← Nat.mod_add_mod c length 1]
  split_ifs with hwrap
  · rw [show c % length + 1 = length by omega, Nat.mod_self]
  · exact (Nat.mod_eq_of_lt (by omega)).symm

theorem mod_inj {a b : ℕ} (hab : a ≤ b) (hturn : b < a + length) (h : a % length = b % length) :
    a = b := by
  have hdvd : length ∣ b - a := (Nat.modEq_iff_dvd' hab).mp h
  have hzero := Nat.eq_zero_of_dvd_of_lt hdvd (by omega)
  omega

theorem mod_ne {a b : ℕ} (hab : a < b) (hturn : b < a + length) : a % length ≠ b % length :=
  fun h => hab.ne (mod_inj hab.le hturn h)

/-! ## A queue kept in a ring -/

section

variable {α : Type*} {storage : ℕ → α} {tail : ℕ} {queue : List α}

/-- The slots from `tail` on hold `queue`, which fits the ring. -/
structure Holds (storage : ℕ → α) (length tail : ℕ) (queue : List α) : Prop where
  fits : queue.length ≤ length
  slot : ∀ k x, queue[k]? = some x → storage ((tail + k) % length) = x

theorem Holds.nil (storage : ℕ → α) (length tail : ℕ) : Holds storage length tail [] :=
  ⟨Nat.zero_le _, by simp⟩

theorem Holds.push (h : Holds storage length tail queue) (hroom : queue.length < length) (x : α) :
    Holds (Function.update storage ((tail + queue.length) % length) x) length tail
      (queue ++ [x]) := by
  refine ⟨by simpa using hroom, fun k y hk => ?_⟩
  obtain hlt | rfl | hgt := Nat.lt_trichotomy k queue.length
  · rw [List.getElem?_append_left hlt] at hk
    rw [Function.update_of_ne (mod_ne (by omega) (by omega))]
    exact h.slot k y hk
  · simp only [List.getElem?_concat_length, Option.some.injEq] at hk
    rw [hk, Function.update_self]
  · rw [List.getElem?_eq_none (by simp; omega)] at hk
    simp at hk

theorem Holds.front {x : α} (h : Holds storage length tail (x :: queue)) :
    storage (tail % length) = x := h.slot 0 x rfl

/-- Taking the front leaves the rest, whatever is left behind in its slot. -/
theorem Holds.pop {x : α} (h : Holds storage length tail (x :: queue)) (y : α) :
    Holds (Function.update storage (tail % length) y) length ((tail + 1) % length) queue := by
  have hfits := h.fits
  rw [List.length_cons] at hfits
  refine ⟨by omega, fun k z hk => ?_⟩
  have hlt : k < queue.length := (List.getElem?_eq_some_iff.mp hk).1
  rw [Nat.mod_add_mod, show tail + 1 + k = tail + (k + 1) by omega,
    Function.update_of_ne (mod_ne (by omega) (by omega)).symm]
  exact h.slot (k + 1) z (by simpa using hk)

end

end CarveraFirmware.RingIndex
