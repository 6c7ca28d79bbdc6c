import Mathlib

/-!
# Blocks copied into and out of a ring

A memory is a function from positions. `window` reads a ring from a position on, round its end; a
block goes into a ring, or comes out of it, as a piece up to the ring's end and one from its start.
-/

namespace CarveraFirmware.BlockCopy

variable {α : Type*} {memory : ℕ → α} {size start tail head count length : ℕ} {block : List α}

/-- The memory after `block` has been copied to `start`. -/
def copyTo (memory : ℕ → α) (start : ℕ) (block : List α) : ℕ → α :=
  fun i => if start ≤ i then (block[i - start]?).getD (memory i) else memory i

theorem copyTo_inside {k : ℕ} (hk : k < block.length) :
    copyTo memory start block (start + k) = block[k] := by
  simp [copyTo, hk]

theorem copyTo_outside {i : ℕ} (hi : i < start ∨ start + block.length ≤ i) :
    copyTo memory start block i = memory i := by
  obtain hlt | hge := hi
  · rw [copyTo, if_neg (by omega)]
  · rw [copyTo, if_pos (by omega), List.getElem?_eq_none (by omega), Option.getD_none]

/-- `length` bytes from `start` on. -/
def slice (memory : ℕ → α) (start length : ℕ) : List α :=
  (List.range length).map fun i => memory (start + i)

@[simp] theorem length_slice : (slice memory start length).length = length := by simp [slice]

@[simp] theorem slice_zero : slice memory start 0 = [] := rfl

theorem slice_succ : slice memory start (length + 1) =
    slice memory start length ++ [memory (start + length)] := by
  simp [slice, List.range_succ]

theorem slice_congr {other : ℕ → α} (h : ∀ i, start ≤ i → i < start + length → other i = memory i) :
    slice other start length = slice memory start length :=
  List.map_congr_left fun i hi => h (start + i) (by omega) (by simpa using hi)

theorem slice_update (memory : ℕ → α) (start length : ℕ) (x : α) :
    slice (Function.update memory (start + length) x) start (length + 1) =
      slice memory start length ++ [x] := by
  rw [slice_succ, Function.update_self,
    slice_congr fun i _ hi => Function.update_of_ne (by omega) x memory]

theorem slice_append (memory : ℕ → α) (start length more : ℕ) :
    slice memory start (length + more) =
      slice memory start length ++ slice memory (start + length) more := by
  simp [slice, List.range_add, Function.comp_def, Nat.add_assoc]

/-- `count` bytes of a ring of `size` slots, from `tail` on. -/
def window (memory : ℕ → α) (size tail count : ℕ) : List α :=
  (List.range count).map fun i => memory ((tail + i) % size)

@[simp] theorem length_window : (window memory size tail count).length = count := by simp [window]

@[simp] theorem window_zero : window memory size tail 0 = [] := rfl

theorem window_add (memory : ℕ → α) (size tail count length : ℕ) :
    window memory size tail (count + length) =
      window memory size tail count ++ window memory size ((tail + count) % size) length := by
  simp [window, List.range_add, Function.comp_def, Nat.add_assoc]

/-- A piece of a ring that does not reach its end. -/
theorem window_eq_slice (h : tail + count ≤ size) :
    window memory size tail count = slice memory tail count :=
  List.map_congr_left fun i hi => by
    rw [List.mem_range] at hi
    rw [Nat.mod_eq_of_lt (by omega)]

/-- How much of a block fits between `position` and the end of the ring. -/
def firstPart (size position length : ℕ) : ℕ :=
  if length < size - position then length else size - position

theorem firstPart_le : firstPart size start length ≤ length := by
  rw [firstPart]; split <;> omega

/-- A block read in its two pieces. -/
theorem slice_append_slice (htail : tail < size) (hlen : length ≤ size) :
    slice memory tail (firstPart size tail length) ++
      slice memory 0 (length - firstPart size tail length) = window memory size tail length := by
  rw [firstPart]
  split_ifs with hfits
  · rw [Nat.sub_self, slice_zero, List.append_nil, window_eq_slice (by omega)]
  · rw [← @window_eq_slice _ _ size _ _ (by omega), ← @window_eq_slice _ _ size _ _ (by omega)]
    have hsplit := window_add memory size tail (size - tail) (length - (size - tail))
    rw [show tail + (size - tail) = size by omega, Nat.mod_self,
      show size - tail + (length - (size - tail)) = length by omega] at hsplit
    exact hsplit.symm

/-- A ring's memory after a block has been written from `head` on, in its two pieces. -/
def writeRing (memory : ℕ → α) (size head : ℕ) (block : List α) : ℕ → α :=
  let first := firstPart size head block.length
  copyTo (copyTo memory head (block.take first)) 0 (block.drop first)

theorem writeRing_inside (hhead : head < size) (hlen : block.length ≤ size) {k : ℕ}
    (hk : k < block.length) : writeRing memory size head block ((head + k) % size) = block[k] := by
  rw [writeRing, firstPart]
  split_ifs with hfits
  · rw [Nat.mod_eq_of_lt (by omega), copyTo_outside (by simp), List.take_length,
      copyTo_inside hk]
  · by_cases hfirst : k < size - head
    · rw [Nat.mod_eq_of_lt (by omega), copyTo_outside (by simp; omega),
        copyTo_inside (by simp; omega), List.getElem_take]
    · have hwrap : (head + k) % size = 0 + (k - (size - head)) := by
        rw [Nat.mod_eq_sub_mod (by omega), Nat.mod_eq_of_lt (by omega)]
        omega
      rw [hwrap, copyTo_inside (by simp; omega), List.getElem_drop]
      congr 1
      omega

theorem writeRing_outside (hhead : head < size) {k : ℕ}
    (hk : block.length ≤ k) (hturn : k < size) :
    writeRing memory size head block ((head + k) % size) = memory ((head + k) % size) := by
  rw [writeRing, firstPart]
  split_ifs with hfits
  · rw [copyTo_outside (by simp), copyTo_outside]
    rw [List.take_length]
    obtain hlt | hge := Nat.lt_or_ge (head + k) size
    · rw [Nat.mod_eq_of_lt hlt]
      omega
    · rw [Nat.mod_eq_sub_mod hge, Nat.mod_eq_of_lt (by omega)]
      omega
  · have hwrap : (head + k) % size = head + k - size := by
      rw [Nat.mod_eq_sub_mod (by omega), Nat.mod_eq_of_lt (by omega)]
    rw [hwrap, copyTo_outside (by simp; omega), copyTo_outside (by omega)]

/-- What is written behind a ring's contents is added to them. -/
theorem window_writeRing (memory : ℕ → α) (tail : ℕ) (hsize : 0 < size)
    (hfits : count + block.length ≤ size) :
    window (writeRing memory size ((tail + count) % size) block) size tail (count + block.length) =
      window memory size tail count ++ block := by
  have hhead := Nat.mod_lt (tail + count) hsize
  rw [window_add]
  congr 1
  · refine List.map_congr_left fun i hi => ?_
    rw [List.mem_range] at hi
    have hslot : (tail + i) % size = ((tail + count) % size + (size - count + i)) % size := by
      rw [Nat.mod_add_mod, show tail + count + (size - count + i) = tail + i + size by omega,
        Nat.add_mod_right]
    rw [hslot, writeRing_outside hhead (by omega) (by omega)]
  · refine List.ext_getElem (by simp) fun k hk hk' => ?_
    simp only [window, List.getElem_map, List.getElem_range]
    exact writeRing_inside hhead (by omega) hk'

end CarveraFirmware.BlockCopy
