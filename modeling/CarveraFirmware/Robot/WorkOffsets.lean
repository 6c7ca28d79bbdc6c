import Mathlib

/-!
# Work coordinate systems

`mcs2selected_wcs`, `wcs2mcs`, `G10` and `G92` of `Robot.cpp`, over exact arithmetic. Inch mode cannot
be entered, so words are millimetres. What is saved to the EEPROM is left out.
-/

namespace CarveraFirmware.Robot

/-- `wcs_t`. -/
@[ext]
structure Wcs (R : Type) where
  x : R
  y : R
  z : R
  a : R
  b : R
  deriving DecidableEq

/-- `MAX_WCS`. -/
abbrev maxWcs : Nat := 9

/-- The axis words of a command. -/
structure AxisWords (R : Type) where
  x : Option R := none
  y : Option R := none
  z : Option R := none
  a : Option R := none
  b : Option R := none

structure WorkState (R : Type) where
  machinePosition : Wcs R
  wcsOffsets : Fin maxWcs → Wcs R
  cosR : Fin maxWcs → R
  sinR : Fin maxWcs → R
  currentWcs : Fin maxWcs
  g92Offset : Wcs R
  toolOffset : Wcs R
  toolNotCalibrated : Bool := false
  tool : Int := 1

namespace WorkState

variable {R : Type} [CommRing R]

def mcs2selectedWcs (s : WorkState R) (pos : Wcs R) (n : Fin maxWcs) : Wcs R where
  x := s.cosR n * (pos.x - (s.wcsOffsets n).x) + s.sinR n * (pos.y - (s.wcsOffsets n).y)
    + s.g92Offset.x - s.toolOffset.x
  y := s.cosR n * (pos.y - (s.wcsOffsets n).y) - s.sinR n * (pos.x - (s.wcsOffsets n).x)
    + s.g92Offset.y - s.toolOffset.y
  z := pos.z - (s.wcsOffsets n).z + s.g92Offset.z - s.toolOffset.z
  a := pos.a - (s.wcsOffsets n).a + s.g92Offset.a - s.toolOffset.a
  b := pos.b - (s.wcsOffsets n).b + s.g92Offset.b - s.toolOffset.b

def mcs2wcs (s : WorkState R) (pos : Wcs R) : Wcs R := s.mcs2selectedWcs pos s.currentWcs

def wcs2mcs (s : WorkState R) (pos : Wcs R) : Wcs R where
  x := (s.wcsOffsets s.currentWcs).x
    + s.cosR s.currentWcs * (pos.x - s.g92Offset.x + s.toolOffset.x)
    - s.sinR s.currentWcs * (pos.y - s.g92Offset.y + s.toolOffset.y)
  y := (s.wcsOffsets s.currentWcs).y
    + s.cosR s.currentWcs * (pos.y - s.g92Offset.y + s.toolOffset.y)
    + s.sinR s.currentWcs * (pos.x - s.g92Offset.x + s.toolOffset.x)
  z := pos.z + (s.wcsOffsets s.currentWcs).z - s.g92Offset.z + s.toolOffset.z
  a := pos.a + (s.wcsOffsets s.currentWcs).a - s.g92Offset.a + s.toolOffset.a
  b := pos.b + (s.wcsOffsets s.currentWcs).b - s.g92Offset.b + s.toolOffset.b

/-- The system that `P` names: zero is the current one. -/
def systemOf (s : WorkState R) (p : Nat) : Option (Fin maxWcs) :=
  if p = 0 then some s.currentWcs
  else if h : p - 1 < maxWcs then some ⟨p - 1, h⟩
  else none

def setWcsOffset (s : WorkState R) (n : Fin maxWcs) (offset : Wcs R) : WorkState R :=
  { s with wcsOffsets := Function.update s.wcsOffsets n offset }

/-- The `R` word of `G10`, as its cosine and sine. -/
def setRotation (s : WorkState R) (n : Fin maxWcs) (rotation : Option (R × R)) : WorkState R :=
  match rotation with
  | none => s
  | some (cosine, sine) =>
    { s with cosR := Function.update s.cosR n cosine, sinR := Function.update s.sinR n sine }

/-- The offset that `G10 L20` writes, where the position was read as `pos`. -/
def offsetHere (s : WorkState R) (n : Fin maxWcs) (pos : Wcs R) (words : AxisWords R) : Wcs R where
  x :=
    match words.x, words.y with
    | some x, some y => s.machinePosition.x - s.cosR n * x + s.sinR n * y
    | some x, none => s.machinePosition.x - s.cosR n * x + s.sinR n * pos.y
    | none, some y => s.machinePosition.x - s.cosR n * pos.x + s.sinR n * y
    | none, none => (s.wcsOffsets n).x
  y :=
    match words.x, words.y with
    | some x, some y => s.machinePosition.y - s.cosR n * y - s.sinR n * x
    | some x, none => s.machinePosition.y - s.cosR n * pos.y - s.sinR n * x
    | none, some y => s.machinePosition.y - s.cosR n * y - s.sinR n * pos.x
    | none, none => (s.wcsOffsets n).y
  z :=
    match words.z with
    | some z => s.machinePosition.z - z - s.toolOffset.z
    | none => (s.wcsOffsets n).z
  a :=
    match words.a with
    | some a => (s.wcsOffsets n).a - (a - pos.a)
    | none => (s.wcsOffsets n).a
  b :=
    match words.b with
    | some b => (s.wcsOffsets n).b - (b - pos.b)
    | none => (s.wcsOffsets n).b

/-- The offset that `G10 L2` writes. -/
def offsetGiven (s : WorkState R) (n : Fin maxWcs) (words : AxisWords R) : Wcs R where
  x := words.x.getD (s.wcsOffsets n).x
  y := words.y.getD (s.wcsOffsets n).y
  z := words.z.getD (s.wcsOffsets n).z
  a := words.a.getD (s.wcsOffsets n).a
  b := words.b.getD (s.wcsOffsets n).b

/-- `G10 L2` or `L20`, with `P`. `none` is a halt, for a probe that is not calibrated. -/
def g10 (s : WorkState R) (l20 : Bool) (p : Nat) (rotation : Option (R × R)) (words : AxisWords R) :
    Option (WorkState R) :=
  match s.systemOf p with
  | none => some s
  | some n =>
    let pos := s.mcs2selectedWcs s.machinePosition n
    if words.z.isSome && l20 && s.toolNotCalibrated &&
        (s.tool == 0 || s.tool ≥ 999990 || s.tool == 9999) then none
    else
      let s := s.setRotation n rotation
      let offset := if l20 then s.offsetHere n pos words else s.offsetGiven n words
      some (s.setWcsOffset n offset)

/-- The `G92` offset under which an axis that reads `reading` reads what the word says. -/
def g92Axis (offset reading : R) (word : Option R) : R :=
  match word with
  | some value => offset + (value - reading)
  | none => offset

/-- `G92` with axis words. -/
def g92 (s : WorkState R) (words : AxisWords R) : WorkState R :=
  let pos := s.mcs2wcs s.machinePosition
  { s with
    g92Offset :=
      { x := g92Axis s.g92Offset.x pos.x words.x
        y := g92Axis s.g92Offset.y pos.y words.y
        z := g92Axis s.g92Offset.z pos.z words.z
        a := g92Axis s.g92Offset.a pos.a words.a
        b := g92Axis s.g92Offset.b pos.b words.b } }

/-! ## What a position reading becomes -/

/-- The named axes read the values given, and the others what they read before. -/
def ReadsAs (before after : Wcs R) (words : AxisWords R) : Prop :=
  after.x = words.x.getD before.x ∧ after.y = words.y.getD before.y ∧
    after.z = words.z.getD before.z ∧ after.a = words.a.getD before.a ∧
    after.b = words.b.getD before.b

/-- The rotations are rotations. -/
def Rotates (s : WorkState R) : Prop := ∀ n, s.cosR n * s.cosR n + s.sinR n * s.sinR n = 1

variable {s : WorkState R}

theorem mcs2wcs_wcs2mcs (h : s.Rotates) (pos : Wcs R) : s.mcs2wcs (s.wcs2mcs pos) = pos := by
  have hn := h s.currentWcs
  ext <;> simp only [mcs2wcs, mcs2selectedWcs, wcs2mcs]
  · linear_combination (pos.x - s.g92Offset.x + s.toolOffset.x) * hn
  · linear_combination (pos.y - s.g92Offset.y + s.toolOffset.y) * hn
  · ring
  · ring
  · ring

theorem wcs2mcs_mcs2wcs (h : s.Rotates) (pos : Wcs R) : s.wcs2mcs (s.mcs2wcs pos) = pos := by
  have hn := h s.currentWcs
  ext <;> simp only [mcs2wcs, mcs2selectedWcs, wcs2mcs]
  · linear_combination (pos.x - (s.wcsOffsets s.currentWcs).x) * hn
  · linear_combination (pos.y - (s.wcsOffsets s.currentWcs).y) * hn
  · ring
  · ring
  · ring

theorem g92Axis_eq (offset reading : R) (word : Option R) :
    g92Axis offset reading word = offset + (word.getD reading - reading) := by
  cases word with
  | none => simp [g92Axis]
  | some value => rfl

theorem readsAs_g92 (s : WorkState R) (words : AxisWords R) :
    ReadsAs (s.mcs2wcs s.machinePosition) ((s.g92 words).mcs2wcs s.machinePosition) words := by
  refine ⟨?_, ?_, ?_, ?_, ?_⟩ <;> simp only [g92, g92Axis_eq, mcs2wcs, mcs2selectedWcs] <;> ring

/-! ## Setting an offset to the current position -/

/-- A reading in the system whose offset was set. -/
theorem mcs2selectedWcs_set (s : WorkState R) (n : Fin maxWcs) (offset pos : Wcs R) :
    (s.setWcsOffset n offset).mcs2selectedWcs pos n =
      { x := s.cosR n * (pos.x - offset.x) + s.sinR n * (pos.y - offset.y)
          + s.g92Offset.x - s.toolOffset.x
        y := s.cosR n * (pos.y - offset.y) - s.sinR n * (pos.x - offset.x)
          + s.g92Offset.y - s.toolOffset.y
        z := pos.z - offset.z + s.g92Offset.z - s.toolOffset.z
        a := pos.a - offset.a + s.g92Offset.a - s.toolOffset.a
        b := pos.b - offset.b + s.g92Offset.b - s.toolOffset.b } := by
  simp only [mcs2selectedWcs, setWcsOffset, Function.update_self]

theorem offsetHere_xy (s : WorkState R) (n : Fin maxWcs) (pos : Wcs R) {words : AxisWords R}
    (h : words.x.isSome ∨ words.y.isSome) :
    (s.offsetHere n pos words).x = s.machinePosition.x - s.cosR n * words.x.getD pos.x
        + s.sinR n * words.y.getD pos.y ∧
      (s.offsetHere n pos words).y = s.machinePosition.y - s.cosR n * words.y.getD pos.y
        - s.sinR n * words.x.getD pos.x := by
  simp only [offsetHere]
  cases hx : words.x <;> cases hy : words.y <;> simp_all

theorem offsetHere_ab (s : WorkState R) (n : Fin maxWcs) (pos : Wcs R) (words : AxisWords R) :
    (s.offsetHere n pos words).a = (s.wcsOffsets n).a - (words.a.getD pos.a - pos.a) ∧
      (s.offsetHere n pos words).b = (s.wcsOffsets n).b - (words.b.getD pos.b - pos.b) := by
  simp only [offsetHere]
  cases words.a <;> cases words.b <;> simp

/-- The rotated pair reads the values wanted, and the `G92` and tool offsets on top of them. -/
theorem reading_offsetHere_xy (h : s.Rotates) (n : Fin maxWcs) (pos : Wcs R) {words : AxisWords R}
    (hnamed : words.x.isSome ∨ words.y.isSome) :
    ((s.setWcsOffset n (s.offsetHere n pos words)).mcs2selectedWcs s.machinePosition n).x =
        words.x.getD pos.x + (s.g92Offset.x - s.toolOffset.x) ∧
      ((s.setWcsOffset n (s.offsetHere n pos words)).mcs2selectedWcs s.machinePosition n).y =
        words.y.getD pos.y + (s.g92Offset.y - s.toolOffset.y) := by
  obtain ⟨hx, hy⟩ := s.offsetHere_xy n pos hnamed
  rw [mcs2selectedWcs_set, hx, hy]
  constructor
  · linear_combination words.x.getD pos.x * h n
  · linear_combination words.y.getD pos.y * h n

/-- `G10 L20` leaves the readings that it should exactly where the offsets that it does not undo are
nothing. -/
theorem readsAs_offsetHere_iff (h : s.Rotates) (n : Fin maxWcs) (words : AxisWords R) :
    ReadsAs (s.mcs2selectedWcs s.machinePosition n)
        ((s.setWcsOffset n (s.offsetHere n (s.mcs2selectedWcs s.machinePosition n) words))
          |>.mcs2selectedWcs s.machinePosition n) words ↔
      ((words.x.isSome ∨ words.y.isSome) →
        s.g92Offset.x = s.toolOffset.x ∧ s.g92Offset.y = s.toolOffset.y) ∧
      (words.z.isSome → s.g92Offset.z = 0) := by
  set pos := s.mcs2selectedWcs s.machinePosition n with hpos
  set after := (s.setWcsOffset n (s.offsetHere n pos words)).mcs2selectedWcs s.machinePosition n
    with hafter
  have hxy : (after.x = words.x.getD pos.x ∧ after.y = words.y.getD pos.y) ↔
      ((words.x.isSome ∨ words.y.isSome) →
        s.g92Offset.x = s.toolOffset.x ∧ s.g92Offset.y = s.toolOffset.y) := by
    by_cases hnamed : words.x.isSome ∨ words.y.isSome
    · obtain ⟨hx, hy⟩ := reading_offsetHere_xy h n pos hnamed
      rw [hx, hy, add_eq_left, add_eq_left, sub_eq_zero, sub_eq_zero]
      simp [hnamed]
    · refine iff_of_true ?_ fun hsome => absurd hsome hnamed
      rw [hafter, mcs2selectedWcs_set, hpos]
      simp_all [mcs2selectedWcs, offsetHere]
  have hz : after.z = words.z.getD pos.z ↔ (words.z.isSome → s.g92Offset.z = 0) := by
    rw [hafter, mcs2selectedWcs_set]
    cases hword : words.z with
    | none => simp [offsetHere, hword, hpos, mcs2selectedWcs]
    | some z =>
      simp only [offsetHere, hword, Option.getD_some, Option.isSome_some, forall_const]
      rw [← sub_eq_zero, show s.machinePosition.z - (s.machinePosition.z - z - s.toolOffset.z)
        + s.g92Offset.z - s.toolOffset.z - z = s.g92Offset.z by ring]
  have hab : after.a = words.a.getD pos.a ∧ after.b = words.b.getD pos.b := by
    obtain ⟨ha, hb⟩ := s.offsetHere_ab n pos words
    rw [hafter, mcs2selectedWcs_set, ha, hb, hpos]
    simp only [mcs2selectedWcs]
    constructor <;> ring
  rw [ReadsAs, ← and_assoc, hxy, hz, and_iff_left hab]

end WorkState

open WorkState

/-- The two conversions undo one another; `G92` leaves the readings of the current system as its
words say; and `G10 L20` does so for the system that it names exactly where `X` or `Y` is named only
while the `G92` and tool offsets of both are equal, and `Z` only while its `G92` offset is zero. -/
theorem work_offsets_set_iff {R : Type} [CommRing R] {s : WorkState R} (h : s.Rotates) :
    (∀ pos, s.mcs2wcs (s.wcs2mcs pos) = pos ∧ s.wcs2mcs (s.mcs2wcs pos) = pos) ∧
    (∀ words, (s.g92 words).wcsOffsets = s.wcsOffsets ∧
      ReadsAs (s.mcs2wcs s.machinePosition) ((s.g92 words).mcs2wcs s.machinePosition) words) ∧
    ∀ p n words s', s.systemOf p = some n → s.g10 true p none words = some s' →
      (∀ m, m ≠ n → s'.wcsOffsets m = s.wcsOffsets m) ∧
      (ReadsAs (s.mcs2selectedWcs s.machinePosition n) (s'.mcs2selectedWcs s'.machinePosition n)
          words ↔
        ((words.x.isSome ∨ words.y.isSome) →
          s.g92Offset.x = s.toolOffset.x ∧ s.g92Offset.y = s.toolOffset.y) ∧
        (words.z.isSome → s.g92Offset.z = 0)) := by
  refine ⟨fun pos => ⟨mcs2wcs_wcs2mcs h pos, wcs2mcs_mcs2wcs h pos⟩,
    fun words => ⟨rfl, readsAs_g92 s words⟩, fun p n words s' hp hg10 => ?_⟩
  simp only [g10, hp] at hg10
  split at hg10
  · cases hg10
  · obtain rfl := Option.some.inj hg10
    refine ⟨fun m hm => Function.update_of_ne hm _ _, ?_⟩
    exact readsAs_offsetHere_iff h n words

/-- A machine whose second system is turned by a quarter, at `(2, 3)`. -/
def turned : WorkState Int where
  machinePosition := ⟨2, 3, 4, 5, 6⟩
  wcsOffsets := fun _ => ⟨1, 1, 1, 1, 1⟩
  cosR := fun n => if n = 1 then 0 else 1
  sinR := fun n => if n = 1 then 1 else 0
  currentWcs := 1
  g92Offset := ⟨7, 8, 0, 9, 9⟩
  toolOffset := ⟨7, 8, 5, 0, 0⟩

theorem rotates_turned : turned.Rotates := by
  intro n
  fin_cases n <;> rfl

theorem work_offsets_set_turned :
    (turned.g10 true 2 none { x := some 0, z := some 0 }).isSome = true ∧
    ∀ s', turned.g10 true 2 none { x := some 0, z := some 0 } = some s' →
      ReadsAs (turned.mcs2selectedWcs turned.machinePosition 1)
        (s'.mcs2selectedWcs s'.machinePosition 1) { x := some 0, z := some 0 } := by
  refine ⟨rfl, fun s' hg10 => ?_⟩
  exact (((work_offsets_set_iff rotates_turned).2.2 2 1 _ s' rfl hg10).2).mpr
    ⟨fun _ => ⟨rfl, rfl⟩, fun _ => rfl⟩

/-- The origin, with a `G92` offset of five in `X`. -/
def shifted : WorkState Int where
  machinePosition := ⟨0, 0, 0, 0, 0⟩
  wcsOffsets := fun _ => ⟨0, 0, 0, 0, 0⟩
  cosR := fun _ => 1
  sinR := fun _ => 0
  currentWcs := 0
  g92Offset := ⟨5, 0, 0, 0, 0⟩
  toolOffset := ⟨0, 0, 0, 0, 0⟩

/-- `G10 L20 P1 X0` leaves the position reading five. -/
theorem g92_left_in_reading :
    ∃ s', shifted.g10 true 1 none { x := some 0 } = some s' ∧
      (s'.mcs2selectedWcs s'.machinePosition 0).x = 5 ∧
      ¬ ReadsAs (shifted.mcs2selectedWcs shifted.machinePosition 0)
        (s'.mcs2selectedWcs s'.machinePosition 0) { x := some 0 } := by
  refine ⟨_, rfl, by decide, fun h => ?_⟩
  exact absurd h.1 (by decide)

end CarveraFirmware.Robot
