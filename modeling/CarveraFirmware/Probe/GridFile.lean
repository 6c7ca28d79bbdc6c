import Mathlib

/-!
# Grid files

`CartGridStrategy::save_grid` and `load_grid`, on files that are read and written without device
errors. Numbers of the type `float` are their four bytes. The largest delta, which the robot is
told, is left out.
-/

namespace CarveraFirmware.Probe

/-- A number of the type `float`, from its lowest byte. -/
structure FloatBytes where
  b0 : UInt8
  b1 : UInt8
  b2 : UInt8
  b3 : UInt8
  deriving DecidableEq, Repr

def FloatBytes.bytes (w : FloatBytes) : List UInt8 := [w.b0, w.b1, w.b2, w.b3]

def FloatBytes.isNaN (w : FloatBytes) : Bool :=
  w.b3 &&& 0x7f = 0x7f && w.b2 &&& 0x80 = 0x80 && !(w.b2 &&& 0x7f = 0 && w.b1 = 0 && w.b0 = 0)

/-- What a number holds after the file has ended within it. -/
structure ShortRead where
  element : List UInt8 → FloatBytes → FloatBytes
  nothing : ∀ w, element [] w = w

structure GridState where
  configuredGridXSize : UInt8
  configuredGridYSize : UInt8
  currentGridXSize : UInt8
  currentGridYSize : UInt8
  newFileFormat : Bool
  xStart : FloatBytes
  yStart : FloatBytes
  xSize : FloatBytes
  ySize : FloatBytes
  grid : ℕ → FloatBytes

namespace GridState

/-- The places of the cells, row by row. -/
def cells (xSize ySize : UInt8) : List ℕ :=
  (List.range ySize.toNat).flatMap fun y => (List.range xSize.toNat).map fun x => x + xSize.toNat * y

/-- `CartGridStrategy::save_grid`; nothing is written without a grid. -/
def saveGrid (s : GridState) : Option (List UInt8) :=
  if (s.grid 0).isNaN then none
  else
    some ([s.currentGridXSize] ++ (if s.newFileFormat then [s.currentGridYSize] else []) ++
      s.xStart.bytes ++ s.yStart.bytes ++ s.xSize.bytes ++ s.ySize.bytes ++
      (cells s.currentGridXSize s.currentGridYSize).flatMap fun i => (s.grid i).bytes)

def readFloat : List UInt8 → Option (FloatBytes × List UInt8)
  | b0 :: b1 :: b2 :: b3 :: bytes => some (⟨b0, b1, b2, b3⟩, bytes)
  | _ => none

def readFloats (bytes : List UInt8) : Option (FloatBytes × FloatBytes × List UInt8) := do
  let (a, bytes) ← readFloat bytes
  let (b, bytes) ← readFloat bytes
  some (a, b, bytes)

/-- The sizes that a file starts with, where they are allowed. -/
def readSizes (s : GridState) : List UInt8 → Option (UInt8 × UInt8 × List UInt8)
  | [] => none
  | loadGridXSize :: bytes =>
    if s.configuredGridXSize < loadGridXSize then none
    else if s.newFileFormat then
      match bytes with
      | [] => none
      | loadGridYSize :: bytes =>
        if s.configuredGridYSize < loadGridYSize then none
        else some (loadGridXSize, loadGridYSize, bytes)
    else some (loadGridXSize, loadGridXSize, bytes)

/-- The cells are read one by one into their places. -/
def loadCells (short : ShortRead) :
    List ℕ → List UInt8 → (ℕ → FloatBytes) → (ℕ → FloatBytes) × Bool
  | [], _, grid => (grid, true)
  | i :: cells, bytes, grid =>
    match readFloat bytes with
    | none => (Function.update grid i (short.element bytes (grid i)), false)
    | some (w, bytes) => loadCells short cells bytes (Function.update grid i w)

/-- `CartGridStrategy::load_grid`; no file cannot be opened. -/
def loadGrid (short : ShortRead) (file : Option (List UInt8)) (s : GridState) : GridState × Bool :=
  match file.bind s.readSizes with
  | none => (s, false)
  | some (loadGridXSize, loadGridYSize, bytes) =>
    let s := { s with currentGridXSize := loadGridXSize, currentGridYSize := loadGridYSize }
    match readFloats bytes with
    | none => (s, false)
    | some (tempXStart, tempYStart, bytes) =>
      let s := { s with xStart := tempXStart, yStart := tempYStart }
      match readFloats bytes with
      | none => (s, false)
      | some (x, y, bytes) =>
        let s := { s with xSize := x, ySize := y }
        let loaded := loadCells short (cells s.currentGridXSize s.currentGridYSize) bytes s.grid
        ({ s with grid := loaded.1 }, loaded.2)

/-- The state with the grid of another. -/
def withGrid (s t : GridState) : GridState :=
  { t with
    currentGridXSize := s.currentGridXSize
    currentGridYSize := s.currentGridYSize
    xStart := s.xStart
    yStart := s.yStart
    xSize := s.xSize
    ySize := s.ySize
    grid := fun i =>
      if i < s.currentGridXSize.toNat * s.currentGridYSize.toNat then s.grid i else t.grid i }

/-- A saved grid is the one that is loaded. -/
def RoundTrips (short : ShortRead) (s t : GridState) : Prop :=
  ∃ bytes, s.saveGrid = some bytes ∧ loadGrid short (some bytes) t = (withGrid s t, true)

/-- A load that fails changes nothing. -/
def FailureKeeps (short : ShortRead) (file : Option (List UInt8)) (s : GridState) : Prop :=
  (loadGrid short file s).2 = false → (loadGrid short file s).1 = s

/-- Each cell that is there is the one in its place, and what is left of one too. -/
def SameCells (short : ShortRead) (grid : ℕ → FloatBytes) : ℕ → List UInt8 → Prop
  | i, b0 :: b1 :: b2 :: b3 :: bytes =>
    ⟨b0, b1, b2, b3⟩ = grid i ∧ SameCells short grid (i + 1) bytes
  | i, bytes => short.element bytes (grid i) = grid i

/-- The file fails before its sizes are taken, or is long enough, or holds the present values as far
as it goes. -/
def CutKeeps (short : ShortRead) (file : Option (List UInt8)) (s : GridState) : Prop :=
  match file.bind s.readSizes with
  | none => True
  | some (x, y, bytes) =>
    16 + 4 * (x.toNat * y.toNat) ≤ bytes.length ∨
      x = s.currentGridXSize ∧ y = s.currentGridYSize ∧
        match readFloats bytes with
        | none => True
        | some (x, y, bytes) =>
          x = s.xStart ∧ y = s.yStart ∧
            match readFloats bytes with
            | none => True
            | some (x, y, bytes) => x = s.xSize ∧ y = s.ySize ∧ SameCells short s.grid 0 bytes

variable {short : ShortRead} {s t : GridState} {grid grid' : ℕ → FloatBytes} {bytes rest : List UInt8}

/-! ## The cells -/

theorem cells_eq (x y : UInt8) : cells x y = List.range' 0 (x.toNat * y.toNat) := by
  rw [cells, ← List.range_eq_range']
  generalize y.toNat = n
  induction n with
  | zero => rfl
  | succ n ih =>
    rw [List.range_succ, List.flatMap_append, ih, Nat.mul_succ, List.range_add, List.flatMap_singleton]
    congr 1
    exact List.map_congr_left fun i _ => Nat.add_comm ..

theorem readFloat_bytes (w : FloatBytes) : readFloat (w.bytes ++ rest) = some (w, rest) := rfl

theorem readFloats_bytes (a b : FloatBytes) :
    readFloats (a.bytes ++ (b.bytes ++ rest)) = some (a, b, rest) := rfl

/-- What is loaded behind a cell leaves it. -/
theorem loadCells_below {i k n : ℕ} (h : i < k) :
    (loadCells short (List.range' k n) bytes grid).1 i = grid i := by
  induction n generalizing k bytes grid with
  | zero => rfl
  | succ n ih =>
    have hne : i ≠ k := h.ne
    rw [List.range'_succ, loadCells]
    split
    · exact Function.update_of_ne hne ..
    · rw [ih (Nat.lt_succ_of_lt h), Function.update_of_ne hne]

/-- All cells are there. -/
theorem loadCells_bytes (k n : ℕ) :
    loadCells short (List.range' k n)
        (((List.range' k n).flatMap fun i => (grid i).bytes) ++ rest) grid' =
      (fun i => if k ≤ i ∧ i < k + n then grid i else grid' i, true) := by
  induction n generalizing k grid' with
  | zero =>
    have hnone (i : ℕ) : ¬ (k ≤ i ∧ i < k) := by omega
    simp [loadCells, hnone]
  | succ n ih =>
    rw [List.range'_succ, List.flatMap_cons, List.append_assoc, loadCells, readFloat_bytes]
    dsimp only
    rw [ih]
    congr 1
    funext i
    obtain rfl | hne := eq_or_ne i k
    · rw [if_neg (by omega), if_pos (by omega), Function.update_self]
    · rw [Function.update_of_ne hne]
      exact if_congr (by omega) rfl rfl

theorem exists_bytes_of_le (h : 4 ≤ bytes.length) :
    ∃ w rest, bytes = FloatBytes.bytes w ++ rest := by
  match bytes, h with
  | b0 :: b1 :: b2 :: b3 :: rest, _ => exact ⟨⟨b0, b1, b2, b3⟩, rest, rfl⟩

theorem readFloat_of_lt (h : bytes.length < 4) : readFloat bytes = none := by
  match bytes, h with
  | [], _ => rfl
  | [_], _ => rfl
  | [_, _], _ => rfl
  | [_, _, _], _ => rfl

theorem sameCells_of_lt {i : ℕ} (h : bytes.length < 4) :
    SameCells short grid i bytes ↔ short.element bytes (grid i) = grid i := by
  match bytes, h with
  | [], _ => rfl
  | [_], _ => rfl
  | [_, _], _ => rfl
  | [_, _, _], _ => rfl

/-- The file is long enough. -/
theorem loadCells_long {k n : ℕ} (h : 4 * n ≤ bytes.length) :
    (loadCells short (List.range' k n) bytes grid).2 = true := by
  induction n generalizing k bytes grid with
  | zero => rfl
  | succ n ih =>
    obtain ⟨w, rest, rfl⟩ := exists_bytes_of_le (le_trans (by omega) h)
    have hrest : 4 * n ≤ rest.length := by
      have hlength : (w.bytes ++ rest).length = 4 + rest.length := by
        rw [List.length_append]
        rfl
      omega
    rw [List.range'_succ, loadCells, readFloat_bytes]
    exact ih hrest

/-- The file ends before. -/
theorem loadCells_cut {k n : ℕ} (h : bytes.length < 4 * n) :
    (loadCells short (List.range' k n) bytes grid).2 = false ∧
      ((loadCells short (List.range' k n) bytes grid).1 = grid ↔ SameCells short grid k bytes) := by
  induction n generalizing k bytes grid with
  | zero => omega
  | succ n ih =>
    rw [List.range'_succ, loadCells]
    obtain hshort | hlong := lt_or_ge bytes.length 4
    · rw [readFloat_of_lt hshort, sameCells_of_lt hshort]
      exact ⟨rfl, Function.update_eq_self_iff⟩
    · obtain ⟨w, rest, rfl⟩ := exists_bytes_of_le hlong
      have hrest : rest.length < 4 * n := by
        have hlength : (w.bytes ++ rest).length = 4 + rest.length := by
          rw [List.length_append]
          rfl
        omega
      have hsame : SameCells short grid k (w.bytes ++ rest) ↔
          w = grid k ∧ SameCells short grid (k + 1) rest := Iff.rfl
      rw [readFloat_bytes, hsame]
      dsimp only
      obtain rfl | hne := eq_or_ne w (grid k)
      · rw [Function.update_eq_self, and_iff_right rfl]
        exact ih hrest
      · refine ⟨(ih hrest).1, iff_of_false (fun h => hne ?_) fun h => hne h.1⟩
        have hkept := congrFun h k
        rw [loadCells_below (Nat.lt_succ_self k), Function.update_self] at hkept
        exact hkept

/-! ## Loads that fail -/

theorem exists_floats_of_le (h : 8 ≤ bytes.length) :
    ∃ a b rest, bytes = FloatBytes.bytes a ++ (FloatBytes.bytes b ++ rest) ∧
      bytes.length = 8 + rest.length := by
  match bytes, h with
  | a0 :: a1 :: a2 :: a3 :: b0 :: b1 :: b2 :: b3 :: rest, _ =>
    refine ⟨⟨a0, a1, a2, a3⟩, ⟨b0, b1, b2, b3⟩, rest, rfl, ?_⟩
    simp only [List.length_cons]
    omega

theorem readFloats_of_lt (h : bytes.length < 8) : readFloats bytes = none := by
  obtain hshort | hlong := lt_or_ge bytes.length 4
  · rw [readFloats, readFloat_of_lt hshort]
    rfl
  · obtain ⟨a, rest, rfl⟩ := exists_bytes_of_le hlong
    have hlength : (a.bytes ++ rest).length = 4 + rest.length := by
      rw [List.length_append]
      rfl
    rw [readFloats, readFloat_bytes]
    simp [readFloat_of_lt (show rest.length < 4 by omega)]

/-- Two numbers are read, or the rest is too short. -/
theorem readFloats_cases (bytes : List UInt8) :
    (readFloats bytes = none ∧ bytes.length < 8) ∨
      ∃ a b rest, readFloats bytes = some (a, b, rest) ∧ bytes.length = 8 + rest.length := by
  obtain hshort | hlong := lt_or_ge bytes.length 8
  · exact .inl ⟨readFloats_of_lt hshort, hshort⟩
  · obtain ⟨a, b, rest, rfl, hlength⟩ := exists_floats_of_le hlong
    exact .inr ⟨a, b, rest, readFloats_bytes a b, hlength⟩

theorem failureKeeps_iff {file : Option (List UInt8)} :
    FailureKeeps short file s ↔ CutKeeps short file s := by
  rw [FailureKeeps, CutKeeps, loadGrid]
  cases file.bind s.readSizes with
  | none => simp
  | some sizes =>
    obtain ⟨x, y, bytes⟩ := sizes
    dsimp only
    -- The reads in the order of the source: the start, the area, the cells; a cut in the cells
    -- alone has written some of them.
    obtain ⟨hstart, hlt⟩ | ⟨xStart, yStart, bytes', hstart, hlength⟩ := readFloats_cases bytes
    · rw [hstart, or_iff_right (by omega)]
      cases s
      simp
    · rw [hstart]
      dsimp only
      obtain ⟨harea, hlt⟩ | ⟨xSize, ySize, rest, harea, hlength'⟩ := readFloats_cases bytes'
      · rw [harea, or_iff_right (by omega)]
        cases s
        simp
      · rw [harea]
        dsimp only
        rw [cells_eq]
        obtain hlong | hcut := le_or_gt (4 * (x.toNat * y.toNat)) rest.length
        · rw [loadCells_long hlong]
          exact iff_of_true nofun (.inl (by omega))
        · obtain ⟨hfail, hkept⟩ := @loadCells_cut short s.grid _ 0 _ hcut
          rw [or_iff_right (by omega), hfail, ← hkept]
          generalize loadCells short _ rest s.grid = loaded
          cases s
          simp

/-! ## Grids that are saved -/

/-- What a save asks of the grid, and a load of a file with it. -/
structure Saved (s t : GridState) : Prop where
  number : (s.grid 0).isNaN = false
  x_le : s.currentGridXSize ≤ t.configuredGridXSize
  y_le : s.currentGridYSize ≤ t.configuredGridYSize
  format : t.newFileFormat = s.newFileFormat

/-- What is written behind the sizes. -/
def body (s : GridState) : List UInt8 :=
  s.xStart.bytes ++ (s.yStart.bytes ++ (s.xSize.bytes ++ (s.ySize.bytes ++
    (((List.range' 0 (s.currentGridXSize.toNat * s.currentGridYSize.toNat)).flatMap fun i =>
      (s.grid i).bytes) ++ []))))

theorem saveGrid_eq (h : (s.grid 0).isNaN = false) :
    s.saveGrid = some (s.currentGridXSize ::
      ((if s.newFileFormat then [s.currentGridYSize] else []) ++ body s)) := by
  rw [saveGrid, h, cells_eq]
  simp [body]

theorem loadGrid_body {file : Option (List UInt8)}
    (h : file.bind t.readSizes = some (s.currentGridXSize, s.currentGridYSize, body s)) :
    loadGrid short file t = (withGrid s t, true) := by
  rw [loadGrid, h, body]
  dsimp only
  rw [readFloats_bytes]
  dsimp only
  rw [readFloats_bytes]
  dsimp only
  rw [cells_eq, loadCells_bytes]
  simp [withGrid]

theorem loadGrid_ySize {file : Option (List UInt8)} {x y : UInt8}
    (h : file.bind t.readSizes = some (x, y, bytes)) :
    (loadGrid short file t).1.currentGridYSize = y := by
  rw [loadGrid, h]
  dsimp only
  split
  · rfl
  · split <;> rfl

/-- The old format has one size. -/
theorem roundTrips_iff (h : Saved s t) :
    RoundTrips short s t ↔ s.newFileFormat = true ∨ s.currentGridXSize = s.currentGridYSize := by
  have hx : ¬ t.configuredGridXSize < s.currentGridXSize := UInt8.not_lt.2 h.x_le
  have hy : ¬ t.configuredGridYSize < s.currentGridYSize := UInt8.not_lt.2 h.y_le
  have hformat := h.format
  have hsaved := saveGrid_eq h.number
  cases hnew : s.newFileFormat with
  | true =>
    rw [hnew] at hformat hsaved
    refine iff_of_true ⟨_, hsaved, loadGrid_body ?_⟩ (.inl rfl)
    simp [readSizes, hx, hy, hformat]
  | false =>
    rw [hnew] at hformat
    rw [hnew, if_neg Bool.false_ne_true] at hsaved
    have hsizes : (some (s.currentGridXSize :: ([] ++ body s))).bind t.readSizes =
        some (s.currentGridXSize, s.currentGridXSize, body s) := by
      simp [readSizes, hx, hformat]
    rw [or_iff_right (by simp)]
    constructor
    · rintro ⟨bytes, hbytes, hload⟩
      obtain rfl := Option.some.inj (hsaved.symm.trans hbytes)
      have hsize := @loadGrid_ySize short t _ _ _ _ hsizes
      rw [hload] at hsize
      exact hsize.symm
    · intro hsquare
      exact ⟨_, hsaved, loadGrid_body (hsizes.trans (by rw [← hsquare]))⟩

/-- The old format has to be square, and a load that fails must have read what was there. -/
theorem gridFile_safe_iff (short : ShortRead) (file : Option (List UInt8)) (h : Saved s t) :
    RoundTrips short s t ∧ FailureKeeps short file t ↔
      (s.newFileFormat = true ∨ s.currentGridXSize = s.currentGridYSize) ∧ CutKeeps short file t :=
  and_congr (roundTrips_iff h) failureKeeps_iff

/-- The bytes that are there have been copied. -/
def copiedBytes : ShortRead where
  element := fun bytes w =>
    ⟨bytes.getD 0 w.b0, bytes.getD 1 w.b1, bytes.getD 2 w.b2, bytes.getD 3 w.b3⟩
  nothing := fun _ => rfl

/-- A grid of two by three points. -/
def smallGrid : GridState where
  configuredGridXSize := 7
  configuredGridYSize := 7
  currentGridXSize := 2
  currentGridYSize := 3
  newFileFormat := true
  xStart := ⟨0, 0, 0, 0⟩
  yStart := ⟨0, 0, 0, 0⟩
  xSize := ⟨0, 0, 200, 66⟩
  ySize := ⟨0, 0, 72, 67⟩
  grid := fun _ => ⟨0, 0, 128, 63⟩

theorem gridFile_safe_iff_small :
    RoundTrips copiedBytes smallGrid smallGrid ∧
      FailureKeeps copiedBytes (some [2, 3, 0, 0, 0]) smallGrid :=
  (gridFile_safe_iff copiedBytes (some [2, 3, 0, 0, 0]) ⟨by decide, by decide, by decide, rfl⟩).2
    ⟨.inl rfl, .inr ⟨rfl, rfl, trivial⟩⟩

/-- A file that ends behind its sizes leaves them. -/
theorem cut_file_changes_sizes :
    Saved smallGrid smallGrid ∧ ¬ FailureKeeps copiedBytes (some [4, 4]) smallGrid := by
  refine ⟨⟨by decide, by decide, by decide, rfl⟩, fun h => ?_⟩
  have hsize := congrArg currentGridXSize (h rfl)
  exact absurd hsize (by decide)

end GridState

end CarveraFirmware.Probe
