import Mathlib
import CarveraFirmware.Library.CheckedInt

/-!
# Custom tool slots

`ATCHandler::atc_tool`, `add_custom_tool_slot` and `remove_custom_tool_slot`, over exact numbers. What
is printed is left out.
-/

namespace CarveraFirmware.Tools

/-- The coordinates are in hundredths of a millimetre; one that is -1 is not set. -/
structure AtcTool where
  num : ℕ := 0
  mxMm : ℤ := -1
  myMm : ℤ := -1
  mzMm : ℤ := -1
  deriving DecidableEq, Repr

/-- The three coordinates in millimetres. -/
structure SlotPlace where
  x : ℚ
  y : ℚ
  z : ℚ

def getMm (stored : ℤ) : ℚ := stored / 100

/-- What is stored for a coordinate; `NAN` is none. -/
def setMm (val : Option ℚ) : ℤ :=
  match val with
  | none => -1
  | some val =>
    if 1000 < val ∨ val < -1000 then -1
    else
      let fixed := val * 100
      let fixed := if 32767 < fixed then 32767 else if fixed < -32768 then -32768 else fixed
      truncate (fixed + if 0 ≤ fixed then 1 / 2 else -(1 / 2))

namespace AtcTool

def isValid (tool : AtcTool) : Bool := tool.mxMm ≠ -1 && tool.myMm ≠ -1 && tool.mzMm ≠ -1

def getMxMm (tool : AtcTool) : ℚ := getMm tool.mxMm
def getMyMm (tool : AtcTool) : ℚ := getMm tool.myMm
def getMzMm (tool : AtcTool) : ℚ := getMm tool.mzMm

def setMxMm (tool : AtcTool) (val : Option ℚ) : AtcTool := { tool with mxMm := setMm val }
def setMyMm (tool : AtcTool) (val : Option ℚ) : AtcTool := { tool with myMm := setMm val }
def setMzMm (tool : AtcTool) (val : Option ℚ) : AtcTool := { tool with mzMm := setMm val }

end AtcTool

/-- A slot, or what a slot that is added has first. -/
def slotAt (slots : List AtcTool) (n : ℕ) : AtcTool := slots.getD n ({} : AtcTool)

def isCustomToolDefined (slots : List AtcTool) (toolNum : ℤ) : Bool :=
  if toolNum < 0 ∨ slots.length ≤ toolNum then false else (slotAt slots toolNum.toNat).isValid

/-- `atc_tools.resize`, where it grows. -/
def growTo (slots : List AtcTool) (size : ℕ) : List AtcTool :=
  slots ++ List.replicate (size - slots.length) ({} : AtcTool)

/-- A slot gets its number and its coordinates. -/
def placeSlot (slots : List AtcTool) (n : ℕ) (x y z : Option ℚ) : List AtcTool :=
  let slots := if slots.length ≤ n then growTo slots (n + 1) else slots
  slots.set n (((({ slotAt slots n with num := n } : AtcTool).setMxMm x).setMyMm y).setMzMm z)

/-- The Z of the nearest valid slot below a number. -/
def lastValidZ (slots : List AtcTool) : ℕ → Option ℚ
  | 0 => none
  | n + 1 =>
    if n < slots.length && (slotAt slots n).isValid then some (slotAt slots n).getMzMm
    else lastValidZ slots n

def addCustomToolSlot (toolNum : ℤ) (x y z : Option ℚ) (slots : List AtcTool) : List AtcTool :=
  if toolNum < 0 ∨ 255 < toolNum then slots
  else if x.isNone || y.isNone then slots
  else
    match z <|> lastValidZ slots toolNum.toNat with
    | none => slots
    | some z => placeSlot slots toolNum.toNat x y (some z)

def removeCustomToolSlot (toolNum : ℤ) (slots : List AtcTool) : List AtcTool :=
  if toolNum < 0 ∨ 255 < toolNum then slots
  else if slots.length ≤ toolNum || !(slotAt slots toolNum.toNat).isValid then slots
  else
    slots.set toolNum.toNat
      { slotAt slots toolNum.toNat with mxMm := -1, myMm := -1, mzMm := -1 }

/-! ## The coordinates -/

/-- A number between -1000 and 1000. -/
abbrev Coordinate := { val : ℚ // -1000 ≤ val ∧ val ≤ 1000 }

/-- A coordinate that can be stored: 16 bits hold it in hundredths, and it does not round to -1. -/
def Storable (val : ℚ) : Prop :=
  -32768.5 ≤ val * 100 ∧ val * 100 ≤ 32767.5 ∧ ¬ (-1.5 < val * 100 ∧ val * 100 ≤ -0.5)

/-- A stored coordinate is set, and near the given one. -/
def Stores (stored : ℤ) (val : ℚ) : Prop := stored ≠ -1 ∧ |getMm stored - val| ≤ 0.005

/-- Half away from zero. -/
def rounded (fixed : ℚ) : ℤ := truncate (fixed + if 0 ≤ fixed then 1 / 2 else -(1 / 2))

theorem rounded_of_nonneg {fixed : ℚ} (h : 0 ≤ fixed) :
    (rounded fixed : ℚ) ≤ fixed + 1 / 2 ∧ fixed - 1 / 2 < rounded fixed ∧ 0 ≤ rounded fixed := by
  rw [rounded, if_pos h, truncate_of_nonneg (by linarith)]
  have hle := Int.floor_le (fixed + 1 / 2)
  have hlt := Int.lt_floor_add_one (fixed + 1 / 2)
  exact ⟨hle, by linarith, Int.floor_nonneg.2 (by linarith)⟩

theorem rounded_of_neg {fixed : ℚ} (h : fixed < 0) :
    fixed - 1 / 2 ≤ rounded fixed ∧ (rounded fixed : ℚ) < fixed + 1 / 2 := by
  rw [rounded, if_neg h.not_ge, truncate, if_neg (by linarith), ← sub_eq_add_neg]
  have hle := Int.le_ceil (fixed - 1 / 2)
  have hlt := Int.ceil_lt_add_one (fixed - 1 / 2)
  exact ⟨hle, by linarith⟩

theorem abs_rounded_sub_le (fixed : ℚ) : |(rounded fixed : ℚ) - fixed| ≤ 1 / 2 := by
  rw [abs_le]
  obtain h | h := le_or_gt 0 fixed
  · obtain ⟨hle, hlt, -⟩ := rounded_of_nonneg h
    exact ⟨by linarith, by linarith⟩
  · obtain ⟨hle, hlt⟩ := rounded_of_neg h
    exact ⟨by linarith, by linarith⟩

theorem rounded_eq_neg_one_iff (fixed : ℚ) : rounded fixed = -1 ↔ -1.5 < fixed ∧ fixed ≤ -0.5 := by
  obtain h | h := le_or_gt 0 fixed
  · obtain ⟨-, -, hnonneg⟩ := rounded_of_nonneg h
    exact iff_of_false (by omega) (by norm_num; intro; linarith)
  · obtain ⟨hle, hlt⟩ := rounded_of_neg h
    constructor
    · intro heq
      rw [heq] at hle hlt
      push_cast at hle hlt
      exact ⟨by linarith, by linarith⟩
    · rintro ⟨hlow, hhigh⟩
      have hlow' : (-2 : ℚ) < rounded fixed := by linarith
      have hhigh' : (rounded fixed : ℚ) < 0 := by linarith
      have hlow'' : -2 < rounded fixed := by exact_mod_cast hlow'
      have hhigh'' : rounded fixed < 0 := by exact_mod_cast hhigh'
      omega

theorem rounded_int (k : ℤ) : rounded k = k := by
  have hnear := abs_rounded_sub_le k
  have hlt : |rounded k - k| < 1 := by
    have hcast : ((|rounded k - k| : ℤ) : ℚ) < 1 := by
      push_cast
      linarith
    exact_mod_cast hcast
  have hzero := Int.abs_lt_one_iff.1 hlt
  omega

/-- What 16 bits hold. -/
def clamped (fixed : ℚ) : ℚ :=
  if 32767 < fixed then 32767 else if fixed < -32768 then -32768 else fixed

theorem clamped_range (fixed : ℚ) : -32768 ≤ clamped fixed ∧ clamped fixed ≤ 32767 := by
  rw [clamped]
  split
  · exact ⟨by norm_num, le_rfl⟩
  · split
    · exact ⟨le_rfl, by norm_num⟩
    · exact ⟨by linarith, by linarith⟩

theorem clamped_of_range {fixed : ℚ} (h : -32768 ≤ fixed ∧ fixed ≤ 32767) : clamped fixed = fixed := by
  rw [clamped, if_neg h.2.not_gt, if_neg h.1.not_gt]

theorem setMm_eq {val : ℚ} (h : -1000 ≤ val ∧ val ≤ 1000) :
    setMm (some val) = rounded (clamped (val * 100)) := by
  rw [setMm, if_neg (by simp [h])]
  rfl

theorem rounded_clamped_range (fixed : ℚ) :
    -32768 ≤ rounded (clamped fixed) ∧ rounded (clamped fixed) ≤ 32767 := by
  obtain ⟨hlow, hhigh⟩ := clamped_range fixed
  obtain ⟨hnear, hnear'⟩ := abs_le.1 (abs_rounded_sub_le (clamped fixed))
  have hlow' : (-32769 : ℚ) < rounded (clamped fixed) := by linarith
  have hhigh' : (rounded (clamped fixed) : ℚ) < 32768 := by linarith
  have hlow'' : -32769 < rounded (clamped fixed) := by exact_mod_cast hlow'
  have hhigh'' : rounded (clamped fixed) < 32768 := by exact_mod_cast hhigh'
  omega

/-- 16 bits hold what is stored. -/
theorem setMm_range (val : Option ℚ) : -32768 ≤ setMm val ∧ setMm val ≤ 32767 := by
  cases val with
  | none => decide
  | some val =>
    by_cases h : -1000 ≤ val ∧ val ≤ 1000
    · rw [setMm_eq h]
      exact rounded_clamped_range _
    · have hout : 1000 < val ∨ val < -1000 := by
        by_contra hin
        rw [not_or, not_lt, not_lt] at hin
        exact h ⟨hin.2, hin.1⟩
      rw [setMm, if_pos hout]
      decide

/-- What is read back is stored as it was. -/
theorem setMm_getMm {stored : ℤ} (h : -32768 ≤ stored ∧ stored ≤ 32767) :
    setMm (some (getMm stored)) = stored := by
  have hlow : (-32768 : ℚ) ≤ stored := by exact_mod_cast h.1
  have hhigh : (stored : ℚ) ≤ 32767 := by exact_mod_cast h.2
  have hback : getMm stored * 100 = stored := by rw [getMm, div_mul_cancel₀ _ (by norm_num)]
  rw [setMm_eq ⟨by rw [getMm]; linarith, by rw [getMm]; linarith⟩, hback,
    clamped_of_range ⟨hlow, hhigh⟩, rounded_int]

theorem stores_iff {stored : ℤ} {val : ℚ} :
    Stores stored val ↔ stored ≠ -1 ∧ |(stored : ℚ) - val * 100| ≤ 1 / 2 := by
  have hscale : getMm stored - val = (stored - val * 100) / 100 := by
    rw [getMm]
    ring
  rw [Stores, hscale, abs_div, abs_of_pos (by norm_num : (0 : ℚ) < 100), div_le_iff₀ (by norm_num)]
  norm_num

theorem setMm_stores_iff {val : ℚ} (h : -1000 ≤ val ∧ val ≤ 1000) :
    Stores (setMm (some val)) val ↔ Storable val := by
  rw [setMm_eq h, Storable, stores_iff]
  obtain hlow | hlow := lt_or_ge (val * 100) (-32768)
  · have hclamped : clamped (val * 100) = (-32768 : ℤ) := by
      rw [clamped, if_neg (by linarith), if_pos hlow]
      norm_num
    rw [hclamped, rounded_int, abs_le]
    push_cast
    constructor
    · rintro ⟨-, -, hnear⟩
      exact ⟨by linarith, by linarith, fun h => by linarith [h.1]⟩
    · rintro ⟨hnear, -, -⟩
      exact ⟨by decide, by linarith, by linarith⟩
  · obtain hhigh | hhigh := lt_or_ge 32767 (val * 100)
    · have hclamped : clamped (val * 100) = (32767 : ℤ) := by
        rw [clamped, if_pos hhigh]
        norm_num
      rw [hclamped, rounded_int, abs_le]
      push_cast
      constructor
      · rintro ⟨-, hnear, -⟩
        exact ⟨by linarith, by linarith, fun h => by linarith [h.2]⟩
      · rintro ⟨-, hnear, -⟩
        exact ⟨by decide, by linarith, by linarith⟩
    · rw [clamped_of_range ⟨hlow, hhigh⟩, Ne, rounded_eq_neg_one_iff,
        and_iff_left (abs_rounded_sub_le _)]
      exact ⟨fun h => ⟨by linarith, by linarith, h⟩, fun h => h.2.2⟩

/-! ## The slots -/

variable {slots : List AtcTool} {n k : ℕ} {x y z : Option ℚ}

/-- The slots that are added are not set. -/
theorem slotAt_growTo : slotAt (growTo slots k) n = slotAt slots n := by
  rw [slotAt, slotAt, growTo, List.getD_eq_getElem?_getD, List.getD_eq_getElem?_getD]
  obtain h | h := lt_or_ge n slots.length
  · rw [List.getElem?_append_left h]
  · rw [List.getElem?_append_right h, List.getElem?_eq_none h, List.getElem?_replicate]
    split <;> rfl

theorem slotAt_set {tool : AtcTool} (h : n < slots.length) :
    slotAt (slots.set n tool) k = if k = n then tool else slotAt slots k := by
  rw [slotAt, slotAt, List.getD_eq_getElem?_getD, List.getD_eq_getElem?_getD]
  by_cases hk : k = n
  · rw [hk, List.getElem?_set_self h, if_pos rfl, Option.getD_some]
  · rw [List.getElem?_set_ne (Ne.symm hk), if_neg hk]

theorem slotAt_of_le (h : slots.length ≤ n) : slotAt slots n = {} := by
  rw [slotAt, List.getD_eq_getElem?_getD, List.getElem?_eq_none h]
  rfl

theorem slotAt_placeSlot :
    slotAt (placeSlot slots n x y z) k =
      if k = n then ⟨n, setMm x, setMm y, setMm z⟩ else slotAt slots k := by
  rw [placeSlot]
  split
  · have hlength : n < (growTo slots (n + 1)).length := by
      rw [growTo, List.length_append, List.length_replicate]
      omega
    dsimp only
    rw [slotAt_set hlength]
    simp only [slotAt_growTo]
    rfl
  · rename_i h
    dsimp only
    rw [slotAt_set (not_le.1 h)]
    rfl

/-- A slot that is not there is not defined. -/
theorem isCustomToolDefined_eq : isCustomToolDefined slots n = (slotAt slots n).isValid := by
  rw [isCustomToolDefined]
  split
  · rename_i h
    rw [slotAt_of_le (by omega)]
    rfl
  · rfl

/-- The nearest defined slot below a number. -/
def nearestLower (slots : List AtcTool) (n : ℕ) : Option ℕ :=
  (List.range n).reverse.find? fun k => isCustomToolDefined slots k

theorem lastValidZ_eq :
    lastValidZ slots n = (nearestLower slots n).map fun k => (slotAt slots k).getMzMm := by
  induction n with
  | zero => rfl
  | succ n ih =>
    have hdefined : (n < slots.length && (slotAt slots n).isValid) = isCustomToolDefined slots n := by
      rw [isCustomToolDefined_eq]
      obtain h | h := lt_or_ge n slots.length
      · simp [h]
      · rw [slotAt_of_le h]
        simp [AtcTool.isValid]
    rw [lastValidZ, hdefined, nearestLower, List.range_succ, List.reverse_append,
      List.reverse_singleton, List.singleton_append, List.find?_cons, ih]
    cases isCustomToolDefined slots n <;> rfl

end CarveraFirmware.Tools
