import Mathlib
import CarveraFirmware.Library.DecimalText
import CarveraFirmware.Tools.ToolSlots

/-!
# The file of custom tool slots

`ATCHandler::save_custom_tool_slots_to_file` and `load_custom_tool_slots`. Every slot that is defined
comes back as it was stored.
-/

namespace CarveraFirmware.Tools

open DecimalText

/-- The comment that the file starts with. -/
def slotFileHeader : List (List Char) :=
  ["# Custom tool slot configuration\n".toList,
    "# Format: tool_num x y [z]\n".toList,
    "# Example: 10 -3.526 -61.643 -119.1\n".toList,
    "#          (Z is optional, uses previous tool's Z if not provided)\n".toList,
    "# This file is automatically generated. Do not edit manually.\n".toList,
    "\n".toList]

def slotLine (tool : AtcTool) : List Char :=
  printNat tool.num ++ ' ' :: (printFixed tool.getMxMm ++ ' ' :: (printFixed tool.getMyMm ++
    ' ' :: (printFixed tool.getMzMm ++ ['\n'])))

/-- `save_custom_tool_slots_to_file`. -/
def saveCustomToolSlots (slots : List AtcTool) : List Char :=
  (slotFileHeader ++ (slots.filter AtcTool.isValid).map slotLine).flatten

def isBlank (c : Char) : Bool := c = ' ' || c = '\t'

/-- What ends a coordinate. -/
def isEnd (c : Char) : Bool := isBlank c || c = '\r' || c = '\n' || c = '#'

/-- The next word, up to a character that ends it, and the rest from there; none at the end of the
line, at a comment and where nothing ends the word. -/
def nextWord (ends : Char → Bool) (line : List Char) : Option (List Char × List Char) :=
  match line.dropWhile isBlank with
  | [] => none
  | c :: rest =>
    if c = '#' then none
    else
      match (c :: rest).dropWhile (!ends ·) with
      | [] => none
      | rest' => some ((c :: rest).takeWhile (!ends ·), rest')

/-- A number, if there is one. -/
def lastWord (line : List Char) : Option (List Char) :=
  match line.dropWhile isBlank with
  | [] => none
  | c :: rest =>
    if c = '#' ∨ c = '\r' ∨ c = '\n' then none else some ((c :: rest).takeWhile (!isEnd ·))

/-- The numbers of a line; `NAN` is none. -/
def readSlotLine (line : List Char) : Option (ℕ × Option ℚ × Option ℚ × Option ℚ) := do
  let (toolNum, rest) ← nextWord isBlank line
  let toolNum := atoi toolNum
  if toolNum < 0 ∨ 255 < toolNum then none
  else
    let (x, rest) ← nextWord isEnd rest
    let (y, rest) ← nextWord isEnd rest
    some (toolNum.toNat, strtof x, strtof y, (lastWord rest).bind strtof)

/-- A line of the file; the slots are with the last Z that was given. -/
def loadSlotLine (state : List AtcTool × Option ℚ) (line : List Char) : List AtcTool × Option ℚ :=
  match readSlotLine line with
  | none => state
  | some (toolNum, x, y, z) =>
    match z with
    | some z => (placeSlot state.1 toolNum x y (some z), some z)
    | none =>
      match state.2 with
      | some lastValidZ => (placeSlot state.1 toolNum x y (some lastValidZ), some lastValidZ)
      | none => state

/-- `load_custom_tool_slots`; there may be no file. -/
def loadCustomToolSlots (file : Option (List Char)) : List AtcTool :=
  match file with
  | none => []
  | some text => ((fgetsLines 130 text).foldl loadSlotLine ([], none)).1

/-- The number of a slot that is defined is its place, and 16 bits hold its coordinates. -/
structure WellFormed (slots : List AtcTool) : Prop where
  num : ∀ n, (slotAt slots n).isValid → (slotAt slots n).num = n ∧ n ≤ 255
  range : ∀ n, (slotAt slots n).isValid →
    (-32768 ≤ (slotAt slots n).mxMm ∧ (slotAt slots n).mxMm ≤ 32767) ∧
    (-32768 ≤ (slotAt slots n).myMm ∧ (slotAt slots n).myMm ≤ 32767) ∧
    (-32768 ≤ (slotAt slots n).mzMm ∧ (slotAt slots n).mzMm ≤ 32767)

/-- The same slots are defined, with the same coordinates. -/
def SameSlots (slots slots' : List AtcTool) : Prop :=
  ∀ n : ℕ, isCustomToolDefined slots' n = isCustomToolDefined slots n ∧
    (isCustomToolDefined slots n → slotAt slots' n = slotAt slots n)

section words

variable {ends : Char → Bool} {word rest : List Char}

/-- A character of a number. -/
def isPlain (c : Char) : Bool := c.isDigit || c = '-' || c = '.'

theorem isEnd_of_isPlain {c : Char} (h : isPlain c) : isEnd c = false := by
  by_contra hend
  rw [Bool.not_eq_false] at hend
  have hcases : c = ' ' ∨ c = '\t' ∨ c = '\r' ∨ c = '\n' ∨ c = '#' := by
    simpa [isEnd, isBlank, or_assoc] using hend
  obtain rfl | rfl | rfl | rfl | rfl := hcases <;> exact absurd h (by decide)

theorem isBlank_of_isPlain {c : Char} (h : isPlain c) : isBlank c = false := by
  have hend := isEnd_of_isPlain h
  rw [isEnd] at hend
  simp only [Bool.or_eq_false_iff] at hend
  exact hend.1.1.1

theorem ne_comment_of_isPlain {c : Char} (h : isPlain c) : c ≠ '#' := by
  rintro rfl
  exact absurd h (by decide)

/-- A blank before a word is skipped. -/
theorem nextWord_blank : nextWord ends (' ' :: rest) = nextWord ends rest := by
  rw [nextWord, nextWord, List.dropWhile_cons, if_pos (by decide)]

theorem nextWord_word {c : Char} (hne : word ≠ []) (hword : ∀ c ∈ word, isPlain c)
    (hends : ∀ c, isPlain c → ends c = false) (hend : ends c = true) :
    nextWord ends (word ++ c :: rest) = some (word, c :: rest) := by
  have hstop : ∀ c ∈ word, (!ends c) = true := fun c hc => by rw [hends c (hword c hc)]; rfl
  have htake : (word ++ c :: rest).takeWhile (!ends ·) = word := by
    rw [List.takeWhile_append_of_pos hstop, List.takeWhile_cons, if_neg (by simp [hend]),
      List.append_nil]
  have hdrop : (word ++ c :: rest).dropWhile (!ends ·) = c :: rest := by
    rw [List.dropWhile_append_of_pos hstop, List.dropWhile_cons, if_neg (by simp [hend])]
  cases word with
  | nil => exact absurd rfl hne
  | cons c' word =>
    have hplain := hword c' (List.mem_cons_self ..)
    rw [List.cons_append] at htake hdrop ⊢
    rw [nextWord, List.dropWhile_cons, if_neg (by simp [isBlank_of_isPlain hplain])]
    dsimp only
    rw [if_neg (ne_comment_of_isPlain hplain), hdrop, htake]

theorem lastWord_word (hne : word ≠ []) (hword : ∀ c ∈ word, isPlain c) :
    lastWord (' ' :: (word ++ ['\n'])) = some word := by
  have hstop : ∀ c ∈ word, (!isEnd c) = true := fun c hc => by
    rw [isEnd_of_isPlain (hword c hc)]
    rfl
  have htake : (word ++ ['\n']).takeWhile (!isEnd ·) = word := by
    rw [List.takeWhile_append_of_pos hstop, List.takeWhile_cons, if_neg (by decide), List.append_nil]
  cases word with
  | nil => exact absurd rfl hne
  | cons c word =>
    have hplain := hword c (List.mem_cons_self ..)
    have hline : c ≠ '\r' ∧ c ≠ '\n' :=
      ⟨by rintro rfl; exact absurd hplain (by decide), by rintro rfl; exact absurd hplain (by decide)⟩
    rw [List.cons_append] at htake ⊢
    rw [lastWord, List.dropWhile_cons, if_pos (by decide), List.dropWhile_cons,
      if_neg (by simp [isBlank_of_isPlain hplain])]
    dsimp only
    rw [if_neg (by simp [ne_comment_of_isPlain hplain, hline]), htake]

theorem isPlain_of_mem_printNat {n : ℕ} {c : Char} (h : c ∈ printNat n) : isPlain c := by
  simp [isPlain, isDigit_of_mem_printNat h]

theorem isPlain_of_mem_printFixed {x : ℚ} {c : Char} (h : c ∈ printFixed x) : isPlain c := by
  have hdigit (n : ℕ) (hn : n < 10) : isPlain n.digitChar := by
    simp [isPlain, Nat.isDigit_digitChar, hn]
  rw [printFixed] at h
  obtain h | h := List.mem_append.1 h
  · obtain h | h := List.mem_append.1 h
    · split at h
      · obtain rfl := List.mem_singleton.1 h
        decide
      · cases h
    · exact isPlain_of_mem_printNat h
  · fin_cases h
    · decide
    all_goals exact hdigit _ (Nat.mod_lt _ (by norm_num))

theorem printFixed_ne_nil {x : ℚ} : printFixed x ≠ [] := by simp [printFixed]

end words

theorem readSlotLine_slotLine {tool : AtcTool} (hnum : tool.num ≤ 255) :
    readSlotLine (slotLine tool) =
      some (tool.num, some tool.getMxMm, some tool.getMyMm, some tool.getMzMm) := by
  have hnot : ¬ ((tool.num : ℤ) < 0 ∨ 255 < (tool.num : ℤ)) := by omega
  have hcoordinate {stored : ℤ} {rest : List Char} :
      nextWord isEnd (' ' :: (printFixed (getMm stored) ++ ' ' :: rest)) =
        some (printFixed (getMm stored), ' ' :: rest) := by
    rw [nextWord_blank]
    exact nextWord_word printFixed_ne_nil (fun _ => isPlain_of_mem_printFixed)
      (fun _ => isEnd_of_isPlain) rfl
  have hlast {stored : ℤ} :
      lastWord (' ' :: (printFixed (getMm stored) ++ ['\n'])) = some (printFixed (getMm stored)) :=
    lastWord_word printFixed_ne_nil fun _ => isPlain_of_mem_printFixed
  have hread (stored : ℤ) : strtof (printFixed (getMm stored)) = some (getMm stored) :=
    strtof_printFixed stored
  rw [readSlotLine, slotLine, nextWord_word printNat_ne_nil (fun _ => isPlain_of_mem_printNat)
    (fun _ => isBlank_of_isPlain) rfl]
  simp only [Option.bind_eq_bind, Option.bind_some, atoi_printNat, if_neg hnot, AtcTool.getMxMm,
    AtcTool.getMyMm, AtcTool.getMzMm, hcoordinate, hlast, hread, Int.toNat_natCast]

theorem isLine_slotLine {tool : AtcTool} (hnum : tool.num ≤ 255)
    (hx : -32768 ≤ tool.mxMm ∧ tool.mxMm ≤ 32767) (hy : -32768 ≤ tool.myMm ∧ tool.myMm ≤ 32767)
    (hz : -32768 ≤ tool.mzMm ∧ tool.mzMm ≤ 32767) : IsLine 130 (slotLine tool) := by
  have hlength {stored : ℤ} (h : -32768 ≤ stored ∧ stored ≤ 32767) :
      (printFixed (getMm stored)).length ≤ 8 :=
    length_printFixed_le (by norm_num : 0 < 3) (by omega)
  have hnumber : (printNat tool.num).length ≤ 3 := length_printNat_le (by norm_num) (by omega)
  have hxl := hlength hx
  have hyl := hlength hy
  have hzl := hlength hz
  have hplain {c : Char} (h : isPlain c) : c ≠ '\n' := by
    rintro rfl
    exact absurd h (by decide)
  refine ⟨⟨printNat tool.num ++ ' ' :: (printFixed tool.getMxMm ++ ' ' :: (printFixed tool.getMyMm ++
    ' ' :: printFixed tool.getMzMm)), by simp [slotLine], ?_⟩, ?_⟩
  · simp only [List.mem_append, List.mem_cons, not_or]
    refine ⟨fun h => ?_, by decide, fun h => ?_, by decide, fun h => ?_, by decide, fun h => ?_⟩
    · exact hplain (isPlain_of_mem_printNat h) rfl
    all_goals exact hplain (isPlain_of_mem_printFixed h) rfl
  · rw [slotLine]
    simp only [List.length_append, List.length_cons, List.length_nil, AtcTool.getMxMm,
      AtcTool.getMyMm, AtcTool.getMzMm]
    omega

theorem isLine_header : ∀ line ∈ slotFileHeader, IsLine 130 line := by
  have hline (line : List Char) (hends : line = line.dropLast ++ ['\n'])
      (htext : '\n' ∉ line.dropLast) (hfits : line.length ≤ 130) : IsLine 130 line :=
    ⟨⟨_, hends, htext⟩, hfits⟩
  intro line h
  fin_cases h <;> exact hline _ (by decide +kernel) (by decide +kernel) (by decide +kernel)

theorem readSlotLine_header : ∀ line ∈ slotFileHeader, nextWord isBlank line = none := by
  decide +kernel

variable {slots : List AtcTool}

theorem loadSlotLine_slotLine {tool : AtcTool} {state : List AtcTool × Option ℚ}
    (hnum : tool.num ≤ 255) :
    loadSlotLine state (slotLine tool) =
      (placeSlot state.1 tool.num (some tool.getMxMm) (some tool.getMyMm) (some tool.getMzMm),
        some tool.getMzMm) := by
  rw [loadSlotLine, readSlotLine_slotLine hnum]

/-- The slots from `before` on are loaded over those that are there. -/
theorem load_slots (h : WellFormed slots) {before after : List AtcTool}
    (hslots : slots = before ++ after) (state : List AtcTool × Option ℚ) (n : ℕ) :
    slotAt (((after.filter AtcTool.isValid).map slotLine).foldl loadSlotLine state).1 n =
      if before.length ≤ n ∧ (slotAt slots n).isValid then slotAt slots n else slotAt state.1 n := by
  induction after generalizing before state with
  | nil =>
    have hlength : before.length = slots.length := by rw [hslots, List.append_nil]
    rw [if_neg]
    · rfl
    · rintro ⟨hle, hvalid⟩
      rw [slotAt_of_le (hlength ▸ hle)] at hvalid
      cases hvalid
  | cons tool after ih =>
    have htool : slotAt slots before.length = tool := by
      rw [slotAt, hslots, List.getD_eq_getElem?_getD, List.getElem?_append_right le_rfl]
      simp
    have hsplit : slots = (before ++ [tool]) ++ after := by rw [hslots]; simp
    have hlength : (before ++ [tool]).length = before.length + 1 := List.length_append
    have hrest := fun state => ih hsplit state
    rw [hlength] at hrest
    by_cases hvalid : tool.isValid
    · obtain ⟨hnum, hle⟩ := h.num before.length (htool ▸ hvalid)
      obtain ⟨hx, hy, hz⟩ := h.range before.length (htool ▸ hvalid)
      rw [htool] at hnum hx hy hz
      have hback : (⟨tool.num, setMm (some tool.getMxMm), setMm (some tool.getMyMm),
          setMm (some tool.getMzMm)⟩ : AtcTool) = tool := by
        rw [AtcTool.getMxMm, AtcTool.getMyMm, AtcTool.getMzMm, setMm_getMm hx, setMm_getMm hy,
          setMm_getMm hz]
      rw [List.filter_cons_of_pos hvalid, List.map_cons, List.foldl_cons,
        loadSlotLine_slotLine (hnum ▸ hle), hrest, slotAt_placeSlot, hback, hnum]
      -- the line of this slot writes its own place only
      obtain hlt | rfl | hgt := lt_trichotomy n before.length
      · rw [if_neg (by omega), if_neg (by omega), if_neg (by omega)]
      · rw [if_neg (by omega), if_pos rfl, htool, if_pos ⟨le_rfl, hvalid⟩]
      · rw [if_neg (by omega : n ≠ before.length)]
        exact if_congr (and_congr_left fun _ => by omega) rfl rfl
    · rw [List.filter_cons_of_neg hvalid, hrest]
      obtain hlt | rfl | hgt := lt_trichotomy n before.length
      · rw [if_neg (by omega), if_neg (by omega)]
      · rw [if_neg (by omega), htool, if_neg (fun hboth => hvalid hboth.2)]
      · exact if_congr (and_congr_left fun _ => by omega) rfl rfl

/-- The comment changes nothing. -/
theorem load_header (state : List AtcTool × Option ℚ) :
    slotFileHeader.foldl loadSlotLine state = state := by
  have hline : ∀ line ∈ slotFileHeader, loadSlotLine state line = state := by
    intro line h
    rw [loadSlotLine, readSlotLine, readSlotLine_header line h]
    rfl
  generalize slotFileHeader = lines at hline
  induction lines with
  | nil => rfl
  | cons line lines ih =>
    rw [List.foldl_cons, hline line (List.mem_cons_self ..)]
    exact ih fun line h => hline line (List.mem_cons_of_mem _ h)

/-- A saved file gives back the slots. -/
theorem load_save (h : WellFormed slots) :
    SameSlots slots (loadCustomToolSlots (some (saveCustomToolSlots slots))) := by
  have hlines : ∀ line ∈ slotFileHeader ++ (slots.filter AtcTool.isValid).map slotLine,
      IsLine 130 line := by
    intro line hline
    obtain hline | hline := List.mem_append.1 hline
    · exact isLine_header line hline
    · obtain ⟨tool, htool, rfl⟩ := List.mem_map.1 hline
      obtain ⟨hmem, hvalid⟩ := List.mem_filter.1 htool
      obtain ⟨n, hn, rfl⟩ := List.mem_iff_getElem.1 hmem
      have hslot : slotAt slots n = slots[n] := by
        rw [slotAt, List.getD_eq_getElem?_getD, List.getElem?_eq_getElem hn, Option.getD_some]
      obtain ⟨hnum, hle⟩ := h.num n (hslot ▸ hvalid)
      obtain ⟨hx, hy, hz⟩ := h.range n (hslot ▸ hvalid)
      rw [hslot] at hnum hx hy hz
      exact isLine_slotLine (hnum.trans_le hle) hx hy hz
  have hload (n : ℕ) : slotAt (loadCustomToolSlots (some (saveCustomToolSlots slots))) n =
      if (slotAt slots n).isValid then slotAt slots n else {} := by
    rw [loadCustomToolSlots, saveCustomToolSlots, fgetsLines_flatten hlines, List.foldl_append, load_header,
      load_slots h (List.nil_append slots).symm]
    exact if_congr (and_iff_right (Nat.zero_le n)) rfl (slotAt_of_le (Nat.zero_le n))
  intro n
  rw [isCustomToolDefined_eq, isCustomToolDefined_eq, hload n]
  by_cases hvalid : (slotAt slots n).isValid
  · rw [if_pos hvalid]
    exact ⟨rfl, fun _ => rfl⟩
  · rw [if_neg hvalid]
    exact ⟨(Bool.not_eq_true _ ▸ hvalid).symm, fun h => absurd h hvalid⟩

end CarveraFirmware.Tools
