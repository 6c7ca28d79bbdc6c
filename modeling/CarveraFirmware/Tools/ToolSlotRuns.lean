import Mathlib
import CarveraFirmware.Library.Reached
import CarveraFirmware.Tools.ToolSlotFile

/-!
# Custom tool slots over a run

Calls of `add_custom_tool_slot` and `remove_custom_tool_slot`, one after the other. What a slot was
given is read back exactly if 16 bits hold it and it does not round to the mark of a slot that is not
set.
-/

namespace CarveraFirmware.Tools

open DecimalText

inductive SlotCall
  | add (toolNum : UInt8) (x y : Coordinate) (z : Option Coordinate)
  | remove (toolNum : UInt8)

/-- The slots, and what those that were added and not removed since have been given. -/
structure SlotRun where
  slots : List AtcTool
  given : ℕ → Option SlotPlace

namespace SlotCall

def toolNum : SlotCall → ℕ
  | add n _ _ _ => n.toNat
  | remove n => n.toNat

def run (slots : List AtcTool) : SlotCall → List AtcTool
  | add n x y z => addCustomToolSlot n.toNat (some x) (some y) (z.map Subtype.val) slots
  | remove n => removeCustomToolSlot n.toNat slots

/-- The Z of an added slot, from the nearest lower slot if it is left out. -/
def placeZ (slots : List AtcTool) (n : UInt8) : Option Coordinate → Option ℚ
  | some z => some z
  | none => (nearestLower slots n.toNat).map fun k => (slotAt slots k).getMzMm

/-- The place that an added slot is to have. -/
def place (slots : List AtcTool) : SlotCall → Option SlotPlace
  | add n x y z => (placeZ slots n z).map fun z => ⟨x, y, z⟩
  | remove _ => none

def given (s : SlotRun) (call : SlotCall) : ℕ → Option SlotPlace :=
  match call with
  | add _ _ _ _ =>
    match call.place s.slots with
    | some place => Function.update s.given call.toolNum (some place)
    | none => s.given
  | remove _ => Function.update s.given call.toolNum none

def step (s : SlotRun) (call : SlotCall) : SlotRun := ⟨call.run s.slots, call.given s⟩

end SlotCall

/-- A slot is defined, and each coordinate is near the one that was given. -/
structure ReadsBack (slots : List AtcTool) (n : ℕ) (place : SlotPlace) : Prop where
  defined : isCustomToolDefined slots n
  x : |(slotAt slots n).getMxMm - place.x| ≤ 0.005
  y : |(slotAt slots n).getMyMm - place.y| ≤ 0.005
  z : |(slotAt slots n).getMzMm - place.z| ≤ 0.005

/-- What is asked of a call: the slots keep what they were given, also over a save and a load. -/
structure SlotCall.Keeps (s : SlotRun) (call : SlotCall) : Prop where
  others : ∀ k, k ≠ call.toolNum → slotAt (call.step s).slots k = slotAt s.slots k
  given : ∀ k place, (call.step s).given k = some place → ReadsBack (call.step s).slots k place
  omitted : ∀ n x y, call = .add n x y none →
    match nearestLower s.slots n.toNat with
    | some k => (slotAt (call.step s).slots n.toNat).mzMm = (slotAt s.slots k).mzMm
    | none => (call.step s).slots = s.slots
  removed : ∀ n, call = .remove n → isCustomToolDefined (call.step s).slots n.toNat = false
  saved : SameSlots (call.step s).slots
    (loadCustomToolSlots (some (saveCustomToolSlots (call.step s).slots)))

/-- The coordinates that a call gives can be stored. -/
def SlotCall.Fits (s : SlotRun) (call : SlotCall) : Prop :=
  ∀ place, call.place s.slots = some place →
    Storable place.x ∧ Storable place.y ∧ Storable place.z

variable {slots : List AtcTool} {s : SlotRun} {n k : ℕ}

theorem readsBack_iff {place : SlotPlace} :
    ReadsBack slots n place ↔ Stores (slotAt slots n).mxMm place.x ∧
      Stores (slotAt slots n).myMm place.y ∧ Stores (slotAt slots n).mzMm place.z := by
  constructor
  · rintro ⟨hdefined, hx, hy, hz⟩
    rw [isCustomToolDefined_eq, AtcTool.isValid] at hdefined
    simp only [Bool.and_eq_true, decide_eq_true_iff] at hdefined
    exact ⟨⟨hdefined.1.1, hx⟩, ⟨hdefined.1.2, hy⟩, hdefined.2, hz⟩
  · rintro ⟨⟨hxset, hx⟩, ⟨hyset, hy⟩, hzset, hz⟩
    refine ⟨?_, hx, hy, hz⟩
    rw [isCustomToolDefined_eq, AtcTool.isValid]
    simp [hxset, hyset, hzset]

/-- A call that adds a slot. -/
theorem add_eq {toolNum : UInt8} {x y : Coordinate} {z : Option Coordinate} :
    (SlotCall.add toolNum x y z).run slots =
      match SlotCall.placeZ slots toolNum z with
      | some z => placeSlot slots toolNum.toNat (some x) (some y) (some z)
      | none => slots := by
  have hnum : ¬ ((toolNum.toNat : ℤ) < 0 ∨ 255 < (toolNum.toNat : ℤ)) := by
    have hlt := toolNum.toNat_lt
    omega
  rw [SlotCall.run, addCustomToolSlot, if_neg hnum, if_neg (by simp), Int.toNat_natCast, lastValidZ_eq]
  cases z with
  | some z => rfl
  | none =>
    rw [SlotCall.placeZ]
    cases nearestLower slots toolNum.toNat <;> rfl

theorem slotAt_remove {toolNum : UInt8} :
    (slotAt ((SlotCall.remove toolNum).run slots) k).isValid =
        (k ≠ toolNum.toNat && (slotAt slots k).isValid) ∧
      (k ≠ toolNum.toNat → slotAt ((SlotCall.remove toolNum).run slots) k = slotAt slots k) := by
  have hnum : ¬ ((toolNum.toNat : ℤ) < 0 ∨ 255 < (toolNum.toNat : ℤ)) := by
    have hlt := toolNum.toNat_lt
    omega
  rw [SlotCall.run, removeCustomToolSlot, if_neg hnum, Int.toNat_natCast]
  split
  · rename_i habsent
    have hinvalid : (slotAt slots toolNum.toNat).isValid = false := by
      by_cases hlength : slots.length ≤ toolNum.toNat
      · rw [slotAt_of_le hlength]
        rfl
      · simpa [hlength] using habsent
    refine ⟨?_, fun _ => rfl⟩
    by_cases hk : k = toolNum.toNat
    · rw [hk, hinvalid, Bool.and_false]
    · simp [hk]
  · rename_i hpresent
    have hlength : toolNum.toNat < slots.length := by
      by_contra hle
      exact hpresent (by simp [not_lt.1 hle])
    rw [slotAt_set hlength]
    by_cases hk : k = toolNum.toNat
    · rw [if_pos hk]
      exact ⟨by simp [hk, AtcTool.isValid], fun h => absurd hk h⟩
    · rw [if_neg hk]
      exact ⟨by simp [hk], fun _ => rfl⟩

theorem wellFormed_place {x y z : Option ℚ} (h : WellFormed slots) (hn : n ≤ 255) :
    WellFormed (placeSlot slots n x y z) := by
  constructor
  · intro k hvalid
    rw [slotAt_placeSlot] at hvalid ⊢
    by_cases hk : k = n
    · rw [if_pos hk]
      exact ⟨hk.symm, hk ▸ hn⟩
    · rw [if_neg hk] at hvalid ⊢
      exact h.num k hvalid
  · intro k hvalid
    rw [slotAt_placeSlot] at hvalid ⊢
    by_cases hk : k = n
    · rw [if_pos hk]
      exact ⟨setMm_range x, setMm_range y, setMm_range z⟩
    · rw [if_neg hk] at hvalid ⊢
      exact h.range k hvalid

theorem wellFormed_run (h : WellFormed slots) (call : SlotCall) : WellFormed (call.run slots) := by
  cases call with
  | add toolNum x y z =>
    rw [add_eq]
    split
    · exact wellFormed_place h (Nat.le_of_lt_succ toolNum.toNat_lt)
    · exact h
  | remove toolNum =>
    have hkept (k : ℕ) (hvalid : (slotAt ((SlotCall.remove toolNum).run slots) k).isValid) :
        (slotAt slots k).isValid ∧
          slotAt ((SlotCall.remove toolNum).run slots) k = slotAt slots k := by
      obtain ⟨hiff, hsame⟩ := @slotAt_remove slots k toolNum
      rw [hiff, Bool.and_eq_true, decide_eq_true_iff] at hvalid
      exact ⟨hvalid.2, hsame hvalid.1⟩
    constructor
    · intro k hvalid
      obtain ⟨hvalid', hsame⟩ := hkept k hvalid
      rw [hsame]
      exact h.num k hvalid'
    · intro k hvalid
      obtain ⟨hvalid', hsame⟩ := hkept k hvalid
      rw [hsame]
      exact h.range k hvalid'

/-- The slots are in order, and are what they were given. -/
structure Kept (s : SlotRun) : Prop where
  wellFormed : WellFormed s.slots
  given : ∀ k place, s.given k = some place → ReadsBack s.slots k place

theorem nearestLower_valid (h : nearestLower slots n = some k) : (slotAt slots k).isValid := by
  have hdefined := List.find?_some h
  rw [isCustomToolDefined_eq] at hdefined
  exact hdefined

theorem readsBack_of_same {slots' : List AtcTool} {place : SlotPlace}
    (hsame : slotAt slots' n = slotAt slots n) (h : ReadsBack slots n place) :
    ReadsBack slots' n place := by
  rw [readsBack_iff, hsame]
  exact readsBack_iff.1 h

/-- The Z that an added slot gets can be stored as it is read. -/
theorem placeZ_range (h : WellFormed slots) {toolNum : UInt8} {z : Option Coordinate} {z' : ℚ}
    (hz : SlotCall.placeZ slots toolNum z = some z') : -1000 ≤ z' ∧ z' ≤ 1000 := by
  cases z with
  | some z =>
    obtain rfl := Option.some.inj hz
    exact z.2
  | none =>
    obtain ⟨k, hk, rfl⟩ := Option.map_eq_some_iff.1 hz
    obtain ⟨-, -, hlow, hhigh⟩ := h.range k (nearestLower_valid hk)
    have hlow' : (-32768 : ℚ) ≤ (slotAt slots k).mzMm := by exact_mod_cast hlow
    have hhigh' : ((slotAt slots k).mzMm : ℚ) ≤ 32767 := by exact_mod_cast hhigh
    rw [AtcTool.getMzMm, getMm]
    exact ⟨by linarith, by linarith⟩

theorem keeps_iff_fits_add (h : Kept s) {toolNum : UInt8} {x y : Coordinate}
    {z : Option Coordinate} :
    (SlotCall.add toolNum x y z).Keeps s ↔ (SlotCall.add toolNum x y z).Fits s := by
  have hwell := wellFormed_run h.wellFormed (.add toolNum x y z)
  have hsaved := load_save hwell
  have hrun := @add_eq s.slots toolNum x y z
  cases hz : SlotCall.placeZ s.slots toolNum z with
  | none =>
    rw [hz] at hrun
    -- Z is left out and no lower slot is defined: the call changes nothing.
    have hgiven : (SlotCall.add toolNum x y z).given s = s.given := by
      rw [SlotCall.given, SlotCall.place, hz]
      rfl
    have hslots : ((SlotCall.add toolNum x y z).step s).slots = s.slots := hrun
    refine iff_of_true ⟨fun k _ => by rw [hslots], ?_, ?_, nofun, hsaved⟩ ?_
    · intro k place hplace
      rw [hslots]
      exact h.given k place (hgiven ▸ hplace)
    · rintro n x y hcall
      cases hcall
      rw [SlotCall.placeZ, Option.map_eq_none_iff] at hz
      rw [hz]
      exact hrun
    · intro place hplace
      rw [SlotCall.place, hz] at hplace
      cases hplace
  | some z' =>
    rw [hz] at hrun
    have hrange := placeZ_range h.wellFormed hz
    have hplace : (SlotCall.add toolNum x y z).place s.slots = some ⟨x, y, z'⟩ := by
      rw [SlotCall.place, hz]
      rfl
    have hgiven : ((SlotCall.add toolNum x y z).step s).given =
        Function.update s.given toolNum.toNat (some ⟨x, y, z'⟩) := by
      have hstep : ((SlotCall.add toolNum x y z).step s).given =
          (SlotCall.add toolNum x y z).given s := rfl
      rw [hstep, SlotCall.given, hplace]
      rfl
    have hslots (k : ℕ) : slotAt ((SlotCall.add toolNum x y z).step s).slots k =
        if k = toolNum.toNat then ⟨toolNum.toNat, setMm (some x), setMm (some y), setMm (some z')⟩
        else slotAt s.slots k := by
      rw [SlotCall.step, hrun]
      exact slotAt_placeSlot
    -- Only the slot that is added can fail, by what 16 bits make of its coordinates.
    have hread : ReadsBack ((SlotCall.add toolNum x y z).step s).slots toolNum.toNat ⟨x, y, z'⟩ ↔
        Storable x ∧ Storable y ∧ Storable z' := by
      rw [readsBack_iff, hslots, if_pos rfl, setMm_stores_iff x.2, setMm_stores_iff y.2,
        setMm_stores_iff hrange]
    have hfits : (SlotCall.add toolNum x y z).Fits s ↔ Storable x ∧ Storable y ∧ Storable z' := by
      rw [SlotCall.Fits, hplace]
      exact ⟨fun hall => hall _ rfl, fun hall place heq => by cases heq; exact hall⟩
    rw [hfits, ← hread]
    constructor
    · intro hkeeps
      refine hkeeps.given _ _ ?_
      rw [hgiven, Function.update_self]
    · intro hback
      refine ⟨fun k hk => by rw [hslots]; exact if_neg hk, ?_, ?_, nofun, hsaved⟩
      · intro k place hk
        rw [hgiven] at hk
        obtain rfl | hne := eq_or_ne k toolNum.toNat
        · rw [Function.update_self] at hk
          exact Option.some.inj hk ▸ hback
        · rw [Function.update_of_ne hne] at hk
          exact readsBack_of_same (by rw [hslots, if_neg hne]) (h.given k place hk)
      · rintro n x y hcall
        cases hcall
        obtain ⟨k, hk, rfl⟩ := Option.map_eq_some_iff.1 hz
        rw [hk]
        dsimp only
        rw [hslots, if_pos rfl]
        exact setMm_getMm (h.wellFormed.range k (nearestLower_valid hk)).2.2

theorem keeps_iff_fits_remove (h : Kept s) {toolNum : UInt8} :
    (SlotCall.remove toolNum).Keeps s ↔ (SlotCall.remove toolNum).Fits s := by
  have hwell := wellFormed_run h.wellFormed (.remove toolNum)
  have hslots (k : ℕ) := @slotAt_remove s.slots k toolNum
  refine iff_of_true
    ⟨fun k hk => (hslots k).2 hk, ?_, nofun, ?_, load_save hwell⟩ nofun
  · intro k place hk
    obtain rfl | hne := eq_or_ne k toolNum.toNat
    · change Function.update s.given toolNum.toNat none toolNum.toNat = some place at hk
      rw [Function.update_self] at hk
      cases hk
    · change Function.update s.given toolNum.toNat none k = some place at hk
      rw [Function.update_of_ne hne] at hk
      exact readsBack_of_same ((hslots k).2 hne) (h.given k place hk)
  · rintro n hcall
    cases hcall
    rw [isCustomToolDefined_eq]
    exact ((hslots _).1).trans (by simp)

theorem keeps_iff_fits (h : Kept s) (call : SlotCall) : call.Keeps s ↔ call.Fits s := by
  cases call with
  | add toolNum x y z => exact keeps_iff_fits_add h
  | remove toolNum => exact keeps_iff_fits_remove h

theorem kept_step (h : Kept s) (call : SlotCall) (hkeeps : call.Keeps s) : Kept (call.step s) :=
  ⟨wellFormed_run h.wellFormed call, hkeeps.given⟩

/-- Over every run of calls. -/
theorem toolSlots_kept_iff (h : WellFormed slots) (calls : List SlotCall) :
    AllOk SlotCall.step SlotCall.Keeps ⟨slots, fun _ => none⟩ calls ↔
      AllOk SlotCall.step SlotCall.Fits ⟨slots, fun _ => none⟩ calls :=
  @allOk_iff _ _ _ _ _ Kept _ ⟨h, fun _ _ hgiven => by cases hgiven⟩ (fun _ call hkept => keeps_iff_fits hkept call)
    (fun _ call hkept hfits => kept_step hkept call ((keeps_iff_fits hkept call).2 hfits)) calls

theorem wellFormed_nil : WellFormed [] :=
  ⟨fun _ h => absurd h Bool.false_ne_true, fun _ h => absurd h Bool.false_ne_true⟩

/-- The second slot takes the Z of the first. -/
theorem toolSlots_kept_iff_three :
    AllOk SlotCall.step SlotCall.Keeps ⟨[], fun _ => none⟩
      [.add 5 ⟨-100.5, by norm_num⟩ ⟨20, by norm_num⟩ (some ⟨-119.104, by norm_num⟩),
        .add 7 ⟨-130, by norm_num⟩ ⟨20.128, by norm_num⟩ none, .remove 5] := by
  refine (toolSlots_kept_iff wellFormed_nil _).2 ⟨?_, ?_, nofun, trivial⟩
  · rintro place hplace
    obtain rfl := Option.some.inj hplace
    norm_num [Storable]
  · have hlower : SlotCall.placeZ
        ((SlotCall.add 5 ⟨-100.5, by norm_num⟩ ⟨20, by norm_num⟩ (some ⟨-119.104, by norm_num⟩)).step
          ⟨[], fun _ => none⟩).slots 7 none = some (-119.1) := by decide +kernel
    rintro place hplace
    rw [SlotCall.place, hlower] at hplace
    obtain rfl := Option.some.inj hplace
    norm_num [Storable]

/-- A slot at X -0.01 is not defined. -/
theorem added_slot_not_defined :
    WellFormed [] ∧ ¬ AllOk SlotCall.step SlotCall.Keeps ⟨[], fun _ => none⟩
      [.add 5 ⟨-0.01, by norm_num⟩ ⟨20, by norm_num⟩ (some ⟨-119, by norm_num⟩)] := by
  refine ⟨wellFormed_nil, fun h => ?_⟩
  have hdefined := (h.1.given 5 ⟨-0.01, 20, -119⟩ rfl).defined
  exact absurd hdefined (by decide +kernel)

end CarveraFirmware.Tools
