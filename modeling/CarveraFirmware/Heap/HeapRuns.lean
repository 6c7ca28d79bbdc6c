import Mathlib
import CarveraFirmware.Library.Reached
import CarveraFirmware.Heap.Regions
import CarveraFirmware.Heap.Release

/-!
# Runs of the heap

The program allocates and frees in any order, and writes what it likes to the blocks it holds. It frees
only what it has been given and not yet freed.
-/

namespace CarveraFirmware.Heap

open Links Areas

/-- The heap, with the pointers that the program holds and the bytes it has asked for. -/
structure HeapRun where
  heap : Heap5
  live : List (Nat × Nat) := []

inductive HeapEvent where
  | malloc (wanted : Nat)
  | calloc (num size : Nat)
  | free (pv : Nat)
  | write (address : Nat) (value : BlockLink)
  | resetMinimum

namespace HeapRun

/-- The program keeps the pointer it has been given. -/
def hold (s : HeapRun) (wanted : Nat) (given : Nat × Heap5) : HeapRun :=
  ⟨given.2, if given.1 = 0 then s.live else (given.1, wanted) :: s.live⟩

/-- One event; an assertion of the heap that fails gives `none`. -/
def next (s : HeapRun) : HeapEvent → Option HeapRun
  | .malloc wanted => (pvPortMalloc s.heap wanted).map (s.hold wanted)
  | .calloc num size => (pvPortCalloc s.heap num size).map (s.hold (num * size))
  | .free pv => (vPortFree s.heap pv).map fun h => ⟨h, s.live.filter fun b => b.1 ≠ pv⟩
  | .write address value =>
    some { s with heap := { s.heap with mem := Function.update s.heap.mem address value } }
  | .resetMinimum => some { s with heap := xPortResetHeapMinimumEverFreeHeapSize s.heap }

/-- What the program may do: it frees what it holds, and writes to the memory of a block it holds. -/
def May (s : HeapRun) : HeapEvent → Prop
  | .free pv => pv = 0 ∨ ∃ b ∈ s.live, b.1 = pv
  | .write address _ => 8 ∣ address ∧ ∃ b ∈ s.live, b.1 ≤ address ∧ address < b.1 + b.2
  | _ => True

end HeapRun

def heapStep (s : Option HeapRun) (e : HeapEvent) : Option HeapRun := s.bind fun run => run.next e

def heapMay (s : Option HeapRun) (e : HeapEvent) : Prop := ∀ run ∈ s, run.May e

/-- The state after `heapInitialize`, from whatever the memory held. -/
def heapStart (h : Heap5) (regions : List HeapRegion) : Option HeapRun :=
  (vPortDefineHeapRegions h (regionArray regions)).map fun h => ⟨h, []⟩

/-- The heap before its regions are defined. -/
structure Undefined (h : Heap5) : Prop where
  pxEnd : h.pxEnd = 0
  allocations : h.xNumberOfSuccessfulAllocations = 0
  frees : h.xNumberOfSuccessfulFrees = 0

/-! ## What holds in every state -/

/-- The areas in use. -/
def usedAreas (areas : List Area) : List Area := areas.filter (·.kind = .used)

/-- The blocks in use are those that the program holds, each with room for what was asked for. -/
structure Matches (areas : List Area) (live : List (Nat × Nat)) : Prop where
  perm : ((usedAreas areas).map (·.start + 8)).Perm (live.map Prod.fst)
  room : ∀ b ∈ live, ∃ a ∈ areas, a.kind = .used ∧ a.start + 8 = b.1 ∧ b.2 + 8 ≤ a.size

def HeapInv (regions : List HeapRegion) (xStart : Nat) (s : Option HeapRun) : Prop :=
  ∃ run areas, s = some run ∧ run.heap.xStart = xStart ∧ Represents regions run.heap areas ∧
    Matches areas run.live

variable {regions : List HeapRegion} {h h' : Heap5} {areas before behind : List Area} {a : Area}
  {live : List (Nat × Nat)} {wanted : Nat} {run : HeapRun} {s : Option HeapRun}

theorem alignedWantedSize_large (hpos : 0 < alignedWantedSize wanted) :
    0 < wanted ∧ wanted + 8 ≤ alignedWantedSize wanted := by
  unfold alignedWantedSize at hpos ⊢
  by_cases hwanted : 0 < wanted
  · refine ⟨hwanted, ?_⟩
    rw [if_pos hwanted] at hpos ⊢
    by_cases hover : wanted > heapSizeMax - xHeapStructSize
    · rw [if_pos hover] at hpos
      exact absurd hpos (lt_irrefl 0)
    · rw [if_neg hover] at hpos ⊢
      by_cases halign : (wanted + xHeapStructSize) % portByteAlignment ≠ 0
      · simp only [if_pos halign] at hpos ⊢
        unfold xHeapStructSize portByteAlignment at *
        split at hpos
        · exact absurd hpos (lt_irrefl 0)
        · next hfits =>
          rw [if_neg hfits]
          omega
      · simp only [if_neg halign]
        exact le_rfl
  · rw [if_neg hwanted] at hpos
    exact absurd hpos (lt_irrefl 0)

/-- Either a free area is large enough, or none is. -/
theorem exists_first_fit (areas : List Area) (wanted : Nat) :
    (∀ a ∈ areas, a.kind = .free → a.size < wanted) ∨
      ∃ before a behind, areas = before ++ a :: behind ∧ a.kind = .free ∧ wanted ≤ a.size ∧
        ∀ b ∈ before, b.kind = .free → b.size < wanted := by
  induction areas with
  | nil => exact Or.inl (by simp)
  | cons x areas ih =>
    by_cases hx : x.kind = .free ∧ wanted ≤ x.size
    · exact Or.inr ⟨[], x, areas, rfl, hx.1, hx.2, by simp⟩
    · have hxsmall : x.kind = .free → x.size < wanted := fun hk => by
        by_contra hge
        exact hx ⟨hk, by omega⟩
      obtain hall | ⟨before, a, behind, rfl, ha⟩ := ih
      · exact Or.inl (List.forall_mem_cons.mpr ⟨hxsmall, hall⟩)
      · exact Or.inr ⟨x :: before, a, behind, rfl, ha.1, ha.2.1,
          List.forall_mem_cons.mpr ⟨hxsmall, ha.2.2⟩⟩

theorem usedAreas_given (before behind : List Area) (a : Area) (wanted : Nat) :
    ∃ u, usedAreas (before ++ (given a wanted ++ behind)) =
      usedAreas before ++ u :: usedAreas behind ∧ u ∈ given a wanted ∧ u.kind = .used ∧
        u.start = a.start ∧ (wanted ≤ a.size → wanted ≤ u.size) := by
  unfold usedAreas given
  split
  · exact ⟨⟨a.start, wanted, .used⟩, by simp, by simp, rfl, rfl, fun _ => le_rfl⟩
  · exact ⟨⟨a.start, a.size, .used⟩, by simp, by simp, rfl, rfl, fun hfit => hfit⟩

/-- The pointer behind the link of the first free area that is large enough, or a null pointer. -/
def firstFit (walk : List HeapAreaInfo) (wanted : Nat) : Nat :=
  if 0 < alignedWantedSize wanted then
    ((walk.find? fun area => !area.allocated && alignedWantedSize wanted ≤ area.size).map
      (·.address + xHeapStructSize)).getD 0
  else 0

theorem firstFit_none (hsmall : ∀ a ∈ areas, a.kind = .free → a.size < alignedWantedSize wanted) :
    firstFit ((blocksOf areas).map areaInfo) wanted = 0 := by
  have hnone : ((blocksOf areas).map areaInfo).find?
      (fun area => !area.allocated && alignedWantedSize wanted ≤ area.size) = none := by
    rw [List.find?_eq_none]
    intro area harea
    obtain ⟨a, ha, rfl⟩ := List.mem_map.mp harea
    obtain ⟨ha, hblock⟩ := List.mem_filter.mp ha
    cases hk : a.kind with
    | free =>
      have := hsmall a ha hk
      simp only [areaInfo, hk, Bool.and_eq_true, decide_eq_true_eq, not_and]
      omega
    | used => simp [areaInfo, hk]
    | mark => simp [hk, Kind.isMark] at hblock
    | lost => simp [hk, Kind.isMark] at hblock
  unfold firstFit
  rw [hnone]
  split
  · rfl
  · rfl

theorem firstFit_some (hpos : 0 < alignedWantedSize wanted) (ha : a.kind = .free)
    (hfit : alignedWantedSize wanted ≤ a.size)
    (hsmall : ∀ b ∈ before, b.kind = .free → b.size < alignedWantedSize wanted) :
    firstFit ((blocksOf (before ++ a :: behind)).map areaInfo) wanted = a.start + 8 := by
  have hblocks : blocksOf (before ++ a :: behind) = blocksOf before ++ a :: blocksOf behind := by
    simp [blocksOf, ha, Kind.isMark]
  have hbefore : ((blocksOf before).map areaInfo).find?
      (fun area => !area.allocated && alignedWantedSize wanted ≤ area.size) = none := by
    have hnone := firstFit_none hsmall
    unfold firstFit at hnone
    rw [if_pos hpos] at hnone
    cases hfind : ((blocksOf before).map areaInfo).find?
        (fun area => !area.allocated && alignedWantedSize wanted ≤ area.size) with
    | none => rfl
    | some area =>
      rw [hfind] at hnone
      exact absurd hnone (Nat.succ_ne_zero _)
  unfold firstFit
  rw [if_pos hpos, hblocks, List.map_append, List.find?_append, hbefore, List.map_cons,
    List.find?_cons_of_pos (by simp [areaInfo, ha, hfit])]
  rfl

/-- What `pvPortMalloc` does in any state. -/
theorem malloc_cases (hrep : Represents regions h areas) (hregions : UsableRegions h.xStart regions)
    (hmatches : Matches areas live) (wanted : Nat) :
    ∃ pv h' areas', pvPortMalloc h wanted = some (pv, h') ∧ h'.xStart = h.xStart ∧
      Represents regions h' areas' ∧ Matches areas' (if pv = 0 then live else (pv, wanted) :: live) ∧
      Kept h h' areas ∧ pv = firstFit ((blocksOf areas).map areaInfo) wanted := by
  obtain hsmall | ⟨before, a, behind, rfl, ha, hfit, hsmall⟩ :=
    exists_first_fit areas (alignedWantedSize wanted)
  · refine ⟨0, h, areas, hrep.malloc_none hregions hsmall, rfl, hrep, by simpa using hmatches,
      fun _ _ _ _ _ _ => rfl, (firstFit_none hsmall).symm⟩
  · by_cases hpos : 0 < alignedWantedSize wanted
    · obtain ⟨h', hmalloc, hrep', hx, hkept⟩ := hrep.malloc_some hregions ha hpos hfit hsmall
      refine ⟨a.start + 8, h', _, hmalloc, hx, hrep', ?_, ?_, ?_⟩
      · rw [if_neg (by omega)]
        obtain ⟨u, hused, hu, huk, hustart, husize⟩ :=
          usedAreas_given before behind a (alignedWantedSize wanted)
        -- The area that is given is the only new one in use, and its block is the new pointer.
        have hold : usedAreas (before ++ a :: behind) = usedAreas before ++ usedAreas behind := by
          simp [usedAreas, ha]
        constructor
        · have hperm := hmatches.perm
          rw [hold, List.map_append] at hperm
          rw [hused, List.map_append, List.map_cons, hustart]
          exact List.perm_middle.trans (hperm.cons _)
        · intro b hb
          obtain rfl | hb := List.mem_cons.mp hb
          · refine ⟨u, by simp [hu], huk, by rw [hustart], ?_⟩
            exact (alignedWantedSize_large hpos).2.trans (husize hfit)
          · obtain ⟨c, hc, hck, hcb⟩ := hmatches.room b hb
            refine ⟨c, ?_, hck, hcb⟩
            have hca : c ≠ a := by
              rintro rfl
              rw [ha] at hck
              exact absurd hck (by decide)
            simp only [List.mem_append, List.mem_cons] at hc ⊢
            tauto
      · intro b hb hbused
        refine hkept b ?_ hbused
        have hba : b ≠ a := by
          rintro rfl
          rw [ha] at hbused
          exact absurd hbused (by decide)
        simp only [List.mem_append, List.mem_cons] at hb ⊢
        tauto
      · exact (firstFit_some hpos ha hfit hsmall).symm
    · -- nothing is asked for, or more than a word can say
      refine ⟨0, h, _, ?_, rfl, hrep, by simpa using hmatches, fun _ _ _ _ _ _ => rfl, ?_⟩
      · unfold pvPortMalloc
        rw [if_neg (Nat.pos_iff_ne_zero.mp hrep.pxEnd_pos)]
        exact if_neg fun hguard => hpos hguard.2.1
      · exact (if_neg hpos).symm

theorem calloc_cases (hrep : Represents regions h areas) (hregions : UsableRegions h.xStart regions)
    (hmatches : Matches areas live) (num size : Nat) :
    ∃ pv h' areas', pvPortCalloc h num size = some (pv, h') ∧ h'.xStart = h.xStart ∧
      Represents regions h' areas' ∧ Matches areas' (if pv = 0 then live else (pv, num * size) :: live) ∧
      Kept h h' areas := by
  unfold pvPortCalloc
  split
  · exact ⟨0, h, areas, rfl, rfl, hrep, by simpa using hmatches, fun _ _ _ _ _ _ => rfl⟩
  · obtain ⟨pv, h', areas', hmalloc, hx, hrep', hmatches', hkept, -⟩ :=
      malloc_cases hrep hregions hmatches (num * size)
    exact ⟨pv, h', areas', hmalloc, hx, hrep', hmatches', hkept⟩

/-- The area of a block that the program holds. -/
theorem Matches.exists_area (hmatches : Matches areas live) {b : Nat × Nat} (hb : b ∈ live) :
    ∃ before a behind, areas = before ++ a :: behind ∧ a.kind = .used ∧ a.start + 8 = b.1 ∧
      b.2 + 8 ≤ a.size := by
  obtain ⟨a, ha, hk, hstart, hroom⟩ := hmatches.room b hb
  obtain ⟨before, behind, rfl⟩ := List.append_of_mem ha
  exact ⟨before, a, behind, rfl, hk, hstart, hroom⟩

/-- What is held without a block is what is in use without its area. -/
theorem Matches.drop (hmatches : Matches (before ++ a :: behind) live) (ha : a.kind = .used)
    (hother : ∀ b ∈ before ++ behind, b.start ≠ a.start) {areas' : List Area}
    (hused : areas'.filter (·.kind = .used) = (before ++ behind).filter (·.kind = .used)) :
    Matches areas' (live.filter fun b => b.1 ≠ a.start + 8) := by
  have hkeep : ∀ c ∈ before ++ a :: behind, c.kind = .used → c.start ≠ a.start → c ∈ areas' := by
    intro c hc hck hne
    have hmem : c ∈ (before ++ behind).filter (·.kind = .used) := by
      refine List.mem_filter.mpr ⟨?_, by simpa using hck⟩
      have hca : c ≠ a := fun heq => hne (heq ▸ rfl)
      simp only [List.mem_append, List.mem_cons] at hc ⊢
      tauto
    rw [← hused] at hmem
    exact (List.mem_filter.mp hmem).1
  constructor
  · have hperm := hmatches.perm.filter fun x => decide (x ≠ a.start + 8)
    have hleft : ((usedAreas (before ++ a :: behind)).map (·.start + 8)).filter
        (fun x => decide (x ≠ a.start + 8)) = (usedAreas areas').map (·.start + 8) := by
      unfold usedAreas
      rw [hused, List.filter_append, List.filter_append,
        List.filter_cons_of_pos (by simpa using ha), List.map_append, List.map_cons,
        List.filter_append, List.filter_cons_of_neg (by simp), ← List.filter_append, ← List.map_append]
      refine List.filter_eq_self.mpr fun x hx => ?_
      obtain ⟨b, hb, rfl⟩ := List.mem_map.mp hx
      have hbmem : b ∈ before ++ behind := by
        rw [← List.filter_append] at hb
        exact (List.mem_filter.mp hb).1
      have := hother b hbmem
      simpa using this
    rw [hleft] at hperm
    rw [List.filter_map] at hperm
    exact hperm
  · intro b hb
    obtain ⟨hb, hne⟩ := List.mem_filter.mp hb
    have hne : b.1 ≠ a.start + 8 := by simpa using hne
    obtain ⟨c, hc, hck, hcb, hroom⟩ := hmatches.room b hb
    exact ⟨c, hkeep c hc hck (by omega), hck, hcb, hroom⟩

/-- What `vPortFree` does to a block that the program holds. -/
theorem free_cases (hrep : Represents regions h areas) (hregions : UsableRegions h.xStart regions)
    (hmatches : Matches areas live) {pv : Nat} (hpv : pv = 0 ∨ ∃ b ∈ live, b.1 = pv) :
    ∃ h' areas', vPortFree h pv = some h' ∧ h'.xStart = h.xStart ∧ Represents regions h' areas' ∧
      Matches areas' (live.filter fun b => b.1 ≠ pv) ∧
      ∀ c ∈ areas, c.kind = .used → c.start + 8 ≠ pv →
        ∀ x, c.start ≤ x → x < c.start + c.size → h'.mem x = h.mem x := by
  obtain rfl | ⟨b, hb, rfl⟩ := hpv
  · refine ⟨h, areas, rfl, rfl, hrep, ?_, fun _ _ _ _ _ _ _ => rfl⟩
    have hall : live.filter (fun b => b.1 ≠ 0) = live := by
      refine List.filter_eq_self.mpr fun b hb => ?_
      obtain ⟨c, -, -, hcb, -⟩ := hmatches.room b hb
      simp only [ne_eq, decide_not, Bool.not_eq_eq_eq_not, Bool.not_true, decide_eq_false_iff_not]
      omega
    rw [hall]
    exact hmatches
  · obtain ⟨before, a, behind, rfl, ha, hstart, -⟩ := hmatches.exists_area hb
    obtain ⟨h', areas', hfree, hrep', hused, hx, hkept⟩ := hrep.free_some hregions ha
    have hother : ∀ c ∈ before ++ behind, c.start ≠ a.start := fun c hc =>
      (hrep.ordered hregions).start_ne (hrep.size_pos a (by simp))
        (fun x hx => hrep.size_pos x (List.mem_append_left _ hx)) hc
    rw [hstart] at hfree
    refine ⟨h', areas', hfree, hx, hrep', hstart ▸ hmatches.drop ha hother hused, ?_⟩
    intro c hc hck hne
    refine hkept c ?_ hck
    have hca : c ≠ a := fun heq => hne (heq ▸ hstart)
    simp only [List.mem_append, List.mem_cons] at hc ⊢
    tauto

/-- A write inside a block, behind its link, is nothing to the heap. -/
theorem Represents.write (hrep : Represents regions h areas) (hregions : UsableRegions h.xStart regions)
    (ha : a ∈ areas) (hused : a.kind = .used) {x : Nat} (hx : a.start < x) (hxa : x < a.start + a.size)
    (value : BlockLink) :
    Represents regions { h with mem := Function.update h.mem x value } areas := by
  have hnode : ∀ y ∈ h.xStart :: nodes areas, y ≠ x := fun y hy =>
    (hrep.used_ne_node hregions ha hused hy (Nat.le_of_lt hx) hxa).symm
  have hsame : ∀ y, y ≠ x → Function.update h.mem x value y = h.mem y := fun y hy =>
    Function.update_of_ne hy value h.mem
  constructor
  case tiled => exact hrep.tiled
  case placed => exact hrep.placed
  case first => exact hrep.first
  case marks => exact hrep.marks
  case last => exact hrep.last
  case headed =>
    intro b hb
    have hbx : b.start ≠ x := by
      rintro rfl
      have hpos := hrep.size_pos b hb
      obtain rfl := (hrep.ordered hregions).eq_of_mem ha hb (Nat.le_of_lt hx) hxa le_rfl (by omega)
      exact lt_irrefl _ hx
    obtain ⟨hsize, hnext⟩ := hrep.headed b hb
    show (Function.update h.mem x value b.start).xBlockSize = _ ∧
      (_ → (Function.update h.mem x value b.start).pxNextFreeBlock = 0)
    rw [hsame b.start hbx]
    exact ⟨hsize, hnext⟩
  case linked =>
    refine hrep.linked.congr fun y hy => ?_
    show (Function.update h.mem x value y).pxNextFreeBlock = _
    rw [hsame y (hnode y hy)]
    rfl
  case start_size =>
    show (Function.update h.mem x value h.xStart).xBlockSize = 0
    rw [hsame h.xStart (hnode _ List.mem_cons_self)]
    exact hrep.start_size
  case free => exact hrep.free
  case total => exact hrep.total
  case allocations => exact hrep.allocations

/-- No event that the program may give makes an assertion fail, and the layout is kept. -/
theorem heapInv_step {xStart : Nat} (hregions : UsableRegions xStart regions) (e : HeapEvent)
    (hinv : HeapInv regions xStart s) (hmay : heapMay s e) : HeapInv regions xStart (heapStep s e) := by
  obtain ⟨run, areas, rfl, rfl, hrep, hmatches⟩ := hinv
  have hmay := hmay run rfl
  cases e with
  | malloc wanted =>
    obtain ⟨pv, h', areas', hmalloc, hx, hrep', hmatches', -⟩ := malloc_cases hrep hregions hmatches wanted
    exact ⟨run.hold wanted (pv, h'), areas', by simp [heapStep, HeapRun.next, hmalloc], hx, hrep', hmatches'⟩
  | calloc num size =>
    obtain ⟨pv, h', areas', hcalloc, hx, hrep', hmatches', -⟩ :=
      calloc_cases hrep hregions hmatches num size
    exact ⟨run.hold (num * size) (pv, h'), areas', by simp [heapStep, HeapRun.next, hcalloc], hx, hrep',
      hmatches'⟩
  | free pv =>
    obtain ⟨h', areas', hfree, hx, hrep', hmatches', -⟩ := free_cases hrep hregions hmatches hmay
    refine ⟨⟨h', run.live.filter fun b => b.1 ≠ pv⟩, areas', ?_, hx, hrep', hmatches'⟩
    show Option.map _ (vPortFree run.heap pv) = _
    rw [hfree]
    rfl
  | write address value =>
    obtain ⟨-, b, hb, hle, hlt⟩ := hmay
    obtain ⟨a, ha, hk, hstart, hroom⟩ := hmatches.room b hb
    exact ⟨_, areas, rfl, rfl, hrep.write hregions ha hk (by omega) (by omega) value, hmatches⟩
  | resetMinimum =>
    refine ⟨_, areas, rfl, rfl, ?_, hmatches⟩
    exact ⟨hrep.tiled, hrep.placed, hrep.first, hrep.marks, hrep.last, hrep.headed, hrep.linked,
      hrep.start_size, hrep.free, hrep.total, hrep.allocations⟩

theorem heapInv_start (hregions : UsableRegions h.xStart regions) (hundefined : Undefined h) :
    HeapInv regions h.xStart (heapStart h regions) := by
  obtain ⟨h', hdefine, hrep, hx⟩ := defineHeapRegions_represents hregions hundefined.pxEnd
    hundefined.allocations hundefined.frees
  refine ⟨⟨h', []⟩, _, by simp [heapStart, hdefine], hx, hrep, ⟨?_, by simp⟩⟩
  have hnone : usedAreas (startAreas regions) = [] := by
    refine List.filter_eq_nil_iff.mpr fun a ha => ?_
    obtain ⟨r, -, rfl | rfl⟩ := mem_startAreas ha
    · simp
    · simp
  rw [hnone]
  exact List.Perm.nil

/-- The states of a run from the start. -/
def HeapReached (h : Heap5) (regions : List HeapRegion) : Option HeapRun → Prop :=
  Reached heapStep heapMay (heapStart h regions)

theorem heapReached_inv (hregions : UsableRegions h.xStart regions) (hundefined : Undefined h)
    (hs : HeapReached h regions s) : HeapInv regions h.xStart s :=
  hs.invariant (heapInv_start hregions hundefined) fun _ e hinv hmay => heapInv_step hregions e hinv hmay

end CarveraFirmware.Heap
