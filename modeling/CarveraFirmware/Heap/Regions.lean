import Mathlib
import CarveraFirmware.Heap.Layout

/-!
# The start of the heap, and the walk over it

`vPortDefineHeapRegions` leaves one free block in each region, with the end marker behind it. The walk of
the `mem` command, which goes by the sizes in the links alone, visits the blocks of any layout.
-/

namespace CarveraFirmware.Heap

open Links Areas

variable {regions : List HeapRegion} {h : Heap5} {areas : List Area} {r : HeapRegion}

/-- The array of the regions, with the one of size zero that ends it. -/
def regionArray (regions : List HeapRegion) : List HeapRegion := regions ++ [⟨0, 0⟩]

/-- The layout at the start. -/
def startAreas (regions : List HeapRegion) : List Area :=
  regions.flatMap fun r => [⟨r.first, r.room, .free⟩, ⟨r.marker, 8, .mark⟩]

theorem startAreas_cons (r : HeapRegion) (regions : List HeapRegion) :
    startAreas (r :: regions) = ⟨r.first, r.room, .free⟩ :: ⟨r.marker, 8, .mark⟩ :: startAreas regions := rfl

theorem nodes_startAreas_cons (r : HeapRegion) (regions : List HeapRegion) :
    nodes (startAreas (r :: regions)) = r.first :: r.marker :: nodes (startAreas regions) := by
  rw [startAreas_cons, nodes_cons_linked rfl, nodes_cons_linked rfl]

theorem HeapRegion.Usable.size_ne_zero (husable : r.Usable) : r.xSizeInBytes ≠ 0 := by
  have hlarge := husable.large
  have hfirst := husable.first_le
  unfold xHeapStructSize at hlarge
  omega

/-- The region turn after turn: what `defineRegion` writes behind the end marker before it. -/
theorem defineRegion_eq (husable : r.Usable) (hend : 0 < h.pxEnd) (hlt : h.pxEnd < r.first) {defined : Nat}
    (hdefined : defined ≠ 0) (hfree : h.xFreeBytesRemaining + r.room < wordSize) :
    ∃ h', defineRegion h defined r = some h' ∧ h'.xStart = h.xStart ∧ h'.pxEnd = r.marker ∧
      h'.xFreeBytesRemaining = h.xFreeBytesRemaining + r.room ∧
      h'.xNumberOfSuccessfulAllocations = h.xNumberOfSuccessfulAllocations ∧
      h'.xNumberOfSuccessfulFrees = h.xNumberOfSuccessfulFrees ∧
      (∀ x, h'.mem.next x = if x = h.pxEnd then r.first else if x = r.first then r.marker
        else if x = r.marker then 0 else h.mem.next x) ∧
      ∀ x, h'.mem.size x = if x = r.first then r.room else if x = r.marker then 0 else h.mem.size x := by
  have hmarker := husable.first_lt_marker
  have hmlt := husable.marker_lt
  have hroom : wordSub r.marker r.first = r.room := wordSub_of_le (by omega) (by omega)
  have hguard : ¬(defined ≠ 0 ∧ (h.pxEnd = 0 ∨ r.first ≤ h.pxEnd)) := by omega
  unfold defineRegion
  rw [if_neg hguard]
  simp only [if_neg hdefined, if_pos (Nat.pos_iff_ne_zero.mp hend)]
  refine ⟨_, rfl, rfl, rfl, ?_, rfl, rfl, ?_, ?_⟩
  · simp only [Memory.size_setNext, Memory.size_setSize, if_true, hroom]
    exact wordAdd_of_lt hfree
  · intro x
    simp only [Memory.next_setNext, Memory.next_setSize]
  · intro x
    simp only [Memory.size_setNext, Memory.size_setSize, hroom]

/-- The regions behind the first one. -/
theorem defineRegions_eq (husable : ∀ q ∈ regions, q.Usable)
    (hascending : regions.IsChain fun r r' => r.marker < r'.first) (hend : 0 < h.pxEnd)
    (hlt : ∀ q ∈ regions.head?, h.pxEnd < q.first) {defined : Nat} (hdefined : defined ≠ 0)
    (hnull : h.mem.next h.pxEnd = 0)
    (hfree : h.xFreeBytesRemaining + (regions.map HeapRegion.room).sum < wordSize) :
    ∃ h', defineRegions h defined (regionArray regions) = some h' ∧ h'.xStart = h.xStart ∧
      h'.pxEnd = ((regions.map HeapRegion.marker).getLast?).getD h.pxEnd ∧
      h'.xFreeBytesRemaining = h.xFreeBytesRemaining + (regions.map HeapRegion.room).sum ∧
      h'.xNumberOfSuccessfulAllocations = h.xNumberOfSuccessfulAllocations ∧
      h'.xNumberOfSuccessfulFrees = h.xNumberOfSuccessfulFrees ∧
      Headed h'.mem (startAreas regions) ∧
      Linked h'.mem.next (h.pxEnd :: nodes (startAreas regions) ++ [0]) ∧
      ∀ x, (∀ q ∈ regions, x < q.first ∨ q.marker + 8 ≤ x) →
        h'.mem.size x = h.mem.size x ∧ (x ≠ h.pxEnd → h'.mem.next x = h.mem.next x) := by
  induction regions generalizing h defined with
  | nil =>
    refine ⟨h, rfl, rfl, rfl, rfl, rfl, rfl, by simp [startAreas, Headed], ?_, fun x _ => ⟨rfl, fun _ => rfl⟩⟩
    exact linked_cons_cons.mpr ⟨hnull, List.isChain_singleton 0⟩
  | cons r regions ih =>
    have hr := husable r List.mem_cons_self
    have hmarker := hr.first_lt_marker
    have hmlt := hr.marker_lt
    have hlt := hlt r rfl
    simp only [List.map_cons, List.sum_cons] at hfree
    obtain ⟨h1, hdefine, hx1, hend1, hfree1, halloc1, hfrees1, hnext1, hsize1⟩ :=
      defineRegion_eq hr hend hlt hdefined (by omega)
    have hhead : ∀ q ∈ regions.head?, h1.pxEnd < q.first := by
      intro q hq
      rw [hend1]
      exact (List.isChain_cons.mp hascending).1 q hq
    have hnull1 : h1.mem.next h1.pxEnd = 0 := by
      rw [hend1, hnext1, if_neg (by omega), if_neg (by omega), if_pos rfl]
    obtain ⟨h', hrest, hx', hend', hfree', halloc', hfrees', hheaded, hlinked, hsame⟩ :=
      ih (fun q hq => husable q (List.mem_cons_of_mem _ hq)) hascending.tail (h := h1) (by omega) hhead
        (Nat.succ_ne_zero defined) hnull1 (by omega)
    -- the regions behind leave this one alone
    have hout : ∀ x, x < r.marker + 8 → ∀ q ∈ regions, x < q.first ∨ q.marker + 8 ≤ x := by
      intro x hx q hq
      have hspan := (ascending_spans husable hascending).le_of_mem q.span (List.mem_map_of_mem hq)
      have hspan : r.marker + 8 ≤ q.first := hspan
      omega
    refine ⟨h', ?_, hx'.trans hx1, ?_, ?_, halloc'.trans halloc1, hfrees'.trans hfrees1, ?_, ?_, ?_⟩
    · show defineRegions h defined (r :: regionArray regions) = some h'
      rw [defineRegions, if_neg hr.size_ne_zero, hdefine]
      exact hrest
    · rw [hend', hend1]
      cases regions with
      | nil => rfl
      | cons q regions => rfl
    · simp only [List.map_cons, List.sum_cons]
      omega
    · intro a ha
      rw [startAreas_cons] at ha
      obtain rfl | ha := List.mem_cons.mp ha
      · refine ⟨?_, by simp⟩
        show h'.mem.size r.first = r.room
        rw [(hsame r.first (hout _ (by omega))).1, hsize1, if_pos rfl]
      · obtain rfl | ha := List.mem_cons.mp ha
        · refine ⟨?_, by simp⟩
          show h'.mem.size r.marker = 0
          rw [(hsame r.marker (hout _ (by omega))).1, hsize1, if_neg (by omega), if_pos rfl]
        · exact hheaded a ha
    · have hfirst : h'.mem.next r.first = r.marker := by
        rw [(hsame r.first (hout _ (by omega))).2 (by omega), hnext1, if_neg (by omega), if_pos rfl]
      have hback : h'.mem.next h.pxEnd = r.first := by
        rw [(hsame h.pxEnd (hout _ (by omega))).2 (by omega), hnext1, if_pos rfl]
      rw [nodes_startAreas_cons]
      rw [hend1] at hlinked
      exact linked_cons_cons.mpr ⟨hback, linked_cons_cons.mpr ⟨hfirst, hlinked⟩⟩
    · intro x hx
      have hxr := hx r List.mem_cons_self
      obtain ⟨hsize, hnext⟩ := hsame x fun q hq => hx q (List.mem_cons_of_mem _ hq)
      refine ⟨?_, fun hne => ?_⟩
      · rw [hsize, hsize1, if_neg (by omega), if_neg (by omega)]
      · rw [hnext (by omega), hnext1, if_neg hne, if_neg (by omega), if_neg (by omega)]

/-- The first region also sets `xStart`. -/
theorem defineRegion_first (husable : r.Usable) (hend : h.pxEnd = 0) (hfree : h.xFreeBytesRemaining = 0)
    (hx : h.xStart < r.first ∨ r.marker + 8 ≤ h.xStart) :
    ∃ h', defineRegion h 0 r = some h' ∧ h'.xStart = h.xStart ∧ h'.pxEnd = r.marker ∧
      h'.xFreeBytesRemaining = r.room ∧
      h'.xNumberOfSuccessfulAllocations = h.xNumberOfSuccessfulAllocations ∧
      h'.xNumberOfSuccessfulFrees = h.xNumberOfSuccessfulFrees ∧
      h'.mem.next h.xStart = r.first ∧ h'.mem.next r.first = r.marker ∧ h'.mem.next r.marker = 0 ∧
      h'.mem.size h.xStart = 0 ∧ h'.mem.size r.first = r.room ∧ h'.mem.size r.marker = 0 := by
  have hmarker := husable.first_lt_marker
  have hmlt := husable.marker_lt
  have hroom : wordSub r.marker r.first = r.room := wordSub_of_le (by omega) (by omega)
  have hroomlt : r.room < wordSize := by
    unfold HeapRegion.room
    omega
  have hfirst : ¬h.xStart = r.first := by omega
  have hmark : ¬h.xStart = r.marker := by omega
  have hfm : ¬r.first = r.marker := by omega
  unfold defineRegion
  rw [if_neg (by simp)]
  simp only [hend, hfree, if_true, ne_eq, not_true_eq_false, if_false]
  refine ⟨_, rfl, rfl, rfl, ?_, rfl, rfl, ?_, ?_, ?_, ?_, ?_, ?_⟩
  · simp only [Memory.size_setNext, Memory.size_setSize, if_true, hroom]
    rw [wordAdd_of_lt (by omega), Nat.zero_add]
  · simp [hfirst, hmark]
  · simp
  · simp [Ne.symm hfm]
  · simp [hfirst, hmark]
  · simp [hroom]
  · simp [Ne.symm hfm]

theorem room_pos (husable : r.Usable) : 0 < r.room := by
  have := husable.first_lt_marker
  unfold HeapRegion.room
  omega

theorem startAreas_tiled (husable : ∀ q ∈ regions, q.Usable) :
    Tiled (regionSeams regions) (startAreas regions) := by
  induction regions with
  | nil => exact List.isChain_nil
  | cons r regions ih =>
    have hih := ih fun q hq => husable q (List.mem_cons_of_mem _ hq)
    have hmarker := (husable r List.mem_cons_self).first_lt_marker
    have hblock : Next (regionSeams (r :: regions)) ⟨r.first, r.room, .free⟩ ⟨r.marker, 8, .mark⟩ := by
      refine ⟨?_, by simp⟩
      show r.marker = r.first + r.room
      unfold HeapRegion.room
      omega
    rw [startAreas_cons]
    refine List.isChain_cons_cons.mpr ⟨hblock, ?_⟩
    cases regions with
    | nil => exact List.isChain_singleton _
    | cons r' regions =>
      rw [startAreas_cons] at hih ⊢
      refine List.isChain_cons_cons.mpr ⟨⟨?_, by simp⟩, ?_⟩
      · show (r.marker, r'.first) ∈ regionSeams (r :: r' :: regions)
        exact List.mem_cons_self
      · refine hih.imp fun x y hxy => ⟨?_, hxy.2⟩
        have hnext := hxy.1
        split at hnext
        · next hmark =>
          rw [if_pos hmark]
          exact List.mem_cons_of_mem _ hnext
        · next hmark =>
          rw [if_neg hmark]
          exact hnext

theorem bytes_startAreas (regions : List HeapRegion) :
    bytes .free (startAreas regions) = (regions.map HeapRegion.room).sum ∧
      bytes .used (startAreas regions) = 0 ∧ count .used (startAreas regions) = 0 := by
  induction regions with
  | nil => exact ⟨rfl, rfl, rfl⟩
  | cons r regions ih =>
    obtain ⟨hfree, hused, hcount⟩ := ih
    simp [startAreas_cons, hfree, hused, hcount]

theorem marks_startAreas (regions : List HeapRegion) :
    marks (startAreas regions) = regions.map HeapRegion.marker := by
  induction regions with
  | nil => rfl
  | cons r regions ih =>
    rw [startAreas_cons, marks_cons_block rfl, marks_cons_mark rfl, ih]
    rfl

theorem mem_startAreas {a : Area} (ha : a ∈ startAreas regions) :
    ∃ r ∈ regions, a = ⟨r.first, r.room, .free⟩ ∨ a = ⟨r.marker, 8, .mark⟩ := by
  obtain ⟨r, hr, ha⟩ := List.mem_flatMap.mp ha
  refine ⟨r, hr, ?_⟩
  simpa using ha

theorem getLast?_startAreas (r : HeapRegion) (regions : List HeapRegion) :
    ∃ m ∈ (startAreas (r :: regions)).getLast?, m.kind = .mark ∧
      m.start = ((regions.map HeapRegion.marker).getLast?).getD r.marker := by
  induction regions generalizing r with
  | nil => exact ⟨⟨r.marker, 8, .mark⟩, rfl, rfl, rfl⟩
  | cons q regions ih =>
    obtain ⟨m, hm, hkind, hstart⟩ := ih q
    refine ⟨m, ?_, hkind, ?_⟩
    · rw [startAreas_cons, startAreas_cons] at *
      exact hm
    · rw [hstart]
      cases regions with
      | nil => rfl
      | cons z regions => rfl

/-- The heap at the start, whatever was in the memory. -/
theorem defineHeapRegions_represents (hregions : UsableRegions h.xStart regions) (hend : h.pxEnd = 0)
    (hallocations : h.xNumberOfSuccessfulAllocations = 0) (hfrees : h.xNumberOfSuccessfulFrees = 0) :
    ∃ h', vPortDefineHeapRegions h (regionArray regions) = some h' ∧
      Represents regions h' (startAreas regions) ∧ h'.xStart = h.xStart := by
  obtain ⟨r, rest, rfl⟩ := List.exists_cons_of_ne_nil hregions.ne_nil
  have hr := hregions.usable r List.mem_cons_self
  have hsum := hregions.room_sum_lt
  have hmarker := hr.first_lt_marker
  have hmlt := hr.marker_lt
  have hout := hregions.apart List.mem_cons_self
  have hrestusable : ∀ q ∈ rest, q.Usable := fun q hq => hregions.usable q (List.mem_cons_of_mem _ hq)
  simp only [List.map_cons, List.sum_cons] at hsum
  obtain ⟨h1, hdefine, hx1, hend1, hfree1, halloc1, hfrees1, hnextx, hnextf, hnextm, hsizex, hsizef, hsizem⟩ :=
    defineRegion_first (h := { h with xFreeBytesRemaining := 0 }) hr hend rfl hout
  have hhead : ∀ q ∈ rest.head?, h1.pxEnd < q.first := by
    intro q hq
    rw [hend1]
    exact (List.isChain_cons.mp hregions.ascending).1 q hq
  obtain ⟨h2, hrest, hx2, hend2, hfree2, halloc2, hfrees2, hheaded, hlinked, hsame⟩ :=
    defineRegions_eq (h := h1) hrestusable hregions.ascending.tail (by omega) hhead
      (Nat.succ_ne_zero 0) (by rw [hend1]; exact hnextm) (by omega)
  -- the regions behind leave `xStart` and the first region alone
  have hfront : ∀ x, x < r.marker + 8 → ∀ q ∈ rest, x < q.first ∨ q.marker + 8 ≤ x := by
    intro x hx q hq
    have hspan := (ascending_spans hregions.usable hregions.ascending).le_of_mem q.span
      (List.mem_map_of_mem hq)
    have hspan : r.marker + 8 ≤ q.first := hspan
    omega
  have hsamex := hsame h.xStart fun q hq => hregions.apart (List.mem_cons_of_mem _ hq)
  have hsamef := hsame r.first (hfront _ (by omega))
  have hsamem := hsame r.marker (hfront _ (by omega))
  have hpos : 0 < h2.xFreeBytesRemaining := by
    have := room_pos hr
    omega
  have hxs : h2.xStart = h.xStart := hx2.trans hx1
  refine ⟨{ h2 with xMinimumEverFreeBytesRemaining := h2.xFreeBytesRemaining }, ?_, ?_, hxs⟩
  · have hall : defineRegions { h with xFreeBytesRemaining := 0 } 0 (regionArray (r :: rest)) =
        some h2 := by
      rw [regionArray, List.cons_append, defineRegions, if_neg hr.size_ne_zero, hdefine]
      exact hrest
    unfold vPortDefineHeapRegions
    rw [if_neg (not_not.mpr hend)]
    simp only [hall]
    rw [if_neg (by omega)]
  · obtain ⟨hfreebytes, husedbytes, husedcount⟩ := bytes_startAreas (r :: rest)
    constructor
    case tiled => exact startAreas_tiled hregions.usable
    case placed =>
      intro a ha
      obtain ⟨q, hq, ha⟩ := mem_startAreas ha
      have hqu := hregions.usable q hq
      have hqmarker := hqu.first_lt_marker
      have hqlt := hqu.marker_lt
      have hqpos := hqu.start_pos
      have hqfirst := hqu.first_le
      have hqroom := hqu.valid
      have hqout := hregions.apart hq
      have hqfdvd := q.first_dvd
      have hqmdvd := hqu.marker_dvd
      unfold HeapRegion.room at hqroom
      unfold xHeapStructSize at hqout
      show Placed h2.xStart a
      rw [hxs]
      obtain rfl | rfl := ha
      · exact ⟨by simp only; omega, hqfdvd, by unfold HeapRegion.room; simp only; omega, room_pos hqu, hqroom,
          by unfold HeapRegion.room; simp only; omega, by simp [Kind.isMark],
          by unfold HeapRegion.room; simp only; omega⟩
      · exact ⟨by simp only; omega, hqmdvd, by simp, by simp, by simp [heapBlockAllocatedBitmask],
          by simp only; omega, by simp, by simp only; omega⟩
    case first => rfl
    case marks => exact marks_startAreas (r :: rest)
    case last =>
      obtain ⟨m, hm, hkind, hstart⟩ := getLast?_startAreas r rest
      refine ⟨m, hm, hkind, ?_⟩
      rw [hstart, ← hend1]
      exact hend2.symm
    case headed =>
      intro a ha
      rw [startAreas_cons] at ha
      obtain rfl | ha := List.mem_cons.mp ha
      · exact ⟨hsamef.1.trans hsizef, by simp⟩
      · obtain rfl | ha := List.mem_cons.mp ha
        · exact ⟨hsamem.1.trans hsizem, by simp⟩
        · exact hheaded a ha
    case linked =>
      show Linked h2.mem.next (h2.xStart :: nodes (startAreas (r :: rest)) ++ [0])
      rw [hxs, nodes_startAreas_cons]
      rw [hend1] at hlinked
      refine linked_cons_cons.mpr ⟨?_, linked_cons_cons.mpr ⟨?_, hlinked⟩⟩
      · rw [hsamex.2 (by rw [hend1]; unfold xHeapStructSize at hout; omega)]
        exact hnextx
      · rw [hsamef.2 (by omega)]
        exact hnextf
    case start_size =>
      show h2.mem.size h2.xStart = 0
      rw [hxs, hsamex.1]
      exact hsizex
    case free =>
      show h2.xFreeBytesRemaining = _
      rw [hfreebytes, hfree2, hfree1]
      rfl
    case total =>
      rw [hfreebytes, husedbytes]
      rfl
    case allocations =>
      show h2.xNumberOfSuccessfulAllocations = wordAdd h2.xNumberOfSuccessfulFrees _
      rw [husedcount, halloc2, halloc1, hfrees2, hfrees1]
      show h.xNumberOfSuccessfulAllocations = wordAdd h.xNumberOfSuccessfulFrees 0
      rw [hallocations, hfrees]
      rfl

/-! ## The walk -/

/-- What the walk gives for an area. -/
def areaInfo (a : Area) : HeapAreaInfo := ⟨a.start, a.size, a.kind = .used⟩

def blocksOf (areas : List Area) : List Area := areas.filter fun a => !a.kind.isMark

theorem blocksOf_cons_block {a : Area} (ha : a.kind.isMark = false) :
    blocksOf (a :: areas) = a :: blocksOf areas := by
  simp [blocksOf, ha]

theorem blocksOf_cons_mark {a : Area} (ha : a.kind.isMark = true) :
    blocksOf (a :: areas) = blocksOf areas := by
  simp [blocksOf, ha]

theorem Represents.areaInfo_eq (hrep : Represents regions h areas) {a : Area} (ha : a ∈ areas)
    (hmark : a.kind.isMark = false) :
    h.mem.size a.start % heapBlockAllocatedBitmask = a.size ∧
      heapBlockIsAllocated (h.mem a.start) = decide (a.kind = .used) := by
  have hlt := (hrep.placed a ha).size_lt
  have hsize := (hrep.headed a ha).1
  have hallocated : heapBlockIsAllocated (h.mem a.start) =
      decide (heapBlockAllocatedBitmask ≤ h.mem.size a.start) := rfl
  rw [hallocated, hsize]
  unfold header
  split
  · next hk => exact ⟨Nat.mod_eq_of_lt hlt, by rw [hk]; simpa using hlt⟩
  · next hk =>
    refine ⟨by rw [Nat.add_mod_right, Nat.mod_eq_of_lt hlt], by rw [hk]; simp⟩
  · next hk => rw [hk] at hmark; exact absurd hmark (by decide)
  · next hk => rw [hk] at hmark; exact absurd hmark (by decide)

theorem visitAreas_fill {blocks : List Area} {start stop fuel : Nat} (hfill : Fill start blocks stop)
    (hfuel : stop - start < fuel) {mem : Memory}
    (hblocks : ∀ b ∈ blocks, 8 ≤ b.size ∧ 8 ∣ b.size ∧
      mem.size b.start % heapBlockAllocatedBitmask = b.size ∧
      heapBlockIsAllocated (mem b.start) = decide (b.kind = .used)) :
    visitAreas mem stop fuel start = some (blocks.map areaInfo) := by
  induction blocks generalizing start fuel with
  | nil =>
    obtain rfl := hfill
    cases fuel with
    | zero => exact absurd hfuel (Nat.not_lt_zero _)
    | succ fuel => rw [visitAreas, if_neg (lt_irrefl start), if_pos rfl]; rfl
  | cons b blocks ih =>
    obtain ⟨rfl, -, htail⟩ := hfill
    obtain ⟨hle, hdvd, hsize, hallocated⟩ := hblocks b List.mem_cons_self
    have hstop := htail.bounds.1
    cases fuel with
    | zero => exact absurd hfuel (Nat.not_lt_zero _)
    | succ fuel =>
      rw [visitAreas, if_pos (by omega)]
      simp only [hsize, hallocated]
      rw [if_neg (by unfold xHeapStructSize portByteAlignment; omega),
        ih htail (by omega) fun c hc => hblocks c (List.mem_cons_of_mem _ hc)]
      rfl

theorem visitRegion_eq (husable : r.Usable) (mem : Memory) :
    visitRegion mem r = visitAreas mem r.marker heapTurns r.first := by
  have hlarge := husable.large
  have hfits := husable.fits
  have hfirst := husable.first_le
  have hlt := r.first_sub_lt
  unfold xHeapStructSize at hlarge
  unfold visitRegion
  rw [if_neg (by omega)]
  dsimp only
  rw [if_neg (by unfold xHeapStructSize heapSizeMax; omega), husable.marker_eq]
  congr 1
  unfold xHeapStructSize portByteAlignment
  congr 2
  omega

/-- The walk goes over the blocks of each region. -/
theorem heapVisitRegions_covers {mem : Memory} (husable : ∀ q ∈ regions, q.Usable)
    (hcovers : Covers (regions.map HeapRegion.span) areas)
    (hblocks : ∀ b ∈ areas, b.kind.isMark = false → 8 ≤ b.size ∧ 8 ∣ b.size ∧
      mem.size b.start % heapBlockAllocatedBitmask = b.size ∧
      heapBlockIsAllocated (mem b.start) = decide (b.kind = .used)) :
    heapVisitRegions mem (regionArray regions) = some ((blocksOf areas).map areaInfo) := by
  induction regions generalizing areas with
  | nil =>
    rw [show areas = [] from hcovers]
    rfl
  | cons r regions ih =>
    obtain ⟨blocks, m, rest, rfl, hfill, -, hm, hrest⟩ := hcovers
    have hr := husable r List.mem_cons_self
    have hmlt := hr.marker_lt
    have hvisit : visitRegion mem r = some (blocks.map areaInfo) := by
      rw [visitRegion_eq hr]
      refine visitAreas_fill hfill ?_ ?_
      · show r.marker - r.first < wordSize + 1
        omega
      · intro b hb
        exact hblocks b (List.mem_append_left _ hb) (hfill.blocks b hb)
    have hall : blocksOf (blocks ++ m :: rest) = blocks ++ blocksOf rest := by
      unfold blocksOf
      rw [List.filter_append, List.filter_eq_self.mpr fun b hb => by simp [hfill.blocks b hb]]
      simp [hm]
    rw [regionArray, List.cons_append, heapVisitRegions, if_neg hr.size_ne_zero,
      if_neg (Nat.pos_iff_ne_zero.mp hr.start_pos), hvisit]
    have hih := ih (fun q hq => husable q (List.mem_cons_of_mem _ hq)) hrest fun b hb =>
      hblocks b (List.mem_append_right _ (List.mem_cons_of_mem _ hb))
    rw [regionArray] at hih
    rw [hih, hall, List.map_append]
    rfl

theorem Represents.walk (hrep : Represents regions h areas) (hregions : UsableRegions h.xStart regions) :
    heapVisitRegions h.mem (regionArray regions) = some ((blocksOf areas).map areaInfo) := by
  refine heapVisitRegions_covers hregions.usable
    (covers_regions hregions hrep.tiled hrep.marks hrep.first) ?_
  intro b hb hmark
  have hplaced := hrep.placed b hb
  have hpos := hplaced.size_pos
  have hdvd := hplaced.size_dvd
  exact ⟨by omega, hdvd, hrep.areaInfo_eq hb hmark⟩

end CarveraFirmware.Heap
