import Mathlib
import CarveraFirmware.Library.Areas
import CarveraFirmware.Heap.Heap5

/-!
# What the heap looks like

`Represents regions h areas`: the memory of the heap is divided into `areas`, each with the link that
says what it is, and the list from `xStart` leads through the free ones in address order.
-/

namespace CarveraFirmware.Heap

open Links Areas

/-! ## Words and links -/

theorem wordAdd_of_lt {a b : Nat} (h : a + b < wordSize) : wordAdd a b = a + b := Nat.mod_eq_of_lt h

theorem wordSub_of_le {a b : Nat} (h : b ≤ a) (ha : a < wordSize) : wordSub a b = a - b := by
  unfold wordSub
  rw [Nat.add_sub_assoc h, Nat.add_mod_left, Nat.mod_eq_of_lt (by omega)]

namespace Memory

variable (mem : Memory) (a block value : Nat)

@[simp] theorem next_setNext :
    (mem.setNext block value).next a = if a = block then value else mem.next a := by
  unfold next setNext
  split
  · rfl
  · rfl

@[simp] theorem size_setNext : (mem.setNext block value).size a = mem.size a := by
  unfold size setNext
  split
  · rfl
  · rfl

@[simp] theorem size_setSize :
    (mem.setSize block value).size a = if a = block then value else mem.size a := by
  unfold size setSize
  split
  · rfl
  · rfl

@[simp] theorem next_setSize : (mem.setSize block value).next a = mem.next a := by
  unfold next setSize
  split
  · rfl
  · rfl

theorem ext_at {mem mem' : Memory} {a : Nat} (hnext : mem'.next a = mem.next a)
    (hsize : mem'.size a = mem.size a) : mem' a = mem a :=
  BlockLink.ext hnext hsize

@[simp] theorem next_allocate : (mem.allocate block).next a = mem.next a := next_setSize ..

@[simp] theorem next_release : (mem.release block).next a = mem.next a := next_setSize ..

end Memory

/-! ## The regions -/

namespace HeapRegion

/-- Where the blocks of a region begin, and where its marker stands. -/
def span (r : HeapRegion) : Nat × Nat := (r.first, r.marker)

/-- The bytes of a region that blocks can take. -/
def room (r : HeapRegion) : Nat := r.marker - r.first

/-- The region has room for an end marker and a link in front of it, and its blocks leave the bit free
that marks them as allocated. -/
structure Usable (r : HeapRegion) : Prop where
  start_pos : 0 < r.pucStartAddress
  fits : r.pucStartAddress + r.xSizeInBytes < wordSize
  first_le : r.pucStartAddress ≤ r.first
  large : r.first + 2 * xHeapStructSize ≤ r.pucStartAddress + r.xSizeInBytes
  valid : r.room < heapBlockAllocatedBitmask

end HeapRegion

/-- The seams between the regions. -/
def regionSeams (regions : List HeapRegion) : List (Nat × Nat) := seams (regions.map HeapRegion.span)

/-- The regions are usable and ascend, and the static `xStart` is in none of them. -/
structure UsableRegions (xStart : Nat) (regions : List HeapRegion) : Prop where
  ne_nil : regions ≠ []
  xStart_lt : xStart < wordSize
  usable : ∀ r ∈ regions, r.Usable
  ascending : regions.IsChain fun r r' => r.marker < r'.first
  outside : ∀ r ∈ regions, xStart + xHeapStructSize ≤ r.first ∨
    r.marker + xHeapStructSize ≤ xStart

theorem UsableRegions.apart {xStart : Nat} {regions : List HeapRegion} {r : HeapRegion}
    (h : UsableRegions xStart regions) (hr : r ∈ regions) :
    xStart < r.first ∨ r.marker + xHeapStructSize ≤ xStart :=
  (h.outside r hr).imp_left fun hle => Nat.lt_of_lt_of_le (Nat.lt_add_of_pos_right (by decide)) hle

namespace HeapRegion

variable {r : HeapRegion}

theorem first_cases (r : HeapRegion) :
    r.first = (r.pucStartAddress + 7) % wordSize / 8 * 8 ∨
      r.first = r.pucStartAddress ∧ r.pucStartAddress % 8 = 0 := by
  by_cases hodd : r.pucStartAddress % portByteAlignment ≠ 0
  · exact Or.inl (if_pos hodd)
  · exact Or.inr ⟨if_neg hodd, not_not.mp hodd⟩

theorem first_dvd (r : HeapRegion) : 8 ∣ r.first := by
  obtain hfirst | ⟨hfirst, heven⟩ := r.first_cases
  · rw [hfirst]
    exact Nat.dvd_mul_left 8 _
  · omega

theorem first_sub_lt (r : HeapRegion) : r.first - r.pucStartAddress < 8 := by
  obtain hfirst | ⟨hfirst, -⟩ := r.first_cases
  · have := Nat.mod_le (r.pucStartAddress + 7) wordSize
    omega
  · omega

theorem Usable.marker_eq (h : r.Usable) :
    r.marker = (r.pucStartAddress + r.xSizeInBytes - 8) / 8 * 8 := by
  have hfirst := h.first_le
  have hlarge := h.large
  have hfits := h.fits
  have hlost : wordSub r.first r.pucStartAddress = r.first - r.pucStartAddress :=
    wordSub_of_le hfirst (by simp only [xHeapStructSize] at hlarge; omega)
  have hsize : r.alignedSize = r.xSizeInBytes - (r.first - r.pucStartAddress) := by
    unfold alignedSize
    rw [hlost]
    exact wordSub_of_le (by simp only [xHeapStructSize] at hlarge; omega) (by omega)
  have hend : r.first + r.alignedSize = r.pucStartAddress + r.xSizeInBytes := by
    simp only [xHeapStructSize] at hlarge
    omega
  unfold marker
  rw [wordAdd_of_lt (by omega), hend, wordSub_of_le (by simp only [xHeapStructSize] at *; omega) hfits]
  rfl

theorem Usable.marker_dvd (h : r.Usable) : 8 ∣ r.marker := by
  rw [h.marker_eq]
  exact Nat.dvd_mul_left 8 _

theorem Usable.first_lt_marker (h : r.Usable) : r.first + 8 ≤ r.marker := by
  have hlarge := h.large
  obtain ⟨k, hk⟩ := r.first_dvd
  rw [h.marker_eq]
  simp only [xHeapStructSize] at hlarge
  omega

theorem Usable.marker_lt (h : r.Usable) : r.marker + 8 < wordSize := by
  have hlarge := h.large
  have hfits := h.fits
  have hfirst := h.first_le
  rw [h.marker_eq]
  simp only [xHeapStructSize] at hlarge
  omega

end HeapRegion

theorem ascending_spans {regions : List HeapRegion} (husable : ∀ r ∈ regions, r.Usable)
    (hascending : regions.IsChain fun r r' => r.marker < r'.first) :
    Ascending 8 (regions.map HeapRegion.span) := by
  refine ⟨?_, ?_⟩
  · intro s hs
    obtain ⟨r, hr, rfl⟩ := List.mem_map.mp hs
    have := (husable r hr).first_lt_marker
    show r.first ≤ r.marker
    omega
  · rw [List.isChain_map]
    refine hascending.imp_of_mem_imp fun r r' hr _ hlt => ?_
    have hmarker := (husable r hr).marker_dvd
    have hfirst := r'.first_dvd
    show r.marker + 8 ≤ r'.first
    omega

theorem UsableRegions.ascending_spans {xStart : Nat} {regions : List HeapRegion}
    (h : UsableRegions xStart regions) : Ascending 8 (regions.map HeapRegion.span) :=
  Heap.ascending_spans h.usable h.ascending

theorem room_sum_le {r : HeapRegion} {regions : List HeapRegion} {m : Nat}
    (husable : ∀ q ∈ r :: regions, q.Usable)
    (hascending : (r :: regions).IsChain fun r r' => r.marker < r'.first)
    (hm : ∀ q ∈ r :: regions, q.marker ≤ m) :
    ((r :: regions).map HeapRegion.room).sum + r.first ≤ m := by
  induction regions generalizing r with
  | nil =>
    have hlt := (husable r List.mem_cons_self).first_lt_marker
    have := hm r List.mem_cons_self
    simp only [List.map_cons, List.map_nil, List.sum_cons, List.sum_nil, HeapRegion.room]
    omega
  | cons r' regions ih =>
    obtain ⟨hlt, hascending⟩ := List.isChain_cons_cons.mp hascending
    have hih := ih (fun q hq => husable q (List.mem_cons_of_mem _ hq)) hascending
      (fun q hq => hm q (List.mem_cons_of_mem _ hq))
    have hroom := (husable r List.mem_cons_self).first_lt_marker
    rw [List.map_cons, List.sum_cons, HeapRegion.room]
    omega

theorem UsableRegions.room_sum_lt {xStart : Nat} {regions : List HeapRegion}
    (h : UsableRegions xStart regions) : (regions.map HeapRegion.room).sum < wordSize := by
  obtain ⟨r, rest, rfl⟩ := List.exists_cons_of_ne_nil h.ne_nil
  have hle := room_sum_le (m := wordSize - 1) h.usable h.ascending fun q hq => by
    have := (h.usable q hq).marker_lt
    omega
  have := (h.usable r List.mem_cons_self).marker_lt
  omega

/-! ## The layout -/

/-- What the link of an area gives as its size. -/
def header (a : Area) : Nat :=
  match a.kind with
  | .free => a.size
  | .used => a.size + heapBlockAllocatedBitmask
  | .mark | .lost => 0

/-- Where an area may be. -/
structure Placed (xStart : Nat) (a : Area) : Prop where
  start_pos : 0 < a.start
  start_dvd : 8 ∣ a.start
  size_dvd : 8 ∣ a.size
  size_pos : 0 < a.size
  size_lt : a.size < heapBlockAllocatedBitmask
  end_lt : a.start + a.size < wordSize
  mark : a.kind.isMark = true → a.size = 8
  outside : xStart < a.start ∨ a.start + a.size ≤ xStart

/-- Each area has the link that says what it is. -/
def Headed (mem : Memory) (areas : List Area) : Prop :=
  ∀ a ∈ areas, mem.size a.start = header a ∧ (a.kind = .used → mem.next a.start = 0)

structure Represents (regions : List HeapRegion) (h : Heap5) (areas : List Area) : Prop where
  tiled : Tiled (regionSeams regions) areas
  placed : ∀ a ∈ areas, Placed h.xStart a
  first : areas.head?.map (·.start) = regions.head?.map HeapRegion.first
  marks : marks areas = regions.map HeapRegion.marker
  last : ∃ a ∈ areas.getLast?, a.kind = .mark ∧ a.start = h.pxEnd
  headed : Headed h.mem areas
  linked : Linked h.mem.next (h.xStart :: nodes areas ++ [0])
  start_size : h.mem.size h.xStart = 0
  free : h.xFreeBytesRemaining = bytes .free areas
  total : bytes .free areas + bytes .used areas = (regions.map HeapRegion.room).sum
  allocations : h.xNumberOfSuccessfulAllocations =
    wordAdd h.xNumberOfSuccessfulFrees (count .used areas)

variable {regions : List HeapRegion} {h h' : Heap5} {areas before behind : List Area} {a b : Area}

/-- Region by region, blocks fill what is in front of the end marker. -/
theorem covers_regions {xStart : Nat} (hregions : UsableRegions xStart regions)
    (htiled : Tiled (regionSeams regions) areas) (hmarks : marks areas = regions.map HeapRegion.marker)
    (hfirst : areas.head?.map (·.start) = regions.head?.map HeapRegion.first) :
    Covers (regions.map HeapRegion.span) areas := by
  refine covers_of_tiled hregions.ascending_spans (by omega) htiled ?_ ?_
  · rw [hmarks, List.map_map]
    rfl
  · rw [hfirst]
    cases regions with
    | nil => rfl
    | cons r regions => rfl

theorem tiled_ordered {xStart : Nat} (hregions : UsableRegions xStart regions)
    (htiled : Tiled (regionSeams regions) areas) (hplaced : ∀ a ∈ areas, Placed xStart a) : Ordered areas :=
  htiled.ordered hregions.ascending_spans.upward fun a ha => ⟨(hplaced a ha).size_pos, (hplaced a ha).mark⟩

/-- What areas in use hold stays as it is. -/
def Kept (h h' : Heap5) (areas : List Area) : Prop :=
  ∀ b ∈ areas, b.kind = .used → ∀ x, b.start ≤ x → x < b.start + b.size → h'.mem x = h.mem x

namespace Represents

theorem ordered (hrep : Represents regions h areas) (hregions : UsableRegions h.xStart regions) :
    Ordered areas :=
  tiled_ordered hregions hrep.tiled hrep.placed

theorem size_pos (hrep : Represents regions h areas) : ∀ a ∈ areas, 0 < a.size :=
  fun a ha => (hrep.placed a ha).size_pos

theorem nodes_ascend (hrep : Represents regions h areas) (hregions : UsableRegions h.xStart regions) :
    (nodes areas).Pairwise (· < ·) :=
  (hrep.ordered hregions).nodes_ascend hrep.size_pos

theorem nodes_pos (hrep : Represents regions h areas) : ∀ x ∈ nodes areas, 0 < x := by
  intro x hx
  obtain ⟨a, ha, -, rfl⟩ := mem_nodes.mp hx
  exact (hrep.placed a ha).start_pos

theorem nodes_lt (hrep : Represents regions h areas) : ∀ x ∈ nodes areas, x < wordSize := by
  intro x hx
  obtain ⟨a, ha, -, rfl⟩ := mem_nodes.mp hx
  have := (hrep.placed a ha).end_lt
  omega

theorem start_ne_xStart (hrep : Represents regions h areas) (ha : a ∈ areas) : a.start ≠ h.xStart := by
  have hout := (hrep.placed a ha).outside
  have hpos := (hrep.placed a ha).size_pos
  omega

theorem length_nodes (hrep : Represents regions h areas) (hregions : UsableRegions h.xStart regions) :
    (nodes areas).length < heapTurns := by
  have := length_le_of_ascending (hrep.nodes_ascend hregions) hrep.nodes_lt
  unfold heapTurns
  omega

theorem nodup (hrep : Represents regions h areas) (hregions : UsableRegions h.xStart regions) :
    (h.xStart :: nodes areas).Nodup := by
  refine List.nodup_cons.mpr ⟨?_, (hrep.nodes_ascend hregions).imp fun hlt => Nat.ne_of_lt hlt⟩
  intro hmem
  obtain ⟨a, ha, -, hstart⟩ := mem_nodes.mp hmem
  exact hrep.start_ne_xStart ha hstart

/-- An area in use is not on the list. -/
theorem used_ne_node (hrep : Represents regions h areas) (hregions : UsableRegions h.xStart regions)
    (hb : b ∈ areas) (hused : b.kind = .used) {x y : Nat} (hy : y ∈ h.xStart :: nodes areas)
    (hx : b.start ≤ x) (hxb : x < b.start + b.size) : x ≠ y := by
  obtain rfl | hy := List.mem_cons.mp hy
  · have := (hrep.placed b hb).outside
    omega
  · obtain ⟨a, ha, hlinked, rfl⟩ := mem_nodes.mp hy
    rintro rfl
    have hpos := hrep.size_pos a ha
    obtain rfl := (hrep.ordered hregions).eq_of_mem hb ha hx hxb le_rfl (by omega)
    rw [hused] at hlinked
    exact absurd hlinked (by decide)

theorem free_lt (hrep : Represents regions h areas) (hregions : UsableRegions h.xStart regions) :
    h.xFreeBytesRemaining < wordSize := by
  have hsum := hregions.room_sum_lt
  have htotal := hrep.total
  rw [hrep.free]
  omega

/-- The last area is the end marker of the last region. -/
theorem exists_end (hrep : Represents regions h areas) :
    ∃ front m, areas = front ++ [m] ∧ m.kind = .mark ∧ m.start = h.pxEnd := by
  obtain ⟨m, hm, hkind, hend⟩ := hrep.last
  exact ⟨areas.dropLast, m, (List.dropLast_append_getLast? m hm).symm, hkind, hend⟩

theorem behind_ne_nil (hrep : Represents regions h (before ++ a :: behind)) (ha : a.kind ≠ .mark) :
    behind ≠ [] := by
  obtain ⟨m, hm, hkind, -⟩ := hrep.last
  rintro rfl
  rw [List.getLast?_append_of_ne_nil _ (List.cons_ne_nil a [])] at hm
  obtain rfl : a = m := by simpa using hm
  exact ha hkind

theorem pxEnd_pos (hrep : Represents regions h areas) : 0 < h.pxEnd := by
  obtain ⟨front, m, rfl, -, hend⟩ := hrep.exists_end
  exact hend ▸ (hrep.placed m (by simp)).start_pos

end Represents

/-! ## Around an area -/

/-- What is around an area of the layout: the node `p` before it on the list and the nodes `init` before
that one, the nodes behind it, and the other areas. -/
structure Around (h : Heap5) (before : List Area) (a : Area) (behind : List Area) (init : List Nat)
    (p : Nat) : Prop where
  cut : h.xStart :: nodes before = init ++ [p]
  last : p = (h.xStart :: nodes before).getLast (List.cons_ne_nil _ _)
  node_out : p < a.start ∨ a.start + a.size ≤ p
  front : ∀ y ∈ init, y ≠ p ∧ (y < a.start ∨ a.start + a.size ≤ y)
  back : ∀ y ∈ nodes behind, y ≠ p ∧ a.start + a.size ≤ y
  other : ∀ b ∈ before ++ behind, b.start + b.size ≤ a.start ∨ a.start + a.size ≤ b.start
  used : ∀ b ∈ before ++ behind, b.kind = .used → ∀ x, b.start ≤ x → x < b.start + b.size → x ≠ p

namespace Represents

/-- No node in front of an area is in it, and neither is `xStart`. -/
theorem front_out (hrep : Represents regions h (before ++ a :: behind))
    (hregions : UsableRegions h.xStart regions) {y : Nat} (hy : y ∈ h.xStart :: nodes before) :
    y < a.start ∨ a.start + a.size ≤ y := by
  obtain rfl | hy := List.mem_cons.mp hy
  · exact (hrep.placed a (by simp)).outside
  · obtain ⟨b, hb, -, rfl⟩ := mem_nodes.mp hy
    have hbefore := (hrep.ordered hregions).around.1 b hb
    have hpos := hrep.size_pos b (List.mem_append_left _ hb)
    omega

theorem exists_around (hrep : Represents regions h (before ++ a :: behind))
    (hregions : UsableRegions h.xStart regions) : ∃ init p, Around h before a behind init p := by
  have hcut := List.dropLast_append_getLast (List.cons_ne_nil h.xStart (nodes before))
  have hord := hrep.ordered hregions
  have hnodup := hrep.nodup hregions
  rw [nodes_append, ← List.cons_append] at hnodup
  obtain ⟨hfront, -, hdisj⟩ := List.nodup_append.mp hnodup
  have hsub : ∀ y ∈ nodes behind, y ∈ nodes (a :: behind) := by
    intro y hy
    by_cases hlinked : a.kind.linked = true
    · rw [nodes_cons_linked hlinked]
      exact List.mem_cons_of_mem _ hy
    · rw [nodes_cons_unlinked (Bool.eq_false_iff.mpr hlinked)]
      exact hy
  refine ⟨_, _, hcut.symm, rfl, hrep.front_out hregions (List.getLast_mem _), ?_, ?_, ?_, ?_⟩
  · intro y hy
    refine ⟨?_, hrep.front_out hregions (List.mem_of_mem_dropLast hy)⟩
    rw [← hcut] at hfront
    exact fun heq => (List.nodup_append.mp hfront).2.2 y hy _ (List.mem_singleton_self _) heq
  · intro y hy
    obtain ⟨b, hb, -, hstart⟩ := mem_nodes.mp hy
    refine ⟨fun heq => ?_, hstart ▸ hord.around.2 b hb⟩
    exact hdisj _ (List.getLast_mem _) y (hsub y hy) heq.symm
  · intro b hb
    obtain hb | hb := List.mem_append.mp hb
    · exact Or.inl (hord.around.1 b hb)
    · exact Or.inr (hord.around.2 b hb)
  · intro b hb hused x hx hxb
    have hmem : b ∈ before ++ a :: behind := by
      simp only [List.mem_append, List.mem_cons] at hb ⊢
      tauto
    refine hrep.used_ne_node hregions hmem hused ?_ hx hxb
    rw [nodes_append, ← List.cons_append]
    exact List.mem_append_left _ (List.getLast_mem _)

end Represents

end CarveraFirmware.Heap
