import Mathlib
import CarveraFirmware.Heap.Allocate

/-!
# Freeing

`vPortFree` gives an area back, joined with the free ones beside it. A mark between two regions is lost
from the list when the area in front of it is freed, which no later step depends on.
-/

namespace CarveraFirmware.Heap

open Links Areas

variable {regions : List HeapRegion} {h h' : Heap5} {areas before behind rest rest' : List Area} {a : Area}
  {init : List Nat} {p start size extra : Nat}

/-- The list around an area in use. -/
theorem Represents.linked_around (hrep : Represents regions h (before ++ a :: behind))
    (ha : a.kind = .used) (haround : Around h before a behind init p) :
    Linked h.mem.next (init ++ p :: (nodes behind ++ [0])) := by
  have hlinked := hrep.linked
  rw [nodes_append, nodes_cons_unlinked (by rw [ha]; rfl), ← List.cons_append, haround.cut] at hlinked
  simpa using hlinked

/-- Behind an area in use there is a node: the last mark at least. -/
theorem Represents.nodes_behind (hrep : Represents regions h (before ++ a :: behind))
    (ha : a.kind = .used) : ∃ q qs, nodes behind = q :: qs := by
  obtain ⟨m, hm, hmark, -⟩ := hrep.last
  have hbehind := hrep.behind_ne_nil (by rw [ha]; decide)
  rw [List.getLast?_append_of_ne_nil _ (List.cons_ne_nil _ _), ← List.singleton_append,
    List.getLast?_append_of_ne_nil _ hbehind] at hm
  have hmem : m.start ∈ nodes behind :=
    mem_nodes.mpr ⟨m, List.mem_of_mem_getLast? hm, by rw [hmark]; rfl, rfl⟩
  cases hnodes : nodes behind with
  | nil =>
    rw [hnodes] at hmem
    exact absurd hmem List.not_mem_nil
  | cons q qs => exact ⟨q, qs, rfl⟩

/-- The search of `prvInsertBlockIntoFreeList` comes to the node before the area. -/
theorem Represents.seek_free (hrep : Represents regions h (before ++ a :: behind))
    (hregions : UsableRegions h.xStart regions) (ha : a.kind = .used)
    (haround : Around h before a behind init p) {mem : Memory} (hmem : mem.next = h.mem.next) :
    ∃ q, seek mem.next (fun x => !(x < a.start)) heapTurns h.xStart (mem.next h.xStart) = some (p, q) := by
  obtain ⟨q, qs, hnodes⟩ := hrep.nodes_behind ha
  have hlinked := hrep.linked_around ha haround
  rw [hnodes] at hlinked
  have hback := haround.back q (by rw [hnodes]; exact List.mem_cons_self)
  have hpos := hrep.size_pos a (by simp)
  refine ⟨q, ?_⟩
  rw [hmem, haround.last]
  have hlist : Linked h.mem.next (h.xStart :: nodes before ++ q :: (qs ++ [0])) := by
    rw [haround.cut]
    simpa using hlinked
  refine seek_linked hlist ?_ ?_ ?_
  · intro y hy
    obtain ⟨b, hb, -, rfl⟩ := mem_nodes.mp hy
    have hbefore := (hrep.ordered hregions).around.1 b hb
    have hbpos := hrep.size_pos b (List.mem_append_left _ hb)
    simp only [Bool.not_eq_false', decide_eq_true_eq]
    omega
  · simp only [Bool.not_eq_true', decide_eq_false_iff_not]
    omega
  · have hlength := hrep.length_nodes hregions
    rw [nodes_append, List.length_append] at hlength
    omega

/-! ## Joining -/

/-- The node before an area ends where the area begins only if it is the free area in front of it. -/
theorem Represents.node_end_ne (hrep : Represents regions h (before ++ a :: behind))
    (hregions : UsableRegions h.xStart regions) (haround : Around h before a behind init p)
    (hfront : ∀ x ∈ before.getLast?, x.kind ≠ .free) : wordAdd p (h.mem.size p) ≠ a.start := by
  have hplaced := hrep.placed a (by simp)
  have hmem : p ∈ h.xStart :: nodes before := by
    rw [haround.cut]
    simp
  obtain hp | hp := List.mem_cons.mp hmem
  · have hout := hrep.start_ne_xStart (a := a) (by simp)
    rw [hp, hrep.start_size, wordAdd_of_lt (by simpa using hregions.xStart_lt)]
    omega
  · obtain ⟨b, hb, hlinked, rfl⟩ := mem_nodes.mp hp
    have hin : b ∈ before ++ a :: behind := List.mem_append_left _ hb
    have hbefore := (hrep.ordered hregions).around.1 b hb
    have hbplaced := hrep.placed b hin
    have hbpos := hbplaced.size_pos
    have hend := hbplaced.end_lt
    rw [(hrep.headed b hin).1]
    unfold header
    split
    · next hfree =>
      rw [wordAdd_of_lt hend]
      -- a free area that ends there would be the last one in front
      intro heq
      obtain ⟨b1, b2, rfl⟩ := List.append_of_mem hb
      cases b2 with
      | nil => exact hfront b (by simp) hfree
      | cons c b2 =>
        have hord := hrep.ordered hregions
        have hc := hord.around.1 c (by simp)
        have hcpos := hrep.size_pos c (by simp)
        rw [List.append_assoc] at hord
        have hbc := hord.around.2 c (by simp)
        omega
    · next hused =>
      rw [hused] at hlinked
      exact absurd hlinked (by decide)
    · rw [wordAdd_of_lt (by omega)]
      omega
    · rw [wordAdd_of_lt (by omega)]
      omega

theorem Represents.joinPrevious_eq (hrep : Represents regions h (before ++ a :: behind))
    (hregions : UsableRegions h.xStart regions) (haround : Around h before a behind init p)
    (hjoin : JoinsFront before a rest start size) {mem : Memory} (hnext : mem.next = h.mem.next)
    (hsize : ∀ x, mem.size x = if x = a.start then a.size else h.mem.size x) :
    ∃ mem', joinPrevious mem p a.start = (mem', start) ∧ mem'.next = h.mem.next ∧
      (∀ x, mem'.size x = if x = start then size else if x = a.start then a.size else h.mem.size x) ∧
      start + size = a.start + a.size := by
  have hplaced := hrep.placed a (by simp)
  have hapos := hplaced.size_pos
  have hend := hplaced.end_lt
  have hpa : p ≠ a.start := by
    have := haround.node_out
    omega
  have hpsize : mem.size p = h.mem.size p := by rw [hsize, if_neg hpa]
  -- The area in front is free and ends where this one begins, or it is left apart.
  cases hjoin with
  | apart hfront =>
    refine ⟨mem, ?_, hnext, ?_, rfl⟩
    · unfold joinPrevious
      rw [hpsize, if_neg (hrep.node_end_ne hregions haround hfront)]
    · intro x
      rw [hsize]
      by_cases hx : x = a.start
      · rw [if_pos hx, if_pos hx]
      · rw [if_neg hx, if_neg hx]
  | @joined rest f hbefore hf =>
    subst hbefore
    have hflink : f.kind.linked = true := by rw [hf]; rfl
    have hp : p = f.start := by
      rw [haround.last]
      simp [nodes_append, nodes_cons_linked hflink]
    have hfsize : h.mem.size f.start = f.size := by
      rw [(hrep.headed f (by simp)).1, header, hf]
    have hstart : a.start = f.start + f.size := by
      have htiled := hrep.tiled
      rw [List.append_assoc] at htiled
      have hfa := (List.isChain_append_cons_cons.mp htiled).2.1.1
      rwa [hf] at hfa
    refine ⟨mem.setSize f.start (wordAdd f.size (mem.size a.start)), ?_, ?_, ?_, by omega⟩
    · unfold joinPrevious
      rw [hpsize, hp, hfsize, if_pos (by rw [wordAdd_of_lt (by omega)]; exact hstart.symm)]
    · funext x
      rw [Memory.next_setSize, hnext]
    · intro x
      rw [Memory.size_setSize, hsize a.start, if_pos rfl, wordAdd_of_lt (by omega), hsize x]

/-- Where the node before an area in use leads. -/
theorem Represents.next_node (hrep : Represents regions h (before ++ a :: behind)) (ha : a.kind = .used)
    (haround : Around h before a behind init p) {q : Nat} {qs : List Nat} (hnodes : nodes behind = q :: qs) :
    h.mem.next p = q := by
  have hlinked := hrep.linked_around ha haround
  rw [hnodes] at hlinked
  exact (linked_append_cons_cons.mp hlinked).2.1

/-- An area behind which another one lies does not begin at `pxEnd`. -/
theorem Represents.start_ne_pxEnd (hrep : Represents regions h (before ++ a :: behind))
    (hregions : UsableRegions h.xStart regions) (hbehind : behind ≠ []) : a.start ≠ h.pxEnd := by
  obtain ⟨m, hm, -, hend⟩ := hrep.last
  rw [List.getLast?_append_of_ne_nil _ (List.cons_ne_nil _ _), ← List.singleton_append,
    List.getLast?_append_of_ne_nil _ hbehind] at hm
  have hlt := (hrep.ordered hregions).around.2 m (List.mem_of_mem_getLast? hm)
  have hpos := hrep.size_pos a (by simp)
  omega

theorem Represents.joinNext_eq (hrep : Represents regions h (before ++ a :: behind))
    (hregions : UsableRegions h.xStart regions) (ha : a.kind = .used)
    (haround : Around h before a behind init p) (hjoin : JoinsBack behind rest' extra) {mem : Memory}
    (hnext : mem.next = h.mem.next) (hfin : start + size = a.start + a.size) (hsize : mem.size start = size)
    (hother : ∀ x, a.start + a.size ≤ x → mem.size x = h.mem.size x) :
    ∃ q, (∀ x, (joinNext mem h.pxEnd p start).next x = if x = start then q else h.mem.next x) ∧
      (∀ x, (joinNext mem h.pxEnd p start).size x = if x = start then size + extra else mem.size x) ∧
      (nodes behind = nodes rest' ∧ q = h.mem.next p ∨
        ∃ c, nodes behind = c :: nodes rest' ∧ q = h.mem.next c) := by
  have hplaced := hrep.placed a (by simp)
  have hapos := hplaced.size_pos
  have hend := hplaced.end_lt
  have hmark : a.kind.isMark = false := by rw [ha]; rfl
  have hpstart : wordAdd start (mem.size start) = a.start + a.size := by
    rw [hsize, wordAdd_of_lt (by omega), hfin]
  have hnextp : mem.next p = h.mem.next p := by rw [hnext]
  obtain ⟨c, back, rfl⟩ := List.exists_cons_of_ne_nil (hrep.behind_ne_nil (by rw [ha]; decide))
  have hc : c.start = a.start + a.size := by
    have hac := (List.isChain_append_cons_cons.mp hrep.tiled).2.1.1
    rwa [hmark] at hac
  have hcin : c ∈ before ++ a :: c :: back := by simp
  have hrepc : Represents regions h ((before ++ [a]) ++ c :: back) := by simpa using hrep
  have hcend := (hrep.placed c hcin).end_lt
  have hcpos := hrep.size_pos c hcin
  unfold joinNext
  simp only [hpstart, hnextp]
  -- The second comparison of `prvInsertBlockIntoFreeList`: the end of the block against the next node.
  cases hjoin with
  | apart hback =>
    -- Only `pxEnd` can begin there without being joined, and then the link is to `pxEnd` either
    -- way.
    have hq : ∃ q, h.mem.next p = q ∧ (q = a.start + a.size → q = h.pxEnd) := by
      by_cases hlinked : c.kind.linked = true
      · refine ⟨c.start, hrep.next_node ha haround (nodes_cons_linked hlinked), fun _ => ?_⟩
        obtain ⟨honly, hkind⟩ := hback c (by simp) hlinked
        obtain ⟨m, hm, -, hmend⟩ := hrep.last
        obtain rfl : back = [] := (List.cons_eq_cons.mp honly).2
        obtain rfl : c = m := by simpa using hm
        exact hmend
      · obtain ⟨q, qs, hnodes⟩ := hrep.nodes_behind ha
        refine ⟨q, hrep.next_node ha haround hnodes, fun hqa => ?_⟩
        rw [nodes_cons_unlinked (Bool.eq_false_iff.mpr hlinked)] at hnodes
        obtain ⟨b, hb, -, hbq⟩ := mem_nodes.mp (hnodes ▸ List.mem_cons_self : q ∈ nodes back)
        have hcb := (hrepc.ordered hregions).around.2 b hb
        omega
    obtain ⟨q, hq, hqend⟩ := hq
    rw [hq]
    refine ⟨q, ?_, ?_, Or.inl ⟨rfl, rfl⟩⟩
    · intro x
      by_cases hqa : a.start + a.size = q
      · rw [if_pos hqa, if_neg (not_not.mpr (hqend hqa.symm)), Memory.next_setNext, hnext, ← hqend hqa.symm]
      · rw [if_neg hqa, Memory.next_setNext, hnext]
    · intro x
      have hsame : (if a.start + a.size = q then
          if q ≠ h.pxEnd then
            ((mem.setSize start (wordAdd (mem.size start) (mem.size q))).setNext start
              ((mem.setSize start (wordAdd (mem.size start) (mem.size q))).next q))
          else mem.setNext start h.pxEnd else mem.setNext start q).size x = mem.size x := by
        by_cases hqa : a.start + a.size = q
        · rw [if_pos hqa, if_neg (not_not.mpr (hqend hqa.symm)), Memory.size_setNext]
        · rw [if_neg hqa, Memory.size_setNext]
      rw [hsame]
      split
      · next hx => rw [hx, hsize, Nat.add_zero]
      · rfl
  | @joined back' c' hbehind hfree =>
    obtain ⟨rfl, rfl⟩ := List.cons_eq_cons.mp hbehind
    have hlinked : c.kind.linked = true := by rw [hfree]; rfl
    have hq := hrep.next_node ha haround (nodes_cons_linked hlinked)
    have hne : c.start ≠ h.pxEnd :=
      hrepc.start_ne_pxEnd hregions (hrepc.behind_ne_nil (by rw [hfree]; decide))
    have hcsize : mem.size c.start = c.size := by
      rw [hother c.start (by omega), (hrep.headed c hcin).1, header, hfree]
    rw [hq, if_pos hc.symm, if_pos hne]
    refine ⟨h.mem.next c.start, ?_, ?_, Or.inr ⟨c.start, nodes_cons_linked hlinked, rfl⟩⟩
    · intro x
      rw [Memory.next_setNext, Memory.next_setSize, Memory.next_setSize, hnext]
    · intro x
      rw [Memory.size_setNext, Memory.size_setSize, hsize, hcsize, wordAdd_of_lt (by omega)]
  | @lost back' c' hbehind hkind hback =>
    obtain ⟨rfl, rfl⟩ := List.cons_eq_cons.mp hbehind
    -- The end marker of an earlier region is joined like a block, of size nought, and is lost.
    have hlinked : c.kind.linked = true := by rw [hkind]; rfl
    have hq := hrep.next_node ha haround (nodes_cons_linked hlinked)
    have hne : c.start ≠ h.pxEnd := hrepc.start_ne_pxEnd hregions hback
    have hcsize : mem.size c.start = 0 := by
      rw [hother c.start (by omega), (hrep.headed c hcin).1, header, hkind]
    have hnodes : nodes (c :: back) = c.start :: nodes ({ c with kind := .lost } :: back) := by
      rw [nodes_cons_linked hlinked, nodes_cons_unlinked rfl]
    rw [hq, if_pos hc.symm, if_pos hne]
    refine ⟨h.mem.next c.start, ?_, ?_, Or.inr ⟨c.start, hnodes, rfl⟩⟩
    · intro x
      rw [Memory.next_setNext, Memory.next_setSize, Memory.next_setSize, hnext]
    · intro x
      rw [Memory.size_setNext, Memory.size_setSize, hsize, hcsize, wordAdd_of_lt (by omega)]

/-! ## The heap after a block is freed -/

/-- The heap after the area `a` has been freed: a free block of `size` bytes begins at `start`, which the
node `p` leads to unless it is that node, and which leads to `q`. -/
structure Released (h : Heap5) (p start size q : Nat) (a : Area) (h' : Heap5) : Prop where
  xStart : h'.xStart = h.xStart
  pxEnd : h'.pxEnd = h.pxEnd
  free : h'.xFreeBytesRemaining = wordAdd h.xFreeBytesRemaining a.size
  allocations : h'.xNumberOfSuccessfulAllocations = h.xNumberOfSuccessfulAllocations
  frees : h'.xNumberOfSuccessfulFrees = wordAdd h.xNumberOfSuccessfulFrees 1
  next : ∀ x, h'.mem.next x = if x = start then q else if x = p then start else h.mem.next x
  size : ∀ x, h'.mem.size x =
    if x = start then size else if x = a.start then a.size else h.mem.size x

theorem Represents.free_eq (hrep : Represents regions h (before ++ a :: behind))
    (hregions : UsableRegions h.xStart regions) (ha : a.kind = .used)
    (haround : Around h before a behind init p) (hfront : JoinsFront before a rest start size)
    (hback : JoinsBack behind rest' extra) :
    ∃ h' q, vPortFree h (a.start + 8) = some h' ∧ Released h p start (size + extra) q a h' ∧
      start + size = a.start + a.size ∧
      (nodes behind = nodes rest' ∧ q = h.mem.next p ∨
        ∃ c, nodes behind = c :: nodes rest' ∧ q = h.mem.next c) := by
  have hplaced := hrep.placed a (by simp)
  have hapos := hplaced.size_pos
  have hend := hplaced.end_lt
  have hdvd := hplaced.size_dvd
  -- The checks of `vPortFree` pass: the block is allocated and its link is null.
  have hlink : wordSub (a.start + 8) xHeapStructSize = a.start := by
    have hle : xHeapStructSize ≤ a.start + 8 := by
      unfold xHeapStructSize
      omega
    rw [wordSub_of_le hle (by omega)]
    exact Nat.add_sub_cancel a.start 8
  obtain ⟨hheader, hnull⟩ := hrep.headed a (by simp)
  have hheader : h.mem.size a.start = a.size + heapBlockAllocatedBitmask := by
    rw [hheader, header, ha]
  have hreleased : ∀ x, (h.mem.release a.start).size x =
      if x = a.start then a.size else h.mem.size x := by
    intro x
    rw [Memory.release, Memory.size_setSize, hheader, Nat.add_mod_right,
      Nat.mod_eq_of_lt hplaced.size_lt]
  have hnext : (h.mem.release a.start).next = h.mem.next := by
    funext x
    rw [Memory.next_release]
  obtain ⟨q', hseek⟩ := hrep.seek_free hregions ha haround hnext
  obtain ⟨mem1, hjoin, hnext1, hsize1, hfin⟩ :=
    hrep.joinPrevious_eq hregions haround hfront hnext hreleased
  obtain ⟨q, hnext2, hsize2, hnodes⟩ := hrep.joinNext_eq hregions ha haround hback hnext1 hfin
    (by rw [hsize1, if_pos rfl]) (by
      intro x hx
      have hstart : start ≤ a.start := by
        cases hfront with
        | apart => exact le_rfl
        | joined => omega
      rw [hsize1, if_neg (by omega), if_neg (by omega)])
  have hgate : ¬(!heapBlockIsAllocated (h.mem a.start) ∨ h.mem.next a.start ≠ 0) := by
    rw [hnull ha]
    have hallocated : heapBlockIsAllocated (h.mem a.start) = true := by
      show decide (heapBlockAllocatedBitmask ≤ h.mem.size a.start) = true
      rw [hheader]
      exact decide_eq_true (Nat.le_add_left _ _)
    simp [hallocated]
  unfold vPortFree
  rw [if_neg (by omega), hlink]
  dsimp only
  rw [if_neg hgate]
  unfold prvInsertBlockIntoFreeList
  simp only [hseek, hjoin]
  refine ⟨_, q, rfl, ⟨rfl, rfl, ?_, rfl, rfl, ?_, ?_⟩, hfin, hnodes⟩
  · show wordAdd h.xFreeBytesRemaining ((h.mem.release a.start).size a.start) = _
    rw [hreleased, if_pos rfl]
  · intro x
    dsimp only
    -- `p` is the block itself where it was joined to the one in front of it.
    by_cases hp : p = start
    · subst hp
      rw [if_neg (not_not.mpr rfl), hnext2]
      by_cases hx : x = p
      · rw [if_pos hx, if_pos hx]
      · rw [if_neg hx, if_neg hx, if_neg hx]
    · rw [if_pos hp, Memory.next_setNext, hnext2]
      by_cases hx : x = start
      · have hxp : x ≠ p := fun heq => hp (heq ▸ hx)
        rw [if_pos hx, if_neg hxp, if_pos hx]
      · rw [if_neg hx]
        rw [if_neg hx]
  · intro x
    have hsame : (if p ≠ start then (joinNext mem1 h.pxEnd p start).setNext p start
        else joinNext mem1 h.pxEnd p start).size x = (joinNext mem1 h.pxEnd p start).size x := by
      by_cases hp : p = start
      · rw [if_neg (not_not.mpr hp)]
      · rw [if_pos hp, Memory.size_setNext]
    refine hsame.trans ?_
    rw [hsize2, hsize1]
    by_cases hx : x = start
    · rw [if_pos hx, if_pos hx]
    · rw [if_neg hx, if_neg hx, if_neg hx]

/-- A block of a tiling is where a block may be. -/
theorem placed_of_tiled {xStart : Nat} (hregions : UsableRegions xStart regions)
    (htiled : Tiled (regionSeams regions) areas) (hmarks : marks areas = regions.map HeapRegion.marker)
    (hfirst : areas.head?.map (·.start) = regions.head?.map HeapRegion.first) {b : Area} (hb : b ∈ areas)
    (hmark : b.kind.isMark = false) (hstart : 8 ∣ b.start) (hsize : 8 ∣ b.size) (hpos : 0 < b.size) :
    Placed xStart b := by
  obtain ⟨s, hs, hle, hin⟩ := (covers_regions hregions htiled hmarks hfirst).in_span b hb
  obtain ⟨r, hr, rfl⟩ := List.mem_map.mp hs
  have husable := hregions.usable r hr
  have hin : b.start + b.size ≤ r.marker := by
    obtain hin | ⟨hbmark, -⟩ := hin
    · exact hin
    · rw [hmark] at hbmark
      exact absurd hbmark (by decide)
  have hle : r.first ≤ b.start := hle
  have hroom := husable.valid
  have hstartpos := husable.start_pos
  have hfirstle := husable.first_le
  have hmarker := husable.marker_lt
  have hout := hregions.apart hr
  unfold HeapRegion.room at hroom
  have hno : b.kind.isMark = true → b.size = 8 :=
    fun hbmark => absurd (hmark.symm.trans hbmark) Bool.false_ne_true
  exact ⟨by omega, hstart, hsize, hpos, by omega, by omega, hno, by omega⟩

theorem joinsFront_aligned {xStart : Nat} (hjoin : JoinsFront before a rest start size)
    (ha : Placed xStart a) (hbefore : ∀ x ∈ before, Placed xStart x) : 8 ∣ start ∧ 8 ∣ size ∧ 0 < size := by
  cases hjoin with
  | apart => exact ⟨ha.start_dvd, ha.size_dvd, ha.size_pos⟩
  | @joined rest f hf =>
    have hfplaced := hbefore f (by simp [hf])
    exact ⟨hfplaced.start_dvd, Nat.dvd_add hfplaced.size_dvd ha.size_dvd, Nat.add_pos_left hfplaced.size_pos _⟩

theorem joinsBack_aligned {xStart : Nat} (hjoin : JoinsBack behind rest' extra)
    (hbehind : ∀ x ∈ behind, Placed xStart x) : 8 ∣ extra := by
  cases hjoin with
  | apart => exact dvd_zero 8
  | joined hc => exact (hbehind _ (by simp [hc])).size_dvd
  | lost => exact dvd_zero 8

namespace Released

variable {q : Nat}

/-- Where the block begins is the area's own start, or that of the node before it. -/
theorem start_cases (haround : Around h before a behind init p)
    (hfront : JoinsFront before a rest start size) :
    start = a.start ∧ h.xStart :: nodes rest = init ++ [p] ∨ start = p ∧ h.xStart :: nodes rest = init := by
  cases hfront with
  | apart => exact Or.inl ⟨rfl, haround.cut⟩
  | @joined rest f hbefore hf =>
    subst hbefore
    have hflink : f.kind.linked = true := by rw [hf]; rfl
    have hcut := haround.cut
    rw [nodes_append, nodes_cons_linked hflink, nodes_nil, ← List.cons_append] at hcut
    obtain ⟨hinit, hp⟩ := List.append_inj' hcut rfl
    exact Or.inr ⟨(List.cons_eq_cons.mp hp).1, hinit⟩

theorem kept (hreleased : Released h p start size q a h') (hpos : 0 < a.size)
    (haround : Around h before a behind init p) (hstart : start = a.start ∨ start = p) :
    Kept h h' (before ++ behind) := by
  intro b hb hused x hx hxb
  have hout := haround.other b hb
  have hxp := haround.used b hb hused x hx hxb
  have hxs : x ≠ start := by
    obtain rfl | rfl := hstart
    · omega
    · exact hxp
  refine Memory.ext_at ?_ ?_
  · rw [hreleased.next, if_neg hxs, if_neg hxp]
  · rw [hreleased.size, if_neg hxs, if_neg (by omega)]

theorem linked (hreleased : Released h p start (size + extra) q a h')
    (hrep : Represents regions h (before ++ a :: behind)) (hregions : UsableRegions h.xStart regions)
    (ha : a.kind = .used) (haround : Around h before a behind init p)
    (hfront : JoinsFront before a rest start size)
    (hnodes : nodes behind = nodes rest' ∧ q = h.mem.next p ∨
      ∃ c, nodes behind = c :: nodes rest' ∧ q = h.mem.next c) :
    Linked h'.mem.next (h.xStart :: nodes rest ++ start :: (nodes rest' ++ [0])) := by
  have hpos := hrep.size_pos a (by simp)
  have hlist := hrep.linked_around ha haround
  have hcases := start_cases haround hfront
  have hstart := hfront.start_le (hrep.ordered hregions)
  have hsub : ∀ y ∈ nodes rest', y ∈ nodes behind := by
    intro y hy
    obtain ⟨heq, -⟩ | ⟨c, heq, -⟩ := hnodes
    · rwa [heq]
    · rw [heq]
      exact List.mem_cons_of_mem _ hy
  have hinit : ∀ y ∈ init, h'.mem.next y = h.mem.next y := by
    intro y hy
    obtain ⟨hyp, hout⟩ := haround.front y hy
    have hys : y ≠ start := by
      obtain ⟨rfl, -⟩ | ⟨rfl, -⟩ := hcases
      · omega
      · exact hyp
    rw [hreleased.next, if_neg hys, if_neg hyp]
  have hback : ∀ y ∈ nodes rest', h'.mem.next y = h.mem.next y := by
    intro y hy
    obtain ⟨hyp, hout⟩ := haround.back y (hsub y hy)
    rw [hreleased.next, if_neg (by omega), if_neg hyp]
  have hq : h'.mem.next start = q := by rw [hreleased.next, if_pos rfl]
  -- Joined in front or not, joined behind or not: the list gains a node, swaps one, keeps its
  -- nodes, or loses one.
  obtain ⟨rfl, hcut⟩ | ⟨rfl, hcut⟩ := hcases
  · have hps : h'.mem.next p = a.start := by
      have := haround.node_out
      rw [hreleased.next, if_neg (by omega), if_pos rfl]
    rw [hcut, List.append_assoc, List.singleton_append]
    obtain ⟨heq, hqp⟩ | ⟨c, heq, hqc⟩ := hnodes
    · rw [heq] at hlist
      exact hlist.insert hinit hback hps (hq.trans hqp)
    · rw [heq] at hlist
      exact hlist.replace hinit hback hps (hq.trans hqc)
  · rw [hcut]
    obtain ⟨heq, hqp⟩ | ⟨c, heq, hqc⟩ := hnodes
    · rw [heq] at hlist
      exact hlist.same hinit hback (hq.trans hqp)
    · rw [heq] at hlist
      exact hlist.unlink hinit hback (hq.trans hqc)

theorem represents (hreleased : Released h p start (size + extra) q a h')
    (hrep : Represents regions h (before ++ a :: behind)) (hregions : UsableRegions h.xStart regions)
    (ha : a.kind = .used) (haround : Around h before a behind init p)
    (hfront : JoinsFront before a rest start size) (hback : JoinsBack behind rest' extra)
    (hnodes : nodes behind = nodes rest' ∧ q = h.mem.next p ∨
      ∃ c, nodes behind = c :: nodes rest' ∧ q = h.mem.next c) :
    Represents regions h' (rest ++ ⟨start, size + extra, .free⟩ :: rest') := by
  have htiled := tiled_released hfront hback hrep.tiled ha
  have hmarks : marks (rest ++ ⟨start, size + extra, .free⟩ :: rest') =
      regions.map HeapRegion.marker := by
    rw [← hrep.marks, marks_append, marks_append, hfront.marks, marks_cons_block rfl, hback.marks,
      marks_cons_block (by rw [ha]; rfl)]
  have hfirst : (rest ++ ⟨start, size + extra, .free⟩ :: rest').head?.map (·.start) =
      regions.head?.map HeapRegion.first :=
    (hfront.head _ rfl rest').trans hrep.first
  have hxcases := start_cases haround hfront
  have hfree := hfront.bytes_free
  have hfree' := hback.bytes_free
  have hfilter := filter_used_released hfront hback
  have holdfree := hrep.free
  have holdtotal := hrep.total
  have hlt := hregions.room_sum_lt
  have hused : bytes .used (rest ++ ⟨start, size + extra, .free⟩ :: rest') =
      bytes .used before + bytes .used behind := by
    unfold bytes
    rw [hfilter, List.filter_append, List.map_append, List.sum_append]
  have hcount : count .used (rest ++ ⟨start, size + extra, .free⟩ :: rest') =
      count .used before + count .used behind := by
    unfold count
    rw [hfilter, List.filter_append, List.length_append]
  simp only [bytes_append, bytes_cons, ha, if_true, reduceCtorEq, if_false] at holdfree holdtotal
  -- The new block is placed by the tiling, and a lost marker where the marker was.
  have hplaced : ∀ b ∈ rest ++ ⟨start, size + extra, .free⟩ :: rest', Placed h.xStart b := by
    intro b hb
    obtain hb | hb := List.mem_append.mp hb
    · exact hrep.placed b (List.mem_append_left _ (hfront.subset b hb))
    · obtain rfl | hb := List.mem_cons.mp hb
      · obtain ⟨hstart, hsize, hpos⟩ := joinsFront_aligned hfront (hrep.placed a (by simp)) fun x hx =>
          hrep.placed x (List.mem_append_left _ hx)
        have hextra := joinsBack_aligned hback fun x hx => hrep.placed x (by simp [hx])
        exact placed_of_tiled hregions htiled hmarks hfirst (by simp) rfl hstart
          (Nat.dvd_add hsize hextra) (by simp only; omega)
      · obtain ⟨c, hc, hstart, hsize, hkind⟩ := hback.mem b hb
        have hcplaced := hrep.placed c (by simp [hc])
        obtain rfl | ⟨hcmark, -⟩ := hkind
        · exact hcplaced
        · refine ⟨?_, ?_, ?_, ?_, ?_, ?_, fun _ => ?_, ?_⟩
          · exact hstart ▸ hcplaced.start_pos
          · exact hstart ▸ hcplaced.start_dvd
          · exact hsize ▸ hcplaced.size_dvd
          · exact hsize ▸ hcplaced.size_pos
          · exact hsize ▸ hcplaced.size_lt
          · rw [hstart, hsize]
            exact hcplaced.end_lt
          · rw [hsize]
            exact hcplaced.mark (by rw [hcmark]; rfl)
          · rw [hstart, hsize]
            exact hcplaced.outside
  have hord := tiled_ordered hregions htiled hplaced
  have hstartin := hplaced ⟨start, size + extra, .free⟩ (by simp)
  have hother : ∀ b ∈ rest ++ rest', b.start ≠ start := fun b hb =>
    hord.start_ne hstartin.size_pos (fun x hx => (hplaced x (List.mem_append_left _ hx)).size_pos) hb
  constructor
  case tiled => exact htiled
  case placed =>
    rw [hreleased.xStart]
    exact hplaced
  case first => exact hfirst
  case marks => exact hmarks
  case last =>
    obtain ⟨m, hm, hmark, hmend⟩ := hrep.last
    have hbehind := hrep.behind_ne_nil (by rw [ha]; decide)
    rw [List.getLast?_append_of_ne_nil _ (List.cons_ne_nil _ _), ← List.singleton_append,
      List.getLast?_append_of_ne_nil _ hbehind] at hm
    have hmrest := hback.last hm hmark
    have hrest : rest' ≠ [] := by
      rintro rfl
      exact absurd hmrest (by simp)
    refine ⟨m, ?_, hmark, hmend.trans hreleased.pxEnd.symm⟩
    rwa [List.getLast?_append_of_ne_nil _ (List.cons_ne_nil _ _), ← List.singleton_append,
      List.getLast?_append_of_ne_nil _ hrest]
  case headed =>
    -- the links of the other areas are those they had
    have hlinks : ∀ b ∈ before ++ behind, b.start ≠ start →
        h'.mem.size b.start = header b ∧ (b.kind = .used → h'.mem.next b.start = 0) := by
      intro b hb hne
      have hmem : b ∈ before ++ a :: behind := by
        simp only [List.mem_append, List.mem_cons] at hb ⊢
        tauto
      have hbpos := hrep.size_pos b hmem
      have hapos := hrep.size_pos a (by simp)
      have hba := haround.other b hb
      obtain ⟨hsize, hnext⟩ := hrep.headed b hmem
      refine ⟨?_, fun hbused => ?_⟩
      · rw [hreleased.size, if_neg hne, if_neg (by omega), hsize]
      · rw [hreleased.next, if_neg hne, if_neg (haround.used b hb hbused _ le_rfl (by omega)),
          hnext hbused]
    intro b hb
    obtain hb | hb := List.mem_append.mp hb
    · exact hlinks b (List.mem_append_left _ (hfront.subset b hb)) (hother b (List.mem_append_left _ hb))
    · obtain rfl | hb := List.mem_cons.mp hb
      · refine ⟨?_, fun hk => absurd hk (by simp)⟩
        rw [hreleased.size, if_pos rfl]
        rfl
      · have hne := hother b (List.mem_append_right _ hb)
        obtain ⟨c, hc, hstart, -, hkind⟩ := hback.mem b hb
        obtain rfl | ⟨hcmark, hblost⟩ := hkind
        · exact hlinks b (List.mem_append_right _ hc) hne
        · refine ⟨?_, fun hk => absurd (hblost.symm.trans hk) (by decide)⟩
          have hsize := (hlinks c (List.mem_append_right _ hc) (hstart ▸ hne)).1
          rw [hstart, hsize, header, header, hcmark, hblost]
  case linked =>
    rw [hreleased.xStart, nodes_append, nodes_cons_linked rfl]
    have hlinked := hreleased.linked hrep hregions ha haround hfront hnodes
    simpa using hlinked
  case start_size =>
    have hout := hstartin.outside
    have hpos := hstartin.size_pos
    have hane := hrep.start_ne_xStart (a := a) (by simp)
    rw [hreleased.xStart, hreleased.size, if_neg (by simp only at hout hpos; omega), if_neg (Ne.symm hane)]
    exact hrep.start_size
  case free =>
    rw [hreleased.free, hrep.free]
    simp only [bytes_append, bytes_cons, ha, reduceCtorEq, if_false, if_true]
    rw [wordAdd_of_lt (by omega)]
    omega
  case total =>
    rw [hused]
    simp only [bytes_append, bytes_cons, if_true]
    omega
  case allocations =>
    rw [hreleased.allocations, hreleased.frees, hrep.allocations, hcount]
    simp only [count_append, count_cons, ha, if_true]
    unfold wordAdd
    rw [Nat.mod_add_mod]
    congr 1
    omega

end Released

/-- Freeing a block in use: the areas in use are the others, and what they hold stays. -/
theorem Represents.free_some (hrep : Represents regions h (before ++ a :: behind))
    (hregions : UsableRegions h.xStart regions) (ha : a.kind = .used) :
    ∃ h' areas', vPortFree h (a.start + 8) = some h' ∧ Represents regions h' areas' ∧
      areas'.filter (·.kind = .used) = (before ++ behind).filter (·.kind = .used) ∧
      h'.xStart = h.xStart ∧ Kept h h' (before ++ behind) := by
  obtain ⟨init, p, haround⟩ := hrep.exists_around hregions
  obtain ⟨rest, start, size, hfront⟩ := exists_joinsFront before a
  obtain ⟨rest', extra, hback⟩ := exists_joinsBack behind
  obtain ⟨h', q, hfree, hreleased, -, hnodes⟩ := hrep.free_eq hregions ha haround hfront hback
  refine ⟨h', _, hfree, hreleased.represents hrep hregions ha haround hfront hback hnodes,
    filter_used_released hfront hback, hreleased.xStart, ?_⟩
  refine hreleased.kept (hrep.size_pos a (by simp)) haround ?_
  obtain ⟨hstart, -⟩ | ⟨hstart, -⟩ := Released.start_cases haround hfront
  · exact Or.inl hstart
  · exact Or.inr hstart

end CarveraFirmware.Heap
