import Mathlib
import CarveraFirmware.Heap.Layout

/-!
# Allocating

`pvPortMalloc` gives the first free area that is large enough, or the front of it, and there is no other
way in which it comes to nothing than that no free area is.
-/

namespace CarveraFirmware.Heap

open Links Areas

variable {regions : List HeapRegion} {h : Heap5} {areas before behind : List Area} {a : Area}
  {wanted : Nat}

theorem alignedWantedSize_dvd (wanted : Nat) : 8 ∣ alignedWantedSize wanted := by
  unfold alignedWantedSize
  by_cases hpos : 0 < wanted
  · rw [if_pos hpos]
    by_cases hover : wanted > heapSizeMax - xHeapStructSize
    · rw [if_pos hover]
      exact dvd_zero 8
    · rw [if_neg hover]
      by_cases halign : (wanted + xHeapStructSize) % portByteAlignment ≠ 0
      · simp only [if_pos halign]
        unfold portByteAlignment at *
        split
        · exact dvd_zero 8
        · omega
      · simp only [if_neg halign]
        unfold portByteAlignment at *
        omega
  · rw [if_neg hpos]
    exact dvd_zero 8

/-- The list up to a node, and from there on. -/
theorem Represents.linked_at (hrep : Represents regions h (before ++ a :: behind))
    (ha : a.kind.linked = true) :
    Linked h.mem.next (h.xStart :: nodes before ++ a.start :: (nodes behind ++ [0])) := by
  have hlinked := hrep.linked
  rw [nodes_append, nodes_cons_linked ha] at hlinked
  simpa using hlinked

/-- Every node before another one on the list leads to a node. -/
theorem Represents.next_pos (hrep : Represents regions h (before ++ a :: behind))
    (ha : a.kind.linked = true) : ∀ x ∈ nodes before, 0 < h.mem.next x := by
  intro x hx
  have hlinked := (linked_split.mp (hrep.linked_at ha)).1
  have hmem := hlinked.next_mem x (List.mem_cons_of_mem _ hx)
  have hpos := hrep.nodes_pos (h.mem.next x)
  rw [nodes_append, nodes_cons_linked ha] at hpos
  refine hpos ?_
  obtain hmem | hmem := List.mem_append.mp hmem
  · exact List.mem_append_left _ hmem
  · rw [List.mem_singleton.mp hmem]
    exact List.mem_append_right _ List.mem_cons_self

/-- The search of `pvPortMalloc` comes to the first node that it stops at. -/
theorem Represents.seek_malloc (hrep : Represents regions h (before ++ a :: behind))
    (hregions : UsableRegions h.xStart regions) (ha : a.kind.linked = true)
    (hsmall : ∀ b ∈ before, b.kind = .free → b.size < wanted) (hwanted : 0 < wanted)
    (hstop : mallocStops h.mem wanted a.start = true) :
    seek h.mem.next (mallocStops h.mem wanted) heapTurns h.xStart (h.mem.next h.xStart) =
      some ((h.xStart :: nodes before).getLast (List.cons_ne_nil _ _), a.start) := by
  refine seek_linked (hrep.linked_at ha) ?_ hstop ?_
  · intro x hx
    have hnext := hrep.next_pos ha x hx
    obtain ⟨b, hb, hlinked, rfl⟩ := mem_nodes.mp hx
    have hheader := (hrep.headed b (List.mem_append_left _ hb)).1
    have hlt : h.mem.size b.start < wanted := by
      rw [hheader]
      unfold header
      split
      · next hfree => exact hsmall b hb hfree
      · next hused => rw [hused] at hlinked; exact absurd hlinked (by decide)
      · exact hwanted
      · exact hwanted
    simp [mallocStops, hlt, Nat.pos_iff_ne_zero.mp hnext]
  · have hlength := hrep.length_nodes hregions
    rw [nodes_append, List.length_append] at hlength
    omega

/-- Where no free area is large enough, nothing is given. -/
theorem Represents.malloc_none (hrep : Represents regions h areas)
    (hregions : UsableRegions h.xStart regions)
    (hsmall : ∀ a ∈ areas, a.kind = .free → a.size < alignedWantedSize wanted) :
    pvPortMalloc h wanted = some (0, h) := by
  unfold pvPortMalloc
  rw [if_neg (Nat.pos_iff_ne_zero.mp hrep.pxEnd_pos)]
  dsimp only
  split
  · next hvalid =>
    obtain ⟨front, m, rfl, hmark, hend⟩ := hrep.exists_end
    have hlinked : m.kind.linked = true := by rw [hmark]; rfl
    have hlast : h.mem.next m.start = 0 := by
      have hlist := (linked_split.mp (hrep.linked_at hlinked)).2
      exact (linked_cons_cons.mp hlist).1
    have hstop : mallocStops h.mem (alignedWantedSize wanted) m.start = true := by
      simp [mallocStops, hlast]
    rw [hrep.seek_malloc hregions hlinked (fun b hb => hsmall b (List.mem_append_left _ hb))
      hvalid.2.1 hstop]
    exact if_neg (not_not.mpr hend)
  · rfl

/-! ## The block that is given -/

/-- What is left of a free area when part of it is used, and what is used of it. -/
def given (a : Area) (wanted : Nat) : List Area :=
  if a.size - wanted > heapMinimumBlockSize then
    [⟨a.start, wanted, .used⟩, ⟨a.start + wanted, a.size - wanted, .free⟩]
  else [⟨a.start, a.size, .used⟩]

/-- The bytes that are used of it. -/
def taken (a : Area) (wanted : Nat) : Nat :=
  if a.size - wanted > heapMinimumBlockSize then wanted else a.size

/-- The heap after the area `a` has been given, with the node `p` before it: `p` goes on to what is left of
the area, or past it. -/
structure Given (h : Heap5) (p : Nat) (a : Area) (wanted : Nat) (h' : Heap5) : Prop where
  xStart : h'.xStart = h.xStart
  pxEnd : h'.pxEnd = h.pxEnd
  free : h'.xFreeBytesRemaining = h.xFreeBytesRemaining - taken a wanted
  allocations : h'.xNumberOfSuccessfulAllocations = wordAdd h.xNumberOfSuccessfulAllocations 1
  frees : h'.xNumberOfSuccessfulFrees = h.xNumberOfSuccessfulFrees
  next : ∀ x, h'.mem.next x =
    if x = a.start then 0
    else if a.size - wanted > heapMinimumBlockSize then
      if x = p then a.start + wanted
      else if x = a.start + wanted then h.mem.next a.start else h.mem.next x
    else if x = p then h.mem.next a.start else h.mem.next x
  size : ∀ x, h'.mem.size x =
    if x = a.start then taken a wanted + heapBlockAllocatedBitmask
    else if a.size - wanted > heapMinimumBlockSize then
      if x = a.start + wanted then a.size - wanted else h.mem.size x
    else h.mem.size x

/-- The links after `takeBlock`. -/
theorem Represents.takeBlock_eq (hrep : Represents regions h (before ++ a :: behind)) (ha : a.kind = .free)
    (hdvd : 8 ∣ wanted) (hwanted : 0 < wanted) (hfit : wanted ≤ a.size) {init : List Nat} {p : Nat}
    (haround : Around h before a behind init p) :
    ∃ mem, takeBlock h.mem p a.start wanted = some mem ∧
      (∀ x, mem.next x =
        if a.size - wanted > heapMinimumBlockSize then
          if x = p then a.start + wanted
          else if x = a.start + wanted then h.mem.next a.start else h.mem.next x
        else if x = p then h.mem.next a.start else h.mem.next x) ∧
      ∀ x, mem.size x =
        if a.size - wanted > heapMinimumBlockSize then
          if x = a.start then wanted
          else if x = a.start + wanted then a.size - wanted else h.mem.size x
        else h.mem.size x := by
  have hplaced := hrep.placed a (by simp)
  have hend := hplaced.end_lt
  have hout := haround.node_out
  have hsize : h.mem.size a.start = a.size := by
    rw [(hrep.headed a (by simp)).1, header, ha]
  unfold takeBlock
  dsimp only
  rw [Memory.size_setNext, hsize, if_neg (by omega)]
  -- What is left over becomes a block of its own only where it is larger than
  -- `heapMinimumBlockSize`.
  by_cases hsplit : a.size - wanted > heapMinimumBlockSize
  · simp only [if_pos hsplit]
    have hnew : wordAdd a.start wanted = a.start + wanted := wordAdd_of_lt (by omega)
    have halign : ¬(a.start + wanted) % portByteAlignment ≠ 0 := by
      have := hplaced.start_dvd
      unfold portByteAlignment
      omega
    have hpn : p ≠ a.start + wanted := by omega
    rw [hnew, if_neg halign]
    refine ⟨_, rfl, ?_, ?_⟩
    · intro x
      simp only [Memory.next_setNext, Memory.next_setSize, if_true]
      by_cases hx : x = p
      · rw [if_pos hx, if_pos hx]
      · rw [if_neg hx, if_neg hx, if_neg hx]
    · intro x
      simp only [Memory.size_setNext, Memory.size_setSize]
  · simp only [if_neg hsplit]
    refine ⟨_, rfl, ?_, ?_⟩
    · intro x
      simp only [Memory.next_setNext]
    · intro x
      simp only [Memory.size_setNext]

theorem Represents.giveBlock_eq (hrep : Represents regions h (before ++ a :: behind))
    (hregions : UsableRegions h.xStart regions) (ha : a.kind = .free) (hdvd : 8 ∣ wanted)
    (hwanted : 0 < wanted) (hfit : wanted ≤ a.size) {init : List Nat} {p : Nat}
    (haround : Around h before a behind init p) :
    ∃ h', giveBlock h p a.start wanted = some (a.start + 8, h') ∧ Given h p a wanted h' := by
  have hplaced := hrep.placed a (by simp)
  have hend := hplaced.end_lt
  have hbit := hplaced.size_lt
  have hsizedvd := hplaced.size_dvd
  have hsizepos := hplaced.size_pos
  have hstartdvd := hplaced.start_dvd
  have hnext : h.mem.next p = a.start := by
    have hlist := hrep.linked_at (a := a) (by rw [ha]; rfl)
    rw [haround.cut, List.append_assoc] at hlist
    exact (linked_append_cons_cons.mp hlist).2.1
  have hasize : h.mem.size a.start = a.size := by
    rw [(hrep.headed a (by simp)).1, header, ha]
  obtain ⟨mem, htake, hmemnext, hmemsize⟩ := hrep.takeBlock_eq ha hdvd hwanted hfit haround
  have hreturn : wordAdd (h.mem.next p) xHeapStructSize = a.start + 8 := by
    rw [hnext]
    exact wordAdd_of_lt (by unfold xHeapStructSize; omega)
  have halign : ¬(a.start + 8) % portByteAlignment ≠ 0 := by
    unfold portByteAlignment
    omega
  have htaken : mem.size a.start = taken a wanted := by
    rw [hmemsize]
    unfold taken
    split
    · rw [if_pos rfl]
    · exact hasize
  -- The block has at most the bytes of the area, so the count of free bytes does not wrap.
  have hle : taken a wanted ≤ a.size := by
    unfold taken
    split
    · exact hfit
    · exact le_rfl
  have hfree : a.size ≤ h.xFreeBytesRemaining := by
    rw [hrep.free]
    exact size_le_bytes (by simp) ha
  unfold giveBlock
  simp only [hreturn, htake, if_neg halign]
  refine ⟨_, rfl, rfl, rfl, ?_, rfl, rfl, ?_, ?_⟩
  · show wordSub h.xFreeBytesRemaining (mem.size a.start) = h.xFreeBytesRemaining - taken a wanted
    rw [htaken]
    exact wordSub_of_le (hle.trans hfree) (hrep.free_lt hregions)
  · intro x
    simp only [Memory.next_setNext, Memory.next_allocate, hmemnext]
  · intro x
    simp only [Memory.size_setNext, Memory.allocate, Memory.size_setSize, htaken]
    by_cases hx : x = a.start
    · rw [if_pos hx, if_pos hx, Nat.mod_eq_of_lt (by omega)]
    · simp only [if_neg hx, hmemsize]

/-- Whatever else is there, an area in use in the place of a free one makes a layout again. -/
theorem Represents.give (hrep : Represents regions h (before ++ a :: behind)) (ha : a.kind = .free)
    {h' : Heap5} {u : Area} {rest : List Area} (hx : h'.xStart = h.xStart) (hend : h'.pxEnd = h.pxEnd)
    (hu : u.start = a.start ∧ u.kind = .used) (hrest : ∀ b ∈ rest, b.kind = .free)
    (hbytes : u.size + bytes .free rest = a.size)
    (htiled : Tiled (regionSeams regions) (before ++ u :: (rest ++ behind)))
    (hplaced : ∀ b ∈ u :: rest, Placed h.xStart b) (hheaded : Headed h'.mem (u :: rest))
    (hsame : ∀ b ∈ before ++ behind, h'.mem.size b.start = h.mem.size b.start ∧
      (b.kind = .used → h'.mem.next b.start = h.mem.next b.start))
    (hlinked : Linked h'.mem.next (h.xStart :: nodes (before ++ (rest ++ behind)) ++ [0]))
    (hstart : h'.mem.size h.xStart = 0) (hfree : h'.xFreeBytesRemaining = h.xFreeBytesRemaining - u.size)
    (hcount : h'.xNumberOfSuccessfulAllocations = wordAdd h.xNumberOfSuccessfulAllocations 1)
    (hfrees : h'.xNumberOfSuccessfulFrees = h.xNumberOfSuccessfulFrees) :
    Represents regions h' (before ++ u :: (rest ++ behind)) := by
  have hmark : u.kind.isMark = false := by rw [hu.2]; rfl
  have hlink : u.kind.linked = false := by rw [hu.2]; rfl
  have hmarks : Areas.marks rest = [] := by
    refine List.eq_nil_iff_forall_not_mem.mpr fun x hmem => ?_
    obtain ⟨b, hb, hbmark, -⟩ := mem_marks.mp hmem
    rw [hrest b hb] at hbmark
    exact absurd hbmark (by decide)
  have hused : count .used rest = 0 ∧ bytes .used rest = 0 := by
    have hnone : rest.filter (·.kind = .used) = [] := by
      refine List.filter_eq_nil_iff.mpr fun b hb => ?_
      simp [hrest b hb]
    simp [count, bytes, hnone]
  have hbehind : behind ≠ [] := hrep.behind_ne_nil (by rw [ha]; decide)
  have hall : ∀ b ∈ before ++ behind, b ∈ before ++ a :: behind := by
    intro b hb
    obtain hb | hb := List.mem_append.mp hb
    · exact List.mem_append_left _ hb
    · exact List.mem_append_right _ (List.mem_cons_of_mem _ hb)
  -- Every area is a new one or one that was there.
  have hmem : ∀ b ∈ before ++ u :: (rest ++ behind), b ∈ u :: rest ∨ b ∈ before ++ behind := by
    intro b hb
    simp only [List.mem_append, List.mem_cons] at hb ⊢
    tauto
  constructor
  case tiled => exact htiled
  case placed =>
    intro b hb
    rw [hx]
    obtain hb | hb := hmem b hb
    · exact hplaced b hb
    · exact hrep.placed b (hall b hb)
  case first =>
    rw [← hrep.first]
    cases before with
    | nil => exact congrArg some hu.1
    | cons b before => rfl
  case marks =>
    rw [← hrep.marks, Areas.marks_append, marks_cons_block hmark, Areas.marks_append, hmarks,
      List.nil_append, Areas.marks_append, marks_cons_block (by rw [ha]; rfl)]
  case last =>
    obtain ⟨m, hm, hlast⟩ := hrep.last
    refine ⟨m, ?_, hlast.1, hlast.2.trans hend.symm⟩
    rw [List.getLast?_append_of_ne_nil _ (List.cons_ne_nil _ _), ← List.cons_append,
      List.getLast?_append_of_ne_nil _ hbehind]
    rwa [List.getLast?_append_of_ne_nil _ (List.cons_ne_nil _ _),
      ← List.singleton_append, List.getLast?_append_of_ne_nil _ hbehind] at hm
  case headed =>
    intro b hb
    obtain hb | hb := hmem b hb
    · exact hheaded b hb
    · obtain ⟨hsize, hnext⟩ := hsame b hb
      have hold := hrep.headed b (hall b hb)
      exact ⟨hsize.trans hold.1, fun hk => (hnext hk).trans (hold.2 hk)⟩
  case linked =>
    rw [hx, nodes_append, nodes_cons_unlinked hlink, ← nodes_append]
    exact hlinked
  case start_size =>
    rw [hx]
    exact hstart
  case free =>
    have hold := hrep.free
    simp only [bytes_append, bytes_cons, ha, hu.2, if_true, reduceCtorEq, if_false] at hold ⊢
    omega
  case total =>
    have hold := hrep.total
    simp only [bytes_append, bytes_cons, ha, hu.2, if_true, reduceCtorEq, if_false, hused.2] at hold ⊢
    omega
  case allocations =>
    have hold := hrep.allocations
    rw [hcount, hfrees, hold]
    simp only [count_append, count_cons, ha, hu.2, if_true, reduceCtorEq, if_false, hused.1]
    unfold wordAdd
    rw [Nat.mod_add_mod]
    congr 1
    omega

namespace Given

variable {h' : Heap5} {init : List Nat} {p : Nat}

/-- No other area, and no list but from `p` on, is touched. -/
theorem next_of_out (hgiven : Given h p a wanted h') (hfit : wanted ≤ a.size) (hpos : 0 < a.size) {x : Nat}
    (hx : x ≠ p) (hout : x < a.start ∨ a.start + a.size ≤ x) : h'.mem.next x = h.mem.next x := by
  rw [hgiven.next, if_neg (by omega)]
  by_cases hsplit : a.size - wanted > heapMinimumBlockSize
  · rw [if_pos hsplit, if_neg hx, if_neg (by omega)]
  · rw [if_neg hsplit, if_neg hx]

theorem size_of_out (hgiven : Given h p a wanted h') (hfit : wanted ≤ a.size) (hpos : 0 < a.size) {x : Nat}
    (hout : x < a.start ∨ a.start + a.size ≤ x) : h'.mem.size x = h.mem.size x := by
  rw [hgiven.size, if_neg (by omega)]
  by_cases hsplit : a.size - wanted > heapMinimumBlockSize
  · rw [if_pos hsplit, if_neg (by omega)]
  · rw [if_neg hsplit]

theorem kept (hgiven : Given h p a wanted h') (hfit : wanted ≤ a.size) (hpos : 0 < a.size)
    (haround : Around h before a behind init p) : Kept h h' (before ++ behind) := by
  intro b hb hused x hx hxb
  have hout := haround.other b hb
  have hxout : x < a.start ∨ a.start + a.size ≤ x := by omega
  exact Memory.ext_at (hgiven.next_of_out hfit hpos (haround.used b hb hused x hx hxb) hxout)
    (hgiven.size_of_out hfit hpos hxout)

/-- The links of the other areas are as before. -/
theorem headed_other (hgiven : Given h p a wanted h') (hfit : wanted ≤ a.size) (hpos : 0 < a.size)
    (hsizes : ∀ b ∈ before ++ behind, 0 < b.size) (haround : Around h before a behind init p) :
    ∀ b ∈ before ++ behind, h'.mem.size b.start = h.mem.size b.start ∧
      (b.kind = .used → h'.mem.next b.start = h.mem.next b.start) := by
  intro b hb
  have hother := haround.other b hb
  have hbpos := hsizes b hb
  have hout : b.start < a.start ∨ a.start + a.size ≤ b.start := by omega
  refine ⟨hgiven.size_of_out hfit hpos hout, fun hused => ?_⟩
  exact hgiven.next_of_out hfit hpos (haround.used b hb hused _ le_rfl (by omega)) hout

theorem represents (hgiven : Given h p a wanted h') (hrep : Represents regions h (before ++ a :: behind))
    (ha : a.kind = .free) (hdvd : 8 ∣ wanted) (hwanted : 0 < wanted) (hfit : wanted ≤ a.size)
    (haround : Around h before a behind init p) :
    Represents regions h' (before ++ (given a wanted ++ behind)) := by
  have hplaced := hrep.placed a (by simp)
  have hpos := hplaced.size_pos
  have hsizes : ∀ b ∈ before ++ behind, 0 < b.size := by
    intro b hb
    refine hrep.size_pos b ?_
    simp only [List.mem_append, List.mem_cons] at hb ⊢
    tauto
  have hother := hgiven.headed_other hfit hpos hsizes haround
  have hlist : Linked h.mem.next (init ++ p :: a.start :: (nodes behind ++ [0])) := by
    have hlist := hrep.linked_at (a := a) (by rw [ha]; rfl)
    rwa [haround.cut, List.append_assoc] at hlist
  have hfront : ∀ y ∈ init, h'.mem.next y = h.mem.next y := fun y hy =>
    hgiven.next_of_out hfit hpos (haround.front y hy).1 (haround.front y hy).2
  have hback : ∀ y ∈ nodes behind, h'.mem.next y = h.mem.next y := fun y hy =>
    hgiven.next_of_out hfit hpos (haround.back y hy).1 (Or.inr (haround.back y hy).2)
  have hnode := haround.node_out
  have hxout := hplaced.outside
  have hxsize : h'.mem.size h.xStart = 0 := by
    rw [hgiven.size_of_out hfit hpos (by omega)]
    exact hrep.start_size
  have hfree := hgiven.free
  have hnext := hgiven.next
  have hsize := hgiven.size
  unfold taken at hfree hsize
  by_cases hsplit : a.size - wanted > heapMinimumBlockSize
  · -- the front of the area is used, and what is left of it takes its place on the list
    simp only [if_pos hsplit] at hfree hnext hsize
    simp only [given, if_pos hsplit]
    refine hrep.give ha (u := ⟨a.start, wanted, .used⟩) hgiven.xStart hgiven.pxEnd ⟨rfl, rfl⟩
      (by simp) ?_ (hrep.tiled.split ha hfit) ?_ ?_ hother ?_ hxsize hfree hgiven.allocations hgiven.frees
    · simp [hfit]
    · have hend := hplaced.end_lt
      have hbit := hplaced.size_lt
      have hstartpos := hplaced.start_pos
      intro b hb
      obtain rfl | hb := List.mem_cons.mp hb
      · exact ⟨hstartpos, hplaced.start_dvd, hdvd, hwanted, by simp only; omega, by simp only; omega,
          by simp [Kind.isMark], by simp only; omega⟩
      · obtain rfl := List.mem_singleton.mp hb
        exact ⟨by simp only; omega, Nat.dvd_add hplaced.start_dvd hdvd, Nat.dvd_sub hplaced.size_dvd hdvd,
          by simp only; omega, by simp only; omega, by simp only; omega, by simp [Kind.isMark],
          by simp only; omega⟩
    · intro b hb
      obtain rfl | hb := List.mem_cons.mp hb
      · exact ⟨by rw [hsize, if_pos rfl]; rfl, fun _ => by rw [hnext, if_pos rfl]⟩
      · obtain rfl := List.mem_singleton.mp hb
        refine ⟨?_, by simp⟩
        rw [hsize, if_neg (by simp only; omega), if_pos rfl]
        rfl
    · have hlist' : Linked h'.mem.next (init ++ p :: (a.start + wanted) :: (nodes behind ++ [0])) := by
        refine hlist.replace hfront hback ?_ ?_
        · rw [hnext, if_neg (by omega), if_pos rfl]
        · rw [hnext, if_neg (by omega), if_neg (by omega), if_pos rfl]
      rw [nodes_append, nodes_append, nodes_cons_linked rfl, ← List.cons_append, haround.cut]
      simpa using hlist'
  · -- the area is used as a whole
    simp only [if_neg hsplit] at hfree hnext hsize
    simp only [given, if_neg hsplit]
    refine hrep.give ha (u := ⟨a.start, a.size, .used⟩) hgiven.xStart hgiven.pxEnd ⟨rfl, rfl⟩
      (by simp) ?_ (hrep.tiled.use ha) ?_ ?_ hother ?_ hxsize hfree hgiven.allocations hgiven.frees
    · simp
    · intro b hb
      obtain rfl := List.mem_singleton.mp hb
      exact ⟨hplaced.start_pos, hplaced.start_dvd, hplaced.size_dvd, hpos, hplaced.size_lt, hplaced.end_lt,
        by simp [Kind.isMark], hxout⟩
    · intro b hb
      obtain rfl := List.mem_singleton.mp hb
      exact ⟨by rw [hsize, if_pos rfl]; rfl, fun _ => by rw [hnext, if_pos rfl]⟩
    · have hlist' : Linked h'.mem.next (init ++ p :: (nodes behind ++ [0])) := by
        refine hlist.unlink hfront hback ?_
        rw [hnext, if_neg (by omega), if_pos rfl]
      rw [List.nil_append, nodes_append, ← List.cons_append, haround.cut]
      simpa using hlist'

end Given

/-! ## Allocation as a whole -/

/-- The first free area that is large enough is given, and no other in use is touched. -/
theorem Represents.malloc_some (hrep : Represents regions h (before ++ a :: behind))
    (hregions : UsableRegions h.xStart regions) (ha : a.kind = .free)
    (hpos : 0 < alignedWantedSize wanted) (hfit : alignedWantedSize wanted ≤ a.size)
    (hsmall : ∀ b ∈ before, b.kind = .free → b.size < alignedWantedSize wanted) :
    ∃ h', pvPortMalloc h wanted = some (a.start + 8, h') ∧
      Represents regions h' (before ++ (given a (alignedWantedSize wanted) ++ behind)) ∧
      h'.xStart = h.xStart ∧ Kept h h' (before ++ behind) := by
  have hplaced := hrep.placed a (by simp)
  have hlinked : a.kind.linked = true := by rw [ha]; rfl
  obtain ⟨init, p, haround⟩ := hrep.exists_around hregions
  have hdvd := alignedWantedSize_dvd wanted
  obtain ⟨h', hgive, hgiven⟩ := hrep.giveBlock_eq hregions ha hdvd hpos hfit haround
  refine ⟨h', ?_, hgiven.represents hrep ha hdvd hpos hfit haround, hgiven.xStart,
    hgiven.kept hfit hplaced.size_pos haround⟩
  have hstop : mallocStops h.mem (alignedWantedSize wanted) a.start = true := by
    have hsize : h.mem.size a.start = a.size := by
      rw [(hrep.headed a (by simp)).1, header, ha]
    simp [mallocStops, hsize, hfit]
  have hvalid : heapBlockSizeIsValid (alignedWantedSize wanted) = true ∧ 0 < alignedWantedSize wanted ∧
      alignedWantedSize wanted ≤ h.xFreeBytesRemaining := by
    refine ⟨?_, hpos, ?_⟩
    · simpa [heapBlockSizeIsValid] using lt_of_le_of_lt hfit hplaced.size_lt
    · rw [hrep.free]
      exact hfit.trans (size_le_bytes (by simp) ha)
  have hend : a.start ≠ h.pxEnd := by
    obtain ⟨m, hm, hmark, hmend⟩ := hrep.last
    intro heq
    have hmem := List.mem_of_mem_getLast? hm
    have hmpos := hrep.size_pos m hmem
    have hapos := hplaced.size_pos
    obtain rfl := (hrep.ordered hregions).eq_of_mem (b := m) (a := a) (by simp) hmem
      (x := a.start) le_rfl (by omega) (by omega) (by omega)
    rw [ha] at hmark
    exact absurd hmark (by decide)
  unfold pvPortMalloc
  rw [if_neg (Nat.pos_iff_ne_zero.mp hrep.pxEnd_pos)]
  dsimp only
  rw [if_pos hvalid, hrep.seek_malloc hregions hlinked hsmall hpos hstop, ← haround.last]
  exact (if_pos hend).trans hgive

end CarveraFirmware.Heap
