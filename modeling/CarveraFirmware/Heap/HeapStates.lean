import Mathlib
import CarveraFirmware.Heap.HeapRuns

/-!
# What holds in every state of the heap

Whatever the program allocates, frees and writes to what it holds, its blocks are its own, the walk over
the areas accounts for every byte, and what has been freed is there again for the next allocation.
-/

namespace CarveraFirmware.Heap

open Links Areas

variable {regions : List HeapRegion} {h : Heap5} {areas : List Area} {live : List (Nat × Nat)}
  {s : Option HeapRun}

/-! ## The blocks -/

/-- A block that the program holds is aligned and in one of the regions. -/
theorem Represents.block_in_region (hrep : Represents regions h areas)
    (hregions : UsableRegions h.xStart regions) (hmatches : Matches areas live) {b : Nat × Nat}
    (hb : b ∈ live) : 8 ∣ b.1 ∧ ∃ r ∈ regions, r.first + 8 ≤ b.1 ∧ b.1 + b.2 ≤ r.marker := by
  obtain ⟨a, ha, hk, hstart, hroom⟩ := hmatches.room b hb
  have hdvd := (hrep.placed a ha).start_dvd
  refine ⟨by omega, ?_⟩
  have hcovers := covers_regions hregions hrep.tiled hrep.marks hrep.first
  obtain ⟨q, hq, hle, hin⟩ := hcovers.in_span a ha
  obtain ⟨r, hr, rfl⟩ := List.mem_map.mp hq
  refine ⟨r, hr, ?_, ?_⟩
  · show r.first + 8 ≤ b.1
    have hle : r.first ≤ a.start := hle
    omega
  · obtain hend | ⟨hmark, -⟩ := hin
    · have hend : a.start + a.size ≤ r.marker := hend
      omega
    · rw [hk] at hmark
      exact absurd hmark (by decide)

/-- No two blocks have the same pointer. -/
theorem Represents.live_nodup (hrep : Represents regions h areas)
    (hregions : UsableRegions h.xStart regions) (hmatches : Matches areas live) :
    (live.map Prod.fst).Nodup := by
  refine (hmatches.perm.nodup_iff).mp ?_
  have hord : (usedAreas areas).Pairwise fun x y => x.start + x.size ≤ y.start :=
    List.Pairwise.filter _ (hrep.ordered hregions)
  rw [List.Nodup, List.pairwise_map]
  refine hord.imp_of_mem fun {x y} hx _ hxy => ?_
  have := hrep.size_pos x (List.mem_filter.mp hx).1
  omega

/-- The blocks that the program holds are apart, and so are the links in front of them. -/
theorem Represents.live_apart (hrep : Represents regions h areas)
    (hregions : UsableRegions h.xStart regions) (hmatches : Matches areas live) :
    live.Pairwise fun b c => b.1 + b.2 + 8 ≤ c.1 ∨ c.1 + c.2 + 8 ≤ b.1 := by
  have hnodup := List.pairwise_map.mp (hrep.live_nodup hregions hmatches)
  refine hnodup.imp_of_mem fun {b c} hb hc hne => ?_
  obtain ⟨x, hx, -, hxb, hxroom⟩ := hmatches.room b hb
  obtain ⟨y, hy, -, hyc, hyroom⟩ := hmatches.room c hc
  have hxy : x ≠ y := by
    rintro rfl
    exact hne (hxb.symm.trans hyc)
  obtain ⟨before, behind, rfl⟩ := List.append_of_mem hx
  obtain ⟨hbefore, hbehind⟩ := (hrep.ordered hregions).around
  obtain hy | hy := List.mem_append.mp hy
  · have := hbefore y hy
    exact Or.inr (by omega)
  · obtain rfl | hy := List.mem_cons.mp hy
    · exact absurd rfl hxy
    · have := hbehind y hy
      exact Or.inl (by omega)

theorem heapReached_blocks (hregions : UsableRegions h.xStart regions) (hundefined : Undefined h)
    (hs : HeapReached h regions s) :
    ∃ run, s = some run ∧
      (∀ b ∈ run.live, 8 ∣ b.1 ∧ ∃ r ∈ regions, r.first + 8 ≤ b.1 ∧ b.1 + b.2 ≤ r.marker) ∧
      run.live.Pairwise fun b c => b.1 + b.2 + 8 ≤ c.1 ∨ c.1 + c.2 + 8 ≤ b.1 := by
  obtain ⟨run, areas, rfl, hx, hrep, hmatches⟩ := heapReached_inv hregions hundefined hs
  rw [← hx] at hregions
  exact ⟨run, rfl, fun b hb => hrep.block_in_region hregions hmatches hb,
    hrep.live_apart hregions hmatches⟩

/-- Two small regions, the second of them not aligned. -/
def smallRegions : List HeapRegion := [⟨0x1000, 64⟩, ⟨0x2004, 100⟩]

def smallHeap : Heap5 := { mem := fun _ => ⟨0, 0⟩, xStart := 0x500 }

/-- Two allocations in the first region and one that the second region has room for; the first of them
is freed. -/
def smallEvents : List HeapEvent := [.malloc 10, .malloc 8, .calloc 4 10, .free 0x1008]

theorem smallRegions_usable : UsableRegions smallHeap.xStart smallRegions := by
  have husable : ∀ r ∈ smallRegions, r.Usable := by
    intro r hr
    obtain rfl | hr := List.mem_cons.mp hr
    · constructor
      all_goals decide
    · obtain rfl := List.mem_singleton.mp hr
      constructor
      all_goals decide
  exact ⟨by decide, by decide, husable, by decide, by decide⟩

theorem small_reached :
    HeapReached smallHeap smallRegions (smallEvents.foldl heapStep (heapStart smallHeap smallRegions)) := by
  refine Reached.start.run ⟨fun _ _ => trivial, fun _ _ => trivial, fun _ _ => trivial, ?_, trivial⟩
  have hlive : ([HeapEvent.malloc 10, .malloc 8, .calloc 4 10].foldl heapStep
      (heapStart smallHeap smallRegions)).map HeapRun.live =
        some [(0x2010, 40), (0x1020, 8), (0x1008, 10)] := by
    decide +kernel
  intro run hrun
  have hrun : [HeapEvent.malloc 10, .malloc 8, .calloc 4 10].foldl heapStep
      (heapStart smallHeap smallRegions) = some run := hrun
  rw [hrun] at hlive
  refine Or.inr ⟨(0x1008, 10), ?_, rfl⟩
  rw [show run.live = _ from Option.some.inj hlive]
  simp

theorem heapReached_blocks_small :
    ∃ run, smallEvents.foldl heapStep (heapStart smallHeap smallRegions) = some run ∧
      (∀ b ∈ run.live, 8 ∣ b.1 ∧ ∃ r ∈ smallRegions, r.first + 8 ≤ b.1 ∧ b.1 + b.2 ≤ r.marker) ∧
      run.live.Pairwise fun b c => b.1 + b.2 + 8 ≤ c.1 ∨ c.1 + c.2 + 8 ≤ b.1 :=
  heapReached_blocks smallRegions_usable ⟨rfl, rfl, rfl⟩ small_reached

/-! ## The account -/

/-- The statistics are sums over the areas of the walk. -/
theorem layoutStats_eq (walk : List HeapAreaInfo) :
    layoutStats walk =
      { usedBytes := ((walk.filter (·.allocated)).map (·.size)).sum
        freeBytes := ((walk.filter (!·.allocated)).map (·.size)).sum
        usedAreas := (walk.filter (·.allocated)).length
        freeAreas := (walk.filter (!·.allocated)).length } := by
  have hfold : ∀ stats : HeapLayoutStats, walk.foldl .note stats =
      { usedBytes := stats.usedBytes + ((walk.filter (·.allocated)).map (·.size)).sum
        freeBytes := stats.freeBytes + ((walk.filter (!·.allocated)).map (·.size)).sum
        usedAreas := stats.usedAreas + (walk.filter (·.allocated)).length
        freeAreas := stats.freeAreas + (walk.filter (!·.allocated)).length } := by
    induction walk with
    | nil =>
      intro stats
      rfl
    | cons area walk ih =>
      intro stats
      rw [List.foldl_cons, ih]
      by_cases ha : area.allocated = true
      · simp [HeapLayoutStats.note, ha]
        omega
      · simp [HeapLayoutStats.note, ha]
        omega
  unfold layoutStats
  rw [hfold]
  simp

theorem filter_areaInfo_used (areas : List Area) :
    ((blocksOf areas).map areaInfo).filter (·.allocated) = (usedAreas areas).map areaInfo := by
  rw [List.filter_map]
  congr 1
  unfold blocksOf usedAreas
  rw [List.filter_filter]
  refine List.filter_congr fun a _ => ?_
  cases hk : a.kind with
  | free => simp [areaInfo, hk]
  | used => simp [areaInfo, hk, Kind.isMark]
  | mark => simp [areaInfo, hk]
  | lost => simp [areaInfo, hk]

theorem filter_areaInfo_free (areas : List Area) :
    ((blocksOf areas).map areaInfo).filter (!·.allocated) =
      (areas.filter (·.kind = .free)).map areaInfo := by
  rw [List.filter_map]
  congr 1
  unfold blocksOf
  rw [List.filter_filter]
  refine List.filter_congr fun a _ => ?_
  cases hk : a.kind with
  | free => simp [areaInfo, hk, Kind.isMark]
  | used => simp [areaInfo, hk]
  | mark => simp [Kind.isMark]
  | lost => simp [Kind.isMark]

/-- The walk accounts for every byte of the regions, and finds the blocks that the program holds. -/
theorem heapReached_walk (hregions : UsableRegions h.xStart regions) (hundefined : Undefined h)
    (hs : HeapReached h regions s) :
    ∃ run walk, s = some run ∧ heapVisitRegions run.heap.mem (regionArray regions) = some walk ∧
      (layoutStats walk).freeBytes = run.heap.xFreeBytesRemaining ∧
      (layoutStats walk).usedBytes + (layoutStats walk).freeBytes =
        (regions.map HeapRegion.room).sum ∧
      ((walk.filter (·.allocated)).map (·.address + xHeapStructSize)).Perm (run.live.map Prod.fst) ∧
      (∀ b ∈ run.live, ∃ area ∈ walk, area.allocated = true ∧ area.address + xHeapStructSize = b.1 ∧
        b.2 + xHeapStructSize ≤ area.size) ∧
      run.heap.xNumberOfSuccessfulAllocations =
        wordAdd run.heap.xNumberOfSuccessfulFrees run.live.length := by
  obtain ⟨run, areas, rfl, hx, hrep, hmatches⟩ := heapReached_inv hregions hundefined hs
  rw [← hx] at hregions
  have hfree : (layoutStats ((blocksOf areas).map areaInfo)).freeBytes = bytes .free areas := by
    rw [layoutStats_eq, filter_areaInfo_free, List.map_map]
    rfl
  have hused : (layoutStats ((blocksOf areas).map areaInfo)).usedBytes = bytes .used areas := by
    rw [layoutStats_eq, filter_areaInfo_used, List.map_map]
    rfl
  refine ⟨run, _, rfl, hrep.walk hregions, ?_, ?_, ?_, ?_, ?_⟩
  · rw [hfree, hrep.free]
  · rw [hfree, hused, Nat.add_comm]
    exact hrep.total
  · rw [filter_areaInfo_used, List.map_map]
    exact hmatches.perm
  · intro b hb
    obtain ⟨a, ha, hk, hstart, hroom⟩ := hmatches.room b hb
    refine ⟨areaInfo a, List.mem_map_of_mem ?_, ?_, hstart, hroom⟩
    · exact List.mem_filter.mpr ⟨ha, by rw [hk]; rfl⟩
    · simp [areaInfo, hk]
  · have hlength := hmatches.perm.length_eq
    rw [List.length_map, List.length_map] at hlength
    rw [hrep.allocations, ← hlength]
    rfl

theorem heapReached_walk_small :
    ∃ run walk, smallEvents.foldl heapStep (heapStart smallHeap smallRegions) = some run ∧
      heapVisitRegions run.heap.mem (regionArray smallRegions) = some walk ∧
      (layoutStats walk).freeBytes = run.heap.xFreeBytesRemaining ∧
      (layoutStats walk).usedBytes + (layoutStats walk).freeBytes =
        (smallRegions.map HeapRegion.room).sum ∧
      ((walk.filter (·.allocated)).map (·.address + xHeapStructSize)).Perm (run.live.map Prod.fst) ∧
      (∀ b ∈ run.live, ∃ area ∈ walk, area.allocated = true ∧ area.address + xHeapStructSize = b.1 ∧
        b.2 + xHeapStructSize ≤ area.size) ∧
      run.heap.xNumberOfSuccessfulAllocations =
        wordAdd run.heap.xNumberOfSuccessfulFrees run.live.length :=
  heapReached_walk smallRegions_usable ⟨rfl, rfl, rfl⟩ small_reached

/-- An allocation gives the first free area of the walk that is large enough, and a null pointer only
where there is none. -/
theorem heapReached_malloc (hregions : UsableRegions h.xStart regions) (hundefined : Undefined h)
    (hs : HeapReached h regions s) :
    ∃ run walk, s = some run ∧ heapVisitRegions run.heap.mem (regionArray regions) = some walk ∧
      ∀ wanted, ∃ h', pvPortMalloc run.heap wanted = some (firstFit walk wanted, h') := by
  obtain ⟨run, areas, rfl, hx, hrep, hmatches⟩ := heapReached_inv hregions hundefined hs
  rw [← hx] at hregions
  refine ⟨run, _, rfl, hrep.walk hregions, ?_⟩
  intro wanted
  obtain ⟨pv, h', areas', hmalloc, -, -, -, -, rfl⟩ := malloc_cases hrep hregions hmatches wanted
  exact ⟨h', hmalloc⟩

theorem heapReached_malloc_small :
    ∃ run walk, smallEvents.foldl heapStep (heapStart smallHeap smallRegions) = some run ∧
      heapVisitRegions run.heap.mem (regionArray smallRegions) = some walk ∧
      ∀ wanted, ∃ h', pvPortMalloc run.heap wanted = some (firstFit walk wanted, h') :=
  heapReached_malloc smallRegions_usable ⟨rfl, rfl, rfl⟩ small_reached

/-! ## What has been freed -/

/-- Two free areas never lie side by side. -/
theorem Represents.free_apart (hrep : Represents regions h areas)
    (hregions : UsableRegions h.xStart regions) {a b : Area} (ha : a ∈ areas) (hb : b ∈ areas)
    (hafree : a.kind = .free) (hbfree : b.kind = .free) : b.start ≠ a.start + a.size := by
  intro hside
  obtain ⟨before, behind, rfl⟩ := List.append_of_mem ha
  have hbehind := hrep.behind_ne_nil (by rw [hafree]; decide)
  obtain ⟨c, behind, rfl⟩ := List.exists_cons_of_ne_nil hbehind
  have hnext : Next (regionSeams regions) a c := (List.isChain_append_cons_cons.mp hrep.tiled).2.1
  have hstart := hnext.1
  rw [hafree] at hstart
  have hstart : c.start = a.start + a.size := hstart
  have hc : c ∈ before ++ a :: c :: behind := by simp
  have hbpos := hrep.size_pos b hb
  have hcpos := hrep.size_pos c hc
  obtain rfl := (hrep.ordered hregions).eq_of_mem hc hb (x := c.start) le_rfl (by omega) (by omega) (by omega)
  exact hnext.2 ⟨hafree, hbfree⟩

theorem mem_walk_free {x : HeapAreaInfo} (hx : x ∈ (blocksOf areas).map areaInfo)
    (hfree : x.allocated = false) : ∃ a ∈ areas, a.kind = .free ∧ areaInfo a = x := by
  have hmem : x ∈ ((blocksOf areas).map areaInfo).filter (!·.allocated) :=
    List.mem_filter.mpr ⟨hx, by simp [hfree]⟩
  rw [filter_areaInfo_free] at hmem
  obtain ⟨a, ha, rfl⟩ := List.mem_map.mp hmem
  obtain ⟨ha, hk⟩ := List.mem_filter.mp ha
  exact ⟨a, ha, by simpa using hk, rfl⟩

/-- Where nothing is in use, one free area takes all of each region. -/
theorem blocksOf_unused {spans gaps : List (Nat × Nat)} (htiled : Tiled gaps areas)
    (hcovers : Covers spans areas) (hspans : ∀ r ∈ spans, r.1 < r.2)
    (hunused : ∀ a ∈ areas, a.kind ≠ .used) :
    (blocksOf areas).map areaInfo = spans.map fun r => ⟨r.1, r.2 - r.1, false⟩ := by
  induction spans generalizing areas with
  | nil =>
    rw [show areas = [] from hcovers]
    rfl
  | cons r spans ih =>
    obtain ⟨blocks, m, rest, rfl, hfill, -, hm, hrest⟩ := hcovers
    have hlt := hspans r List.mem_cons_self
    have hfree : ∀ b ∈ blocks, b.kind = .free := by
      intro b hb
      have hmark := hfill.blocks b hb
      have hused := hunused b (List.mem_append_left _ hb)
      cases hk : b.kind with
      | free => rfl
      | used => exact absurd hk hused
      | mark => rw [hk] at hmark; exact absurd hmark (by decide)
      | lost => rw [hk] at hmark; exact absurd hmark (by decide)
    have htail : Tiled gaps rest := htiled.right.tail
    have hih := ih htail hrest (fun q hq => hspans q (List.mem_cons_of_mem _ hq))
      fun a ha => hunused a (List.mem_append_right _ (List.mem_cons_of_mem _ ha))
    -- Two free areas are never side by side, so a region with nothing in use is one free area.
    cases blocks with
    | nil =>
      have hempty : r.1 = r.2 := hfill
      omega
    | cons b blocks =>
      have hbfree := hfree b List.mem_cons_self
      cases blocks with
      | nil =>
        obtain ⟨hstart, -, hend⟩ := hfill
        have hend : r.1 + b.size = r.2 := hend
        have hb : b.kind.isMark = false := by rw [hbfree]; rfl
        rw [List.singleton_append, blocksOf_cons_block hb, blocksOf_cons_mark hm, List.map_cons,
          List.map_cons, hih]
        congr 1
        rw [areaInfo, hbfree, hstart, ← hend, Nat.add_sub_cancel_left]
        rfl
      | cons c blocks =>
        have hnext : Next gaps b c := (List.isChain_cons_cons.mp htiled).1
        exact absurd ⟨hbfree, hfree c (by simp)⟩ hnext.2

/-- Freed areas are joined: no two free ones lie side by side, and when nothing is held any more each
region is one free area again. -/
theorem heapReached_joined (hregions : UsableRegions h.xStart regions) (hundefined : Undefined h)
    (hs : HeapReached h regions s) :
    ∃ run walk, s = some run ∧ heapVisitRegions run.heap.mem (regionArray regions) = some walk ∧
      (∀ x ∈ walk, ∀ y ∈ walk, x.allocated = false → y.allocated = false →
        y.address ≠ x.address + x.size) ∧
      (run.live = [] → walk = regions.map fun r => ⟨r.first, r.room, false⟩) := by
  obtain ⟨run, areas, rfl, hx, hrep, hmatches⟩ := heapReached_inv hregions hundefined hs
  rw [← hx] at hregions
  refine ⟨run, _, rfl, hrep.walk hregions, ?_, ?_⟩
  · intro x hx y hy hxfree hyfree
    obtain ⟨a, ha, hafree, rfl⟩ := mem_walk_free hx hxfree
    obtain ⟨b, hb, hbfree, rfl⟩ := mem_walk_free hy hyfree
    exact hrep.free_apart hregions ha hb hafree hbfree
  · intro hlive
    have hunused : ∀ a ∈ areas, a.kind ≠ .used := by
      intro a ha hk
      have hmem : a.start + 8 ∈ run.live.map Prod.fst :=
        hmatches.perm.subset (List.mem_map_of_mem (List.mem_filter.mpr ⟨ha, by simpa using hk⟩))
      rw [hlive] at hmem
      exact absurd hmem List.not_mem_nil
    have hcovers := covers_regions hregions hrep.tiled hrep.marks hrep.first
    rw [blocksOf_unused hrep.tiled hcovers ?_ hunused, List.map_map]
    · rfl
    · intro q hq
      obtain ⟨r, hr, rfl⟩ := List.mem_map.mp hq
      have := (hregions.usable r hr).first_lt_marker
      show r.first < r.marker
      omega

theorem heapReached_joined_small :
    ∃ run walk, smallEvents.foldl heapStep (heapStart smallHeap smallRegions) = some run ∧
      heapVisitRegions run.heap.mem (regionArray smallRegions) = some walk ∧
      (∀ x ∈ walk, ∀ y ∈ walk, x.allocated = false → y.allocated = false →
        y.address ≠ x.address + x.size) ∧
      (run.live = [] → walk = smallRegions.map fun r => ⟨r.first, r.room, false⟩) :=
  heapReached_joined smallRegions_usable ⟨rfl, rfl, rfl⟩ small_reached

/-! ## What the blocks hold -/

/-- An event leaves what a block holds, unless it frees the block or writes there. -/
theorem Represents.contents_step {run : HeapRun} (hrep : Represents regions run.heap areas)
    (hregions : UsableRegions run.heap.xStart regions) (hmatches : Matches areas run.live) {b : Nat × Nat}
    (hb : b ∈ run.live) {x : Nat} (hx : b.1 ≤ x) (hxb : x < b.1 + b.2) {e : HeapEvent} (hmay : run.May e)
    (hfree : e ≠ .free b.1) (hwrite : ∀ value, e ≠ .write x value) :
    ∃ run', run.next e = some run' ∧ b ∈ run'.live ∧ run'.heap.mem x = run.heap.mem x := by
  obtain ⟨a, ha, hk, hstart, hroom⟩ := hmatches.room b hb
  have hheld : ∀ (pv wanted : Nat) (h' : Heap5), b ∈ (run.hold wanted (pv, h')).live := by
    intro pv wanted h'
    unfold HeapRun.hold
    split
    · exact hb
    · exact List.mem_cons_of_mem _ hb
  -- Nothing but a write to the byte itself changes it while its block is held.
  cases e with
  | malloc wanted =>
    obtain ⟨pv, h', areas', hmalloc, -, -, -, hkept, -⟩ := malloc_cases hrep hregions hmatches wanted
    refine ⟨run.hold wanted (pv, h'), by simp [HeapRun.next, hmalloc], hheld pv wanted h', ?_⟩
    exact hkept a ha hk x (by omega) (by omega)
  | calloc num size =>
    obtain ⟨pv, h', areas', hcalloc, -, -, -, hkept⟩ := calloc_cases hrep hregions hmatches num size
    refine ⟨run.hold (num * size) (pv, h'), by simp [HeapRun.next, hcalloc], hheld pv _ h', ?_⟩
    exact hkept a ha hk x (by omega) (by omega)
  | free pv =>
    obtain ⟨h', areas', hfreed, -, -, -, hkept⟩ := free_cases hrep hregions hmatches hmay
    have hne : b.1 ≠ pv := fun heq => hfree (congrArg HeapEvent.free heq.symm)
    refine ⟨⟨h', run.live.filter fun c => c.1 ≠ pv⟩, by simp [HeapRun.next, hfreed], ?_, ?_⟩
    · exact List.mem_filter.mpr ⟨hb, by simpa using hne⟩
    · exact hkept a ha hk (by omega) x (by omega) (by omega)
  | write address value =>
    refine ⟨_, rfl, hb, ?_⟩
    have hne : x ≠ address := by
      rintro rfl
      exact hwrite value rfl
    exact Function.update_of_ne hne value run.heap.mem
  | resetMinimum => exact ⟨_, rfl, hb, rfl⟩

/-- What the program has written to a block stays there until it writes there again or frees the block,
whatever else it allocates and frees. -/
theorem heapReached_contents (hregions : UsableRegions h.xStart regions) (hundefined : Undefined h)
    {run : HeapRun} (hs : HeapReached h regions (some run)) {b : Nat × Nat} (hb : b ∈ run.live) {x : Nat}
    (hx : b.1 ≤ x) (hxb : x < b.1 + b.2) {events : List HeapEvent}
    (hok : AllOk heapStep heapMay (some run) events) (hfree : HeapEvent.free b.1 ∉ events)
    (hwrite : ∀ value, HeapEvent.write x value ∉ events) :
    ∃ run', events.foldl heapStep (some run) = some run' ∧ b ∈ run'.live ∧
      run'.heap.mem x = run.heap.mem x := by
  induction events generalizing run with
  | nil => exact ⟨run, rfl, hb, rfl⟩
  | cons e events ih =>
    obtain ⟨found, areas, heq, hstart, hrep, hmatches⟩ := heapReached_inv hregions hundefined hs
    obtain rfl := Option.some.inj heq
    have husable : UsableRegions run.heap.xStart regions := hstart ▸ hregions
    have hmay : run.May e := hok.1 run rfl
    obtain ⟨run₁, hnext, hb₁, hmem₁⟩ := Represents.contents_step hrep husable hmatches hb hx hxb hmay
      (fun heq => hfree (heq ▸ List.mem_cons_self))
      (fun value heq => hwrite value (heq ▸ List.mem_cons_self))
    have hstep : heapStep (some run) e = some run₁ := hnext
    have hs₁ : HeapReached h regions (some run₁) := hstep ▸ hs.step hok.1
    obtain ⟨run₂, hlast, hb₂, hmem₂⟩ := ih hs₁ hb₁ (hstep ▸ hok.2)
      (fun hmem => hfree (List.mem_cons_of_mem _ hmem))
      (fun value hmem => hwrite value (List.mem_cons_of_mem _ hmem))
    refine ⟨run₂, ?_, hb₂, hmem₂.trans hmem₁⟩
    rw [List.foldl_cons, hstep]
    exact hlast

theorem heapReached_contents_small :
    ∃ run, smallEvents.foldl heapStep (heapStart smallHeap smallRegions) = some run ∧
      ∃ run', [HeapEvent.free 0x2010, .malloc 30].foldl heapStep (some run) = some run' ∧
        (0x1020, 8) ∈ run'.live ∧ run'.heap.mem 0x1020 = run.heap.mem 0x1020 := by
  have hlive : (smallEvents.foldl heapStep (heapStart smallHeap smallRegions)).map HeapRun.live =
      some [(0x2010, 40), (0x1020, 8)] := by
    decide +kernel
  have hs := small_reached
  obtain ⟨run, -, hrun, -⟩ := heapReached_inv smallRegions_usable ⟨rfl, rfl, rfl⟩ hs
  rw [hrun] at hs hlive
  have hlive : run.live = [(0x2010, 40), (0x1020, 8)] := Option.some.inj hlive
  refine ⟨run, hrun, heapReached_contents smallRegions_usable ⟨rfl, rfl, rfl⟩ hs (by simp [hlive]) le_rfl
    (by decide) ⟨?_, fun _ _ => trivial, trivial⟩ (by simp) (by simp)⟩
  intro found hfound
  obtain rfl := Option.some.inj hfound
  exact Or.inr ⟨(0x2010, 40), by simp [hlive], rfl⟩

end CarveraFirmware.Heap
