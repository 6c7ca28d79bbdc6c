import Mathlib
import CarveraFirmware.Library.Links

/-!
# The heap

`libs/heap/heap_5.c`, with pointers and sizes of 32 bits and blocks aligned to eight bytes. The memory is
read in links of eight bytes, which is what a `BlockLink_t` takes, and a failed assertion gives `none`.
-/

namespace CarveraFirmware.Heap

open Links

/-- `BlockLink_t`. -/
@[ext]
structure BlockLink where
  pxNextFreeBlock : Nat
  xBlockSize : Nat
  deriving DecidableEq, Repr

abbrev Memory := Nat → BlockLink

def wordSize : Nat := 2 ^ 32

def heapSizeMax : Nat := wordSize - 1

def wordAdd (a b : Nat) : Nat := (a + b) % wordSize

def wordSub (a b : Nat) : Nat := (wordSize + a - b) % wordSize

def portByteAlignment : Nat := 8

def xHeapStructSize : Nat := 8

def heapMinimumBlockSize : Nat := 2 * xHeapStructSize

def heapBlockAllocatedBitmask : Nat := 2 ^ 31

def heapBlockSizeIsValid (size : Nat) : Bool := size < heapBlockAllocatedBitmask

def heapBlockIsAllocated (block : BlockLink) : Bool := heapBlockAllocatedBitmask ≤ block.xBlockSize

namespace Memory

variable (mem : Memory) (block : Nat)

def next : Nat := (mem block).pxNextFreeBlock

def size : Nat := (mem block).xBlockSize

def setNext (value : Nat) : Memory := fun a =>
  if a = block then { mem a with pxNextFreeBlock := value } else mem a

def setSize (value : Nat) : Memory := fun a =>
  if a = block then { mem a with xBlockSize := value } else mem a

/-- `heapALLOCATE_BLOCK`. -/
def allocate : Memory :=
  setSize mem block (size mem block % heapBlockAllocatedBitmask + heapBlockAllocatedBitmask)

/-- `heapFREE_BLOCK`. -/
def release : Memory := setSize mem block (size mem block % heapBlockAllocatedBitmask)

end Memory

/-- What the file keeps, with the address of `xStart`. -/
structure Heap5 where
  mem : Memory
  xStart : Nat
  pxEnd : Nat := 0
  xFreeBytesRemaining : Nat := 0
  xMinimumEverFreeBytesRemaining : Nat := 0
  xNumberOfSuccessfulAllocations : Nat := 0
  xNumberOfSuccessfulFrees : Nat := 0

/-- More turns than a walk that goes upwards can take. -/
def heapTurns : Nat := wordSize + 1

/-! ## Allocating -/

/-- The wanted size with room for the link, aligned. It is zero where it does not fit in a word. -/
def alignedWantedSize (wanted : Nat) : Nat :=
  if 0 < wanted then
    if wanted > heapSizeMax - xHeapStructSize then 0
    else
      let wanted := wanted + xHeapStructSize
      if wanted % portByteAlignment ≠ 0 then
        let additional := portByteAlignment - wanted % portByteAlignment
        if wanted > heapSizeMax - additional then 0 else wanted + additional
      else wanted
  else 0

/-- The loop of `pvPortMalloc` goes on past a block that is too small and not the last. -/
def mallocStops (mem : Memory) (wanted block : Nat) : Bool :=
  !(mem.size block < wanted && mem.next block != 0)

/-- The block is taken off the list, and what it has too much of is put back in its place. -/
def takeBlock (mem : Memory) (previous block wanted : Nat) : Option Memory :=
  let mem := mem.setNext previous (mem.next block)
  if mem.size block < wanted then none
  else if mem.size block - wanted > heapMinimumBlockSize then
    let newBlock := wordAdd block wanted
    if newBlock % portByteAlignment ≠ 0 then none
    else
      let mem := mem.setSize newBlock (mem.size block - wanted)
      let mem := mem.setSize block wanted
      let mem := mem.setNext newBlock (mem.next previous)
      some (mem.setNext previous newBlock)
  else some mem

/-- What `pvPortMalloc` does with the block it has found. -/
def giveBlock (h : Heap5) (previous block wanted : Nat) : Option (Nat × Heap5) :=
  let pvReturn := wordAdd (h.mem.next previous) xHeapStructSize
  if pvReturn % portByteAlignment ≠ 0 then none
  else
    match takeBlock h.mem previous block wanted with
    | none => none
    | some mem =>
      let free := wordSub h.xFreeBytesRemaining (mem.size block)
      some (pvReturn,
        { h with
          mem := (mem.allocate block).setNext block 0
          xFreeBytesRemaining := free
          xMinimumEverFreeBytesRemaining := min free h.xMinimumEverFreeBytesRemaining
          xNumberOfSuccessfulAllocations := wordAdd h.xNumberOfSuccessfulAllocations 1 })

def pvPortMalloc (h : Heap5) (wanted : Nat) : Option (Nat × Heap5) :=
  if h.pxEnd = 0 then none
  else
    let wanted := alignedWantedSize wanted
    if heapBlockSizeIsValid wanted ∧ 0 < wanted ∧ wanted ≤ h.xFreeBytesRemaining then
      match seek h.mem.next (mallocStops h.mem wanted) heapTurns h.xStart (h.mem.next h.xStart) with
      | none => none
      | some (previous, block) =>
        if block ≠ h.pxEnd then giveBlock h previous block wanted else some (0, h)
    else some (0, h)

/-- `pvPortCalloc`, before it clears the memory that it has been given. -/
def pvPortCalloc (h : Heap5) (num size : Nat) : Option (Nat × Heap5) :=
  if 0 < num ∧ size > heapSizeMax / num then some (0, h) else pvPortMalloc h (num * size)

/-! ## Freeing -/

/-- The block joins the one before it on the list, if that one ends where it begins. -/
def joinPrevious (mem : Memory) (iterator block : Nat) : Memory × Nat :=
  if wordAdd iterator (mem.size iterator) = block then
    (mem.setSize iterator (wordAdd (mem.size iterator) (mem.size block)), iterator)
  else (mem, block)

/-- The block takes in the one behind it on the list, if it ends where that one begins, and goes on
to what follows. -/
def joinNext (mem : Memory) (pxEnd iterator block : Nat) : Memory :=
  let next := mem.next iterator
  if wordAdd block (mem.size block) = next then
    if next ≠ pxEnd then
      let mem := mem.setSize block (wordAdd (mem.size block) (mem.size next))
      mem.setNext block (mem.next next)
    else mem.setNext block pxEnd
  else mem.setNext block next

def prvInsertBlockIntoFreeList (h : Heap5) (block : Nat) : Option Heap5 :=
  match seek h.mem.next (fun x => !(x < block)) heapTurns h.xStart (h.mem.next h.xStart) with
  | none => none
  | some (iterator, _) =>
    let (mem, block) := joinPrevious h.mem iterator block
    let mem := joinNext mem h.pxEnd iterator block
    some { h with mem := if iterator ≠ block then mem.setNext iterator block else mem }

def vPortFree (h : Heap5) (pv : Nat) : Option Heap5 :=
  if pv = 0 then some h
  else
    let link := wordSub pv xHeapStructSize
    if !heapBlockIsAllocated (h.mem link) ∨ h.mem.next link ≠ 0 then none
    else
      let mem := h.mem.release link
      let free := wordAdd h.xFreeBytesRemaining (mem.size link)
      match prvInsertBlockIntoFreeList { h with mem := mem, xFreeBytesRemaining := free } link with
      | none => none
      | some h => some { h with xNumberOfSuccessfulFrees := wordAdd h.xNumberOfSuccessfulFrees 1 }

def xPortResetHeapMinimumEverFreeHeapSize (h : Heap5) : Heap5 :=
  { h with xMinimumEverFreeBytesRemaining := h.xFreeBytesRemaining }

/-! ## The regions -/

/-- `HeapRegion_t`. -/
structure HeapRegion where
  pucStartAddress : Nat
  xSizeInBytes : Nat
  deriving DecidableEq, Repr

namespace HeapRegion

variable (r : HeapRegion)

/-- The first address of the region that is aligned. -/
def first : Nat :=
  if r.pucStartAddress % portByteAlignment ≠ 0 then
    wordAdd r.pucStartAddress (portByteAlignment - 1) / portByteAlignment * portByteAlignment
  else r.pucStartAddress

/-- The region's size from its first aligned address on. -/
def alignedSize : Nat := wordSub r.xSizeInBytes (wordSub r.first r.pucStartAddress)

/-- Where the region's end marker goes. -/
def marker : Nat :=
  wordSub (wordAdd r.first r.alignedSize) xHeapStructSize / portByteAlignment * portByteAlignment

end HeapRegion

/-- One turn of `vPortDefineHeapRegions`: one free block, and the end marker behind it. -/
def defineRegion (h : Heap5) (defined : Nat) (r : HeapRegion) : Option Heap5 :=
  if defined ≠ 0 ∧ (h.pxEnd = 0 ∨ r.first ≤ h.pxEnd) then none
  else
    let mem :=
      if defined = 0 then (h.mem.setNext h.xStart r.first).setSize h.xStart 0 else h.mem
    let mem := (mem.setSize r.marker 0).setNext r.marker 0
    let mem := (mem.setSize r.first (wordSub r.marker r.first)).setNext r.first r.marker
    let mem := if h.pxEnd ≠ 0 then mem.setNext h.pxEnd r.first else mem
    some { h with
      mem := mem
      pxEnd := r.marker
      xFreeBytesRemaining := wordAdd h.xFreeBytesRemaining (mem.size r.first) }

/-- The loop over the array of the regions, up to the one of size zero that ends it. -/
def defineRegions (h : Heap5) (defined : Nat) : List HeapRegion → Option Heap5
  | [] => some h
  | r :: regions =>
    if r.xSizeInBytes = 0 then some h
    else
      match defineRegion h defined r with
      | none => none
      | some h => defineRegions h (defined + 1) regions

/-- `vPortDefineHeapRegions`: the total size is gathered in the count of the free bytes. -/
def vPortDefineHeapRegions (h : Heap5) (regions : List HeapRegion) : Option Heap5 :=
  if h.pxEnd ≠ 0 then none
  else
    match defineRegions { h with xFreeBytesRemaining := 0 } 0 regions with
    | none => none
    | some h =>
      if h.xFreeBytesRemaining = 0 then none
      else some { h with xMinimumEverFreeBytesRemaining := h.xFreeBytesRemaining }

/-! ## Walking the areas -/

/-- `HeapAreaInfo_t`. -/
structure HeapAreaInfo where
  address : Nat
  size : Nat
  allocated : Bool
  deriving DecidableEq, Repr

/-- `HeapLayoutStats_t`. -/
structure HeapLayoutStats where
  usedBytes : Nat := 0
  freeBytes : Nat := 0
  usedAreas : Nat := 0
  freeAreas : Nat := 0
  deriving DecidableEq, Repr

def HeapLayoutStats.note (stats : HeapLayoutStats) (area : HeapAreaInfo) : HeapLayoutStats :=
  if area.allocated then
    { stats with usedBytes := stats.usedBytes + area.size, usedAreas := stats.usedAreas + 1 }
  else { stats with freeBytes := stats.freeBytes + area.size, freeAreas := stats.freeAreas + 1 }

/-- The loop of `visit_region`: the areas it visits, if it comes out at the end marker. -/
def visitAreas (mem : Memory) (endMarker : Nat) : Nat → Nat → Option (List HeapAreaInfo)
  | 0, _ => none
  | fuel + 1, cursor =>
    if cursor < endMarker then
      let size := mem.size cursor % heapBlockAllocatedBitmask
      if size < xHeapStructSize ∨ size % portByteAlignment ≠ 0 ∨ size > endMarker - cursor then none
      else
        (visitAreas mem endMarker fuel (cursor + size)).map
          (⟨cursor, size, heapBlockIsAllocated (mem cursor)⟩ :: ·)
    else if cursor = endMarker then some []
    else none

/-- `visit_region` of the walk for the `mem` command. -/
def visitRegion (mem : Memory) (r : HeapRegion) : Option (List HeapAreaInfo) :=
  if r.pucStartAddress % portByteAlignment ≠ 0 ∧ r.first - r.pucStartAddress ≥ r.xSizeInBytes then none
  else
    let size := r.xSizeInBytes - (r.first - r.pucStartAddress)
    if size < xHeapStructSize ∨ size > heapSizeMax - r.first then none
    else
      visitAreas mem ((r.first + size - xHeapStructSize) / portByteAlignment * portByteAlignment)
        heapTurns r.first

/-- `heapVisitRegions`: what is visited, region by region. -/
def heapVisitRegions (mem : Memory) : List HeapRegion → Option (List HeapAreaInfo)
  | [] => some []
  | r :: regions =>
    if r.xSizeInBytes = 0 then some []
    else if r.pucStartAddress = 0 then none
    else
      match visitRegion mem r with
      | none => none
      | some areas => (heapVisitRegions mem regions).map (areas ++ ·)

/-- The statistics that `heapVisitRegions` gathers from the areas. -/
def layoutStats (areas : List HeapAreaInfo) : HeapLayoutStats := areas.foldl .note {}

end CarveraFirmware.Heap
