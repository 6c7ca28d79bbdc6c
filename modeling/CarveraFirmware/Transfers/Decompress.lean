import Mathlib
import CarveraFirmware.Transfers.FileReaders
import CarveraFirmware.Transfers.Upload

/-!
# The bounds of decompressing

What the turns of `Player::decompress` read and write of its buffers, and when they end as they
should, for every file and declared size. The block decoder is taken to read at most the block it is
given and to write at most the size in the block's header, and may do both.
-/

namespace CarveraFirmware.Transfers

open Frames (be16)

/-- The size of `fbuff`. -/
def fbuffLength : Nat := 4096

/-- `qlz_size_decompressed`. -/
def qlzSizeDecompressed (source : List UInt8) : Nat :=
  if source.getD 0 0 &&& 2 = 2 then
    (source.getD 5 0).toNat + (source.getD 6 0).toNat * 2 ^ 8 + (source.getD 7 0).toNat * 2 ^ 16
      + (source.getD 8 0).toNat * 2 ^ 24
  else (source.getD 2 0).toNat

structure QuickLz where
  decompress : List UInt8 → List UInt8
  within : ∀ block, (decompress block).length ≤ qlzSizeDecompressed block

/-- The sum over decompressed bytes. -/
def sumBytes (sum : UInt16) (bytes : List UInt8) : UInt16 :=
  bytes.foldl (fun sum byte => sum + byte.toUInt16) sum

namespace Decompressing

/-- The header that the next read leaves: bytes that are missing stay from the block before. -/
def nextHeader (d : Decompressing) : List UInt8 :=
  d.input.take 4 ++ d.header.drop (min 4 d.input.length)

def nextSize (d : Decompressing) : Nat := blockSize d.nextHeader

def nextXbuff (d : Decompressing) : List UInt8 :=
  (d.input.drop 4).take d.nextSize ++ d.xbuff.drop (min d.nextSize (d.input.length - 4))

def nextBlock (d : Decompressing) : List UInt8 := d.nextXbuff.take d.nextSize

/-- The input ends within the next header or block. -/
def Cut (d : Decompressing) : Prop := d.input.length < 4 + d.nextSize

variable (qlz : QuickLz) (smoothie : Bool)

/-- After the next block, which gave some bytes. -/
def afterBlock (d : Decompressing) : Decompressing where
  input := (d.input.drop 4).drop d.nextSize
  header := d.nextHeader
  xbuff := d.nextXbuff
  fbuff :=
    if smoothie && (d.count + 1) % 11 == 0 then progressText
    else qlz.decompress d.nextBlock ++ d.fbuff.drop (qlz.decompress d.nextBlock).length
  sum := sumBytes d.sum (qlz.decompress d.nextBlock)
  count := d.count + 1
  output := d.output ++ qlz.decompress d.nextBlock

end Decompressing

/-- A header, and a block of the size that it gives. -/
def WholeBlock (b : List UInt8 × List UInt8) : Prop :=
  b.1.length = 4 ∧ blockSize b.1 = b.2.length ∧ b.2 ≠ []

/-- The bytes of blocks. -/
def blockBytes (blocks : List (List UInt8 × List UInt8)) : List UInt8 :=
  blocks.flatMap fun b => b.1 ++ b.2

namespace Unpacking

variable (qlz : QuickLz) (smoothie : Bool) (bound : UInt32)

/-- What a turn touches of the buffers: how far into one, and its size. The read of the block writes
into `xbuff`, the decoder reads there and writes into `fbuff`, and the sum reads there. -/
def accesses (u : Unpacking) : List (Nat × Nat) :=
  if u.i < bound ∧ u.d.nextSize ≠ 0 then
    [(min u.d.nextSize (u.d.input.length - 4), xbuffLength), (u.d.nextSize, xbuffLength),
      (qlzSizeDecompressed u.d.nextBlock, fbuffLength),
      ((qlz.decompress u.d.nextBlock).length, fbuffLength)]
  else []

def InBounds (u : Unpacking) : Prop := ∀ access ∈ u.accesses qlz bound, access.1 ≤ access.2

/-- What was unpacked is the whole blocks up to here, and the two bytes that come next are its
sum. -/
def Consistent (content : List UInt8) (u : Unpacking) : Prop :=
  ∃ blocks : List (List UInt8 × List UInt8), (∀ b ∈ blocks, WholeBlock b) ∧
    content = blockBytes blocks ++ u.d.input ∧
    u.d.output = blocks.flatMap (fun b => qlz.decompress b.2) ∧
    2 ≤ u.d.input.length ∧
    be16 (u.d.input.getD 0 0) (u.d.input.getD 1 0) = sumBytes 0 u.d.output

/-- Every turn stays in bounds, the loop ends, and a success is consistent. -/
def Decompresses (content : List UInt8) : Unpacking → Prop :=
  Safe (turn (BlockIo.whole qlz.decompress) smoothie bound) (InBounds qlz bound)
    fun u success => success = true → u.Consistent qlz content

/-! ## The condition -/

/-- Where blocks from the start of a file on end, as `i` counts. -/
def offset (blocks : List (List UInt8 × List UInt8)) : UInt32 :=
  UInt32.ofNat (blockBytes blocks).length

/-- A file begins with these blocks: they are whole, none is said to decompress to nothing, and each
starts below the bound of the loop. -/
structure BeginsWith (content : List UInt8) (blocks : List (List UInt8 × List UInt8))
    (rest : List UInt8) : Prop where
  split : content = blockBytes blocks ++ rest
  whole : ∀ b ∈ blocks, WholeBlock b ∧ qlzSizeDecompressed b.2 ≠ 0
  below : ∀ before b after, blocks = before ++ b :: after → offset before < bound

/-- The rest of a file, with the header and the `xbuff` that the blocks in front of it leave. -/
def behindBlocks (xbuff : List UInt8) (blocks : List (List UInt8 × List UInt8))
    (rest : List UInt8) : Decompressing where
  input := rest
  fbuff := []
  header := blocks.foldl (fun _ b => b.1) [0, 0, 0, 0]
  xbuff := blocks.foldl (fun held b => b.2 ++ held.drop b.2.length) xbuff

/-- Below the bound, a block that comes next has sizes within the buffers, and is all there or said to
decompress to nothing; from the bound on, the sum is there. -/
def RestFits (xbuff : List UInt8) (blocks : List (List UInt8 × List UInt8)) (rest : List UInt8) :
    Prop :=
  let d := behindBlocks xbuff blocks rest
  if offset blocks < bound then
    d.nextSize ≠ 0 → d.nextSize ≤ xbuffLength ∧ qlzSizeDecompressed d.nextBlock ≤ fbuffLength ∧
      (¬ d.Cut ∨ qlzSizeDecompressed d.nextBlock = 0)
  else 2 ≤ rest.length

/-- The same behind all the blocks that a file begins with. -/
def BlocksFit (content xbuff : List UInt8) : Prop :=
  ∀ blocks rest, BeginsWith bound content blocks rest → RestFits bound xbuff blocks rest

/-- One byte, and not a zero, is all that follows the blocks. -/
def LoneSumByte (content : List UInt8) : Prop :=
  ∃ blocks b, BeginsWith bound content blocks [b] ∧ ¬ offset blocks < bound ∧ b ≠ 0

/-- A file of a declared size is decompressed as it should be, whatever the decoder makes of blocks, over
either protocol, and whatever is in `fbuff`. -/
def AlwaysDecompresses (sfilesize : UInt32) (content xbuff : List UInt8) : Prop :=
  ∀ (qlz : QuickLz) (smoothie : Bool) (fbuff : List UInt8), fbuff.length = fbuffLength →
    Decompresses qlz smoothie (sfilesize - 2) content
      ⟨0, { input := content, fbuff := fbuff, xbuff := xbuff }⟩

/-! ## The places of the loop -/

def next (u : Unpacking) : Unpacking :=
  ⟨u.i + (4 + UInt32.ofNat u.d.nextSize), u.d.afterBlock qlz smoothie⟩

/-- The places that the loop comes to over whole blocks. -/
inductive Visited (start : Unpacking) : Unpacking → Prop
  | start : Visited start start
  | block {u : Unpacking} (h : Visited start u) (hi : u.i < bound) (hsize : u.d.nextSize ≠ 0)
      (hwhole : ¬ u.d.Cut) (hblock : qlz.decompress u.d.nextBlock ≠ []) :
      Visited start (u.next qlz smoothie)

/-- `fbuff` after the same block has been decompressed again and again. -/
def staleFbuff (u : Unpacking) : Nat → List UInt8
  | 0 => u.d.fbuff
  | n + 1 =>
    if smoothie && (u.d.count + n + 1) % 11 == 0 then progressText
    else qlz.decompress u.d.nextBlock
      ++ (u.staleFbuff n).drop (qlz.decompress u.d.nextBlock).length

def stalledI (u : Unpacking) (n : Nat) : UInt32 :=
  u.i + UInt32.ofNat n * (4 + UInt32.ofNat u.d.nextSize)

/-- At the end of the input, what was left in the buffers is taken for a block until `i` reaches its
bound, and the sum is then not what was left in `fbuff`. -/
def StallsWrong (u : Unpacking) : Prop :=
  ∃ n, (∀ k < n, u.stalledI k < bound) ∧ ¬ u.stalledI n < bound ∧
    u.d.sum + UInt16.ofNat n * sumBytes 0 (qlz.decompress u.d.nextBlock) ≠
      be16 ((u.staleFbuff qlz smoothie n).getD 0 0) ((u.staleFbuff qlz smoothie n).getD 1 0)

/-- A block that is to be read has sizes within the buffers and, where the input ends in it, gives
nothing or fails in the end; and the sum is there, or what was left in `fbuff` is not it. -/
def Fits (u : Unpacking) : Prop :=
  if u.i < bound then
    u.d.nextSize ≠ 0 →
      u.d.nextSize ≤ xbuffLength ∧ qlzSizeDecompressed u.d.nextBlock ≤ fbuffLength ∧
        (u.d.Cut → qlz.decompress u.d.nextBlock ≠ [] → u.StallsWrong qlz smoothie bound)
  else
    2 ≤ u.d.input.length ∨
      u.d.sum ≠ be16 ((u.d.input ++ u.d.fbuff.drop u.d.input.length).getD 0 0)
        ((u.d.input ++ u.d.fbuff.drop u.d.input.length).getD 1 0)

/-! ## One turn -/

variable {qlz smoothie bound} {u : Unpacking}

theorem fread_whole (qlz : List UInt8 → List UInt8) (k n : Nat) (buffer input : List UInt8) :
    fread (BlockIo.whole qlz) k n buffer input =
      (input.take n ++ buffer.drop (min n input.length), input.drop n) := by
  simp only [fread, BlockIo.whole]
  obtain hle | hle := Nat.le_total n input.length
  · simp [hle]
  · simp [hle, List.take_of_length_le, List.drop_of_length_le]

theorem decompressBlock_none {d : Decompressing}
    (h : d.nextSize = 0 ∨ qlz.decompress d.nextBlock = []) :
    (decompressBlock (BlockIo.whole qlz.decompress) smoothie d).2 = none := by
  simp only [decompressBlock, fread_whole]
  split
  · rfl
  · rename_i hsize
    obtain hzero | hempty := h
    · exact absurd hzero hsize
    · rw [if_pos]
      simpa [BlockIo.whole, Decompressing.nextBlock, Decompressing.nextXbuff, Decompressing.nextSize,
        Decompressing.nextHeader] using hempty

theorem decompressBlock_some {d : Decompressing} (hsize : d.nextSize ≠ 0)
    (hblock : qlz.decompress d.nextBlock ≠ []) :
    decompressBlock (BlockIo.whole qlz.decompress) smoothie d =
      (d.afterBlock qlz smoothie, some d.nextSize) := by
  have hlength : (qlz.decompress d.nextBlock).length ≠ 0 := by simpa using hblock
  simp only [decompressBlock, fread_whole]
  rw [if_neg, if_neg]
  · simp only [BlockIo.whole, List.take_length]
    simp only [Decompressing.afterBlock, Decompressing.nextBlock, Decompressing.nextXbuff,
      Decompressing.nextSize, Decompressing.nextHeader, sumBytes, List.length_drop]
  · simpa [BlockIo.whole, Decompressing.nextBlock, Decompressing.nextXbuff, Decompressing.nextSize,
      Decompressing.nextHeader] using hblock
  · exact hsize

theorem turn_stop (hi : u.i < bound) (h : u.d.nextSize = 0 ∨ qlz.decompress u.d.nextBlock = []) :
    u.turn (BlockIo.whole qlz.decompress) smoothie bound = .inr false := by
  have hnone : (decompressBlock (BlockIo.whole qlz.decompress) smoothie u.d).2 = none :=
    decompressBlock_none h
  rw [turn, if_pos hi]
  cases hblock : decompressBlock (BlockIo.whole qlz.decompress) smoothie u.d with
  | mk d size =>
    rw [hblock] at hnone
    subst hnone
    rfl

theorem turn_next (hi : u.i < bound) (hsize : u.d.nextSize ≠ 0)
    (hblock : qlz.decompress u.d.nextBlock ≠ []) :
    u.turn (BlockIo.whole qlz.decompress) smoothie bound = .inl (u.next qlz smoothie) := by
  rw [turn, if_pos hi, decompressBlock_some hsize hblock]
  rfl

theorem turn_check (hi : ¬ u.i < bound) :
    u.turn (BlockIo.whole qlz.decompress) smoothie bound = .inr (decide (u.d.sum =
      be16 ((u.d.input.take 2 ++ u.d.fbuff.drop (min 2 u.d.input.length)).getD 0 0)
        ((u.d.input.take 2 ++ u.d.fbuff.drop (min 2 u.d.input.length)).getD 1 0))) := by
  rw [turn, if_neg hi]
  simp only [checkSum, fread_whole]
  congr 1

theorem inBounds_iff (hi : u.i < bound) (hsize : u.d.nextSize ≠ 0) :
    u.InBounds qlz bound ↔
      u.d.nextSize ≤ xbuffLength ∧ qlzSizeDecompressed u.d.nextBlock ≤ fbuffLength := by
  have hwithin := qlz.within u.d.nextBlock
  rw [InBounds, accesses, if_pos ⟨hi, hsize⟩]
  simp only [List.forall_mem_cons, List.not_mem_nil, false_implies, implies_true, and_true]
  omega

theorem inBounds_of_idle (h : ¬ u.i < bound ∨ u.d.nextSize = 0) : u.InBounds qlz bound := by
  rw [InBounds, accesses, if_neg (by tauto)]
  nofun

/-! ## Whole blocks -/

theorem nextSize_of_le {d : Decompressing} (h : 4 ≤ d.input.length) :
    d.nextSize = blockSize (d.input.take 4) := by
  have hlength : (d.input.take 4).length = 4 := by rw [List.length_take, Nat.min_eq_left h]
  simp only [Decompressing.nextSize, Decompressing.nextHeader, blockSize]
  rw [List.getD_append _ _ _ _ (by omega), List.getD_append _ _ _ _ (by omega),
    List.getD_append _ _ _ _ (by omega), List.getD_append _ _ _ _ (by omega)]

/-- A block that is not cut short is taken out of the input as it stands there. -/
theorem exists_block {d : Decompressing} (hsize : d.nextSize ≠ 0) (hwhole : ¬ d.Cut) :
    ∃ b, WholeBlock b ∧ d.input = b.1 ++ b.2 ++ (d.input.drop 4).drop d.nextSize ∧
      d.nextBlock = b.2 := by
  rw [Decompressing.Cut, Nat.not_lt] at hwhole
  have hbody : ((d.input.drop 4).take d.nextSize).length = d.nextSize := by
    rw [List.length_take, List.length_drop]
    omega
  refine ⟨(d.input.take 4, (d.input.drop 4).take d.nextSize), ⟨?_, ?_, ?_⟩, ?_, ?_⟩
  · rw [List.length_take]
    omega
  · rw [hbody, ← nextSize_of_le (by omega)]
  · exact fun hempty => hsize (hbody.symm.trans (congrArg List.length hempty))
  · rw [List.append_assoc, List.take_append_drop, List.take_append_drop]
  · rw [Decompressing.nextBlock, Decompressing.nextXbuff, List.take_left' hbody]

theorem sumBytes_append (sum : UInt16) (bytes bytes' : List UInt8) :
    sumBytes sum (bytes ++ bytes') = sumBytes (sumBytes sum bytes) bytes' := by
  simp [sumBytes]

theorem sumBytes_add (sum : UInt16) (bytes : List UInt8) :
    sumBytes sum bytes = sum + sumBytes 0 bytes := by
  induction bytes generalizing sum with
  | nil => simp [sumBytes]
  | cons byte bytes ih =>
    have h (sum : UInt16) :
        sumBytes sum (byte :: bytes) = sumBytes (sum + byte.toUInt16) bytes := rfl
    rw [h, h, ih, ih (0 + byte.toUInt16), UInt16.zero_add, UInt16.add_assoc]

/-- Whole blocks lie behind the place, and were unpacked. -/
def Behind (qlz : QuickLz) (content : List UInt8) (u : Unpacking) : Prop :=
  u.d.sum = sumBytes 0 u.d.output ∧
    ∃ blocks : List (List UInt8 × List UInt8), (∀ b ∈ blocks, WholeBlock b) ∧
      content = blockBytes blocks ++ u.d.input ∧
      u.d.output = blocks.flatMap (fun b => qlz.decompress b.2)

theorem Visited.behind {content xbuff fbuff : List UInt8}
    (h : Visited qlz smoothie bound ⟨0, { input := content, fbuff := fbuff, xbuff := xbuff }⟩ u) :
    u.Behind qlz content := by
  induction h with
  | start => exact ⟨rfl, [], nofun, rfl, rfl⟩
  | @block u _ hi hsize hwhole hblock ih =>
    obtain ⟨hsum, blocks, hblocks, hcontent, houtput⟩ := ih
    obtain ⟨b, hb, hinput, hnext⟩ := exists_block hsize hwhole
    refine ⟨?_, blocks ++ [b], ?_, ?_, ?_⟩
    · simp only [next, Decompressing.afterBlock]
      rw [sumBytes_append, ← hsum]
    · intro b' hb'
      obtain hb' | hb' := List.mem_append.mp hb'
      · exact hblocks b' hb'
      · exact List.mem_singleton.mp hb' ▸ hb
    · rw [hcontent]
      conv_lhs => rw [hinput]
      simp [next, Decompressing.afterBlock, blockBytes]
    · simp [next, Decompressing.afterBlock, houtput, hnext]

/-! ## The end of the input -/

/-- A read of nothing leaves the buffer as it is. -/
theorem append_of_nothing_read (n : Nat) (buffer : List UInt8) :
    (List.drop 4 []).take n ++ buffer.drop (min n (([] : List UInt8).length - 4)) = buffer := by
  simp

/-- With nothing left to read, the header and the block are found that were read last. -/
theorem reread {d e : Decompressing} (hinput : e.input = []) (hheader : e.header = d.nextHeader)
    (hxbuff : e.xbuff = d.nextXbuff) :
    e.Cut ∧ e.nextSize = d.nextSize ∧ e.nextBlock = d.nextBlock := by
  have hnext : e.nextHeader = d.nextHeader := by
    rw [Decompressing.nextHeader, hinput, hheader]
    simp only [List.take_nil, List.length_nil, Nat.min_zero, List.drop_zero, List.nil_append]
  have hsize : e.nextSize = d.nextSize := congrArg blockSize hnext
  have hkept : e.nextXbuff = d.nextXbuff := by
    rw [Decompressing.nextXbuff, hinput, hxbuff, append_of_nothing_read]
  refine ⟨?_, hsize, ?_⟩
  · rw [Decompressing.Cut, hinput, List.length_nil]
    exact Nat.add_pos_left (Nat.succ_pos 3) _
  · rw [Decompressing.nextBlock, hkept, hsize, Decompressing.nextBlock]

theorem input_afterBlock_of_cut {d : Decompressing} (h : d.Cut) :
    (d.afterBlock qlz smoothie).input = [] := by
  have hleft : (d.afterBlock qlz smoothie).input = (d.input.drop 4).drop d.nextSize := by
    simp only [Decompressing.afterBlock]
  rw [hleft, List.drop_drop, List.drop_of_length_le (Nat.le_of_lt h)]

/-- The places that follow when every turn takes a block. -/
def stalled (qlz : QuickLz) (smoothie : Bool) (u : Unpacking) : Nat → Unpacking
  | 0 => u
  | n + 1 => (u.stalled qlz smoothie n).next qlz smoothie

/-- The same block is added to the sum in each of them. -/
theorem stalled_eq (qlz : QuickLz) (smoothie : Bool) (h : u.d.Cut) (n : Nat) :
    (u.stalled qlz smoothie n).d.Cut ∧ (0 < n → (u.stalled qlz smoothie n).d.input = []) ∧
      (u.stalled qlz smoothie n).d.nextSize = u.d.nextSize ∧
      (u.stalled qlz smoothie n).d.nextBlock = u.d.nextBlock ∧
      (u.stalled qlz smoothie n).i = u.stalledI n ∧
      (u.stalled qlz smoothie n).d.count = u.d.count + n ∧
      (u.stalled qlz smoothie n).d.fbuff = u.staleFbuff qlz smoothie n ∧
      (u.stalled qlz smoothie n).d.sum =
        u.d.sum + UInt16.ofNat n * sumBytes 0 (qlz.decompress u.d.nextBlock) := by
  induction n with
  | zero => simp [stalled, stalledI, staleFbuff, h]
  | succ n ih =>
    obtain ⟨hcut, -, hsize, hblock, hi, hcount, hfbuff, hsum⟩ := ih
    have hinput' : (u.stalled qlz smoothie (n + 1)).d.input = [] := input_afterBlock_of_cut hcut
    obtain ⟨hcut', hsize', hblock'⟩ := reread hinput' rfl rfl
    refine ⟨hcut', fun _ => hinput', hsize'.trans hsize, hblock'.trans hblock, ?_, ?_, ?_, ?_⟩
    · simp only [stalled, next]
      rw [hi, hsize, stalledI, stalledI, UInt32.ofNat_add, UInt32.add_mul, UInt32.add_assoc]
      simp
    · simp only [stalled, next, Decompressing.afterBlock]
      rw [hcount, Nat.add_assoc]
    · simp only [stalled, next, Decompressing.afterBlock, staleFbuff]
      rw [hcount, hblock, hfbuff]
    · simp only [stalled, next, Decompressing.afterBlock]
      rw [hblock, hsum, sumBytes_add, UInt16.ofNat_add, UInt16.add_mul, UInt16.add_assoc]
      simp

/-! ## What the loop does from a place -/

variable {content : List UInt8}

theorem decompresses_of_stop (hi : u.i < bound)
    (h : u.d.nextSize = 0 ∨ qlz.decompress u.d.nextBlock = []) :
    u.Decompresses qlz smoothie bound content ↔ u.InBounds qlz bound := by
  rw [Decompresses, safe_iff_of_halts (turn_stop hi h)]
  exact and_iff_left nofun

theorem decompresses_of_block (hi : u.i < bound) (hsize : u.d.nextSize ≠ 0)
    (hblock : qlz.decompress u.d.nextBlock ≠ []) :
    u.Decompresses qlz smoothie bound content ↔
      u.InBounds qlz bound ∧ (u.next qlz smoothie).Decompresses qlz smoothie bound content :=
  safe_iff_of_step (turn_next hi hsize hblock)

theorem getD_read_of_lt {k n : Nat} {input : List UInt8} (buffer : List UInt8) (hk : k < n)
    (h : n ≤ input.length) :
    (input.take n ++ buffer.drop (min n input.length)).getD k 0 = input.getD k 0 := by
  rw [List.getD_append _ _ _ _ (by rw [List.length_take]; omega)]
  simp [List.getD_eq_getElem?_getD, hk]

theorem read_of_le {n : Nat} {input : List UInt8} (buffer : List UInt8) (h : input.length ≤ n) :
    input.take n ++ buffer.drop (min n input.length) = input ++ buffer.drop input.length := by
  rw [List.take_of_length_le h, Nat.min_eq_right h]

/-- Behind the last block, only a sum that is not there can be wrong. -/
theorem decompresses_of_check (hi : ¬ u.i < bound) (hu : u.Behind qlz content) :
    u.Decompresses qlz smoothie bound content ↔ u.Fits qlz smoothie bound := by
  obtain ⟨hsum, blocks, hblocks, hcontent, houtput⟩ := hu
  rw [Decompresses, safe_iff_of_halts (turn_check hi), Fits, if_neg hi,
    and_iff_right (inBounds_of_idle (.inl hi)), decide_eq_true_iff]
  by_cases hlength : 2 ≤ u.d.input.length
  · refine iff_of_true (fun h => ⟨blocks, hblocks, hcontent, houtput, hlength, ?_⟩) (.inl hlength)
    rw [← hsum, h, getD_read_of_lt _ (by omega) hlength, getD_read_of_lt _ (by omega) hlength]
  · rw [or_iff_right hlength, read_of_le _ (by omega)]
    refine ⟨fun h hmatch => ?_, fun h hmatch => absurd hmatch h⟩
    obtain ⟨-, -, -, -, hlength', -⟩ := h hmatch
    exact hlength hlength'

/-- Where the input ends in a block, the loop goes on with what it read last. -/
theorem decompresses_of_cut (hi : u.i < bound) (hsize : u.d.nextSize ≠ 0) (hcut : u.d.Cut)
    (hblock : qlz.decompress u.d.nextBlock ≠ []) :
    u.Decompresses qlz smoothie bound content ↔
      u.InBounds qlz bound ∧ u.StallsWrong qlz smoothie bound := by
  -- From the cut on the loop reads nothing more and only counts, so it goes along a path that is
  -- known.
  have hpath : u.Decompresses qlz smoothie bound content ↔ _ :=
    safe_iff_of_path (u.stalled qlz smoothie) (fun k => (u.stalled qlz smoothie k).i < bound)
      (fun k hk => turn_next hk (by rwa [(stalled_eq qlz smoothie hcut k).2.2.1])
        (by rwa [(stalled_eq qlz smoothie hcut k).2.2.2.1]))
      (fun k hk => turn_check hk)
  refine hpath.trans ?_
  constructor
  · rintro ⟨n, hlt, hn, hinv, hpost⟩
    have hpos : 0 < n := Nat.pos_of_ne_zero fun hzero => hn (hzero ▸ hi)
    obtain ⟨-, hinput, -, -, hin, -, hfbuff, hsum⟩ := stalled_eq qlz smoothie hcut n
    refine ⟨hinv 0 (Nat.zero_le n), n, fun k hk => ?_, ?_, fun hmatch => ?_⟩
    · rw [← (stalled_eq qlz smoothie hcut k).2.2.2.2.1]
      exact hlt k hk
    · rwa [← hin]
    · have hlength := (hpost (decide_eq_true ?_)).choose_spec.2.2.2.1
      · rw [hinput hpos] at hlength
        exact absurd hlength (by simp)
      · rw [hsum, hmatch, hinput hpos, hfbuff]
        rfl
  · rintro ⟨hinv, n, hlt, hn, hmatch⟩
    have hpos : 0 < n := Nat.pos_of_ne_zero fun hzero => hn (by simpa [hzero, stalledI] using hi)
    have hi' (k : Nat) : (u.stalled qlz smoothie k).i = u.stalledI k :=
      (stalled_eq qlz smoothie hcut k).2.2.2.2.1
    obtain ⟨-, hinput, -, -, -, -, hfbuff, hsum⟩ := stalled_eq qlz smoothie hcut n
    refine ⟨n, fun k hk => hi' k ▸ hlt k hk, hi' n ▸ hn, fun k hk => ?_, fun hsuccess => ?_⟩
    · obtain ⟨-, -, hsize', hblock', -⟩ := stalled_eq qlz smoothie hcut k
      by_cases hk' : (u.stalled qlz smoothie k).i < bound
      · rw [inBounds_iff hk' (by rwa [hsize']), hsize', hblock']
        exact (inBounds_iff hi hsize).mp hinv
      · exact inBounds_of_idle (.inl hk')
    · refine absurd (of_decide_eq_true hsuccess) ?_
      rw [hsum, hinput hpos, hfbuff]
      exact hmatch

/-- Where no block is left over from here, the condition says what the loop does. -/
theorem decompresses_iff_fits (hu : u.Behind qlz content)
    (h : u.i < bound → u.d.nextSize ≠ 0 → qlz.decompress u.d.nextBlock ≠ [] → u.d.Cut) :
    u.Decompresses qlz smoothie bound content ↔ u.Fits qlz smoothie bound := by
  by_cases hi : u.i < bound
  · rw [Fits, if_pos hi]
    by_cases hsize : u.d.nextSize = 0
    · rw [decompresses_of_stop hi (.inl hsize)]
      exact iff_of_true (inBounds_of_idle (.inr hsize)) fun hne => absurd hsize hne
    · rw [imp_iff_right hsize, ← and_assoc, ← inBounds_iff hi hsize]
      by_cases hblock : qlz.decompress u.d.nextBlock = []
      · rw [decompresses_of_stop hi (.inr hblock)]
        exact (and_iff_left fun _ hne => absurd hblock hne).symm
      · have hcut := h hi hsize hblock
        rw [decompresses_of_cut hi hsize hcut hblock, imp_iff_right hcut, imp_iff_right hblock]
  · exact decompresses_of_check hi hu

theorem next_input_lt (hwhole : ¬ u.d.Cut) :
    (u.next qlz smoothie).d.input.length < u.d.input.length := by
  have hleft : (u.next qlz smoothie).d.input = (u.d.input.drop 4).drop u.d.nextSize := by
    simp only [next, Decompressing.afterBlock]
  rw [Decompressing.Cut, Nat.not_lt] at hwhole
  rw [hleft, List.length_drop, List.length_drop]
  omega

/-- Decompressing is in bounds, ends and succeeds with a consistent file only, exactly if what it
finds at every place over whole blocks fits. -/
theorem decompresses_iff (qlz : QuickLz) (smoothie : Bool) (sfilesize : UInt32)
    (content xbuff fbuff : List UInt8) :
    Decompresses qlz smoothie (sfilesize - 2) content
        ⟨0, { input := content, fbuff := fbuff, xbuff := xbuff }⟩ ↔
      ∀ u, Visited qlz smoothie (sfilesize - 2)
          ⟨0, { input := content, fbuff := fbuff, xbuff := xbuff }⟩ u →
        u.Fits qlz smoothie (sfilesize - 2) := by
  constructor
  · intro hstart u hu
    have hdec : u.Decompresses qlz smoothie (sfilesize - 2) content := by
      induction hu with
      | start => exact hstart
      | block _ hi hsize _ hblock ih => exact ((decompresses_of_block hi hsize hblock).mp ih).2
    by_cases hleft : u.i < sfilesize - 2 → u.d.nextSize ≠ 0 → qlz.decompress u.d.nextBlock ≠ [] →
        u.d.Cut
    · exact (decompresses_iff_fits hu.behind hleft).mp hdec
    · -- a whole block, which the loop took
      push Not at hleft
      obtain ⟨hi, hsize, hblock, hwhole⟩ := hleft
      obtain ⟨hfit, hfit'⟩ :=
        (inBounds_iff hi hsize).mp ((decompresses_of_block hi hsize hblock).mp hdec).1
      rw [Fits, if_pos hi]
      exact fun _ => ⟨hfit, hfit', fun hcut => absurd hcut hwhole⟩
  · intro hfits
    suffices h : ∀ n u, u.d.input.length ≤ n → Visited qlz smoothie (sfilesize - 2)
        ⟨0, { input := content, fbuff := fbuff, xbuff := xbuff }⟩ u →
        u.Decompresses qlz smoothie (sfilesize - 2) content from h _ _ le_rfl .start
    -- every whole block makes the input shorter
    intro n
    induction n with
    | zero =>
      intro u hn hu
      refine (decompresses_iff_fits hu.behind fun _ _ _ => ?_).mpr (hfits u hu)
      rw [Decompressing.Cut]
      omega
    | succ n ih =>
      intro u hn hu
      by_cases hleft : u.i < sfilesize - 2 → u.d.nextSize ≠ 0 → qlz.decompress u.d.nextBlock ≠ [] →
          u.d.Cut
      · exact (decompresses_iff_fits hu.behind hleft).mpr (hfits u hu)
      · push Not at hleft
        obtain ⟨hi, hsize, hblock, hwhole⟩ := hleft
        have hfit := hfits u hu
        rw [Fits, if_pos hi] at hfit
        obtain ⟨hxbuff, hfbuff, -⟩ := hfit hsize
        refine (decompresses_of_block hi hsize hblock).mpr
          ⟨(inBounds_iff hi hsize).mpr ⟨hxbuff, hfbuff⟩, ih _ ?_ (hu.block hi hsize hwhole hblock)⟩
        exact Nat.le_of_lt_succ ((next_input_lt hwhole).trans_le hn)

/-! ## The blocks of the file -/

section Blocks

variable {blocks : List (List UInt8 × List UInt8)} {b : List UInt8 × List UInt8}
variable {content rest xbuff fbuff : List UInt8}

theorem offset_concat (hb : WholeBlock b) :
    offset (blocks ++ [b]) = offset blocks + (4 + UInt32.ofNat b.2.length) := by
  have hlength : (blockBytes (blocks ++ [b])).length =
      (blockBytes blocks).length + (4 + b.2.length) := by
    simp [blockBytes, hb.1]
  rw [offset, hlength, UInt32.ofNat_add, UInt32.ofNat_add]
  rfl

theorem BeginsWith.concat (h : BeginsWith bound content blocks (b.1 ++ b.2 ++ rest))
    (hb : WholeBlock b) (hsize : qlzSizeDecompressed b.2 ≠ 0) (hi : offset blocks < bound) :
    BeginsWith bound content (blocks ++ [b]) rest where
  split := by
    rw [h.split]
    simp [blockBytes]
  whole := by
    intro b' hb'
    obtain hb' | hb' := List.mem_append.mp hb'
    · exact h.whole b' hb'
    · rw [List.mem_singleton.mp hb']
      exact ⟨hb, hsize⟩
  below := by
    intro before b' after heq
    cases after using List.reverseRecOn with
    | nil =>
      obtain ⟨rfl, -⟩ := List.append_inj' heq rfl
      exact hi
    | append_singleton after last _ =>
      have hshort : blocks ++ [b] = (before ++ b' :: after) ++ [last] := by simpa using heq
      obtain ⟨hblocks, -⟩ := List.append_inj' hshort rfl
      exact h.below before b' after hblocks

theorem BeginsWith.of_concat (h : BeginsWith bound content (blocks ++ [b]) rest) :
    BeginsWith bound content blocks (b.1 ++ b.2 ++ rest) ∧ offset blocks < bound where
  left :=
    { split := by
        rw [h.split]
        simp [blockBytes]
      whole := fun b' hb' => h.whole b' (List.mem_append_left _ hb')
      below := fun before b' after heq => h.below before b' (after ++ [b]) (by simp [heq]) }
  right := h.below blocks b [] rfl

/-- What the loop reads of a whole block. -/
theorem next_of_wholeBlock {d : Decompressing} (hb : WholeBlock b)
    (hinput : d.input = b.1 ++ b.2 ++ rest) (hheader : d.header.length = 4) :
    d.nextHeader = b.1 ∧ d.nextSize = b.2.length ∧ ¬ d.Cut ∧
      d.nextXbuff = b.2 ++ d.xbuff.drop b.2.length ∧ d.nextBlock = b.2 ∧
      (d.input.drop 4).drop d.nextSize = rest := by
  obtain ⟨hfour, hbody, -⟩ := hb
  have hlength : d.input.length = 4 + b.2.length + rest.length := by
    rw [hinput, List.length_append, List.length_append, hfour]
  have hdrop : d.input.drop 4 = b.2 ++ rest := by
    rw [hinput, List.append_assoc, List.drop_left' hfour]
  have hnext : d.nextHeader = b.1 := by
    rw [Decompressing.nextHeader, Nat.min_eq_left (by omega), List.drop_of_length_le hheader.le,
      List.append_nil, hinput, List.append_assoc, List.take_left' hfour]
  have hsize : d.nextSize = b.2.length := by rw [Decompressing.nextSize, hnext, hbody]
  have hxbuff : d.nextXbuff = b.2 ++ d.xbuff.drop b.2.length := by
    rw [Decompressing.nextXbuff, hsize, hdrop, List.take_left, Nat.min_eq_left (by omega)]
  refine ⟨hnext, hsize, ?_, hxbuff, ?_, ?_⟩
  · rw [Decompressing.Cut, hsize]
    omega
  · rw [Decompressing.nextBlock, hxbuff, hsize, List.take_left]
  · rw [hdrop, hsize, List.drop_left]

/-- A place of the loop has the counter and the buffers that the blocks in front of it leave. -/
structure StandsBehind (xbuff : List UInt8) (blocks : List (List UInt8 × List UInt8))
    (u : Unpacking) : Prop where
  i : u.i = offset blocks
  header : u.d.header = (behindBlocks xbuff blocks u.d.input).header
  xbuff : u.d.xbuff = (behindBlocks xbuff blocks u.d.input).xbuff
  header_length : u.d.header.length = 4

theorem StandsBehind.start :
    StandsBehind xbuff [] ⟨0, { input := content, fbuff := fbuff, xbuff := xbuff }⟩ :=
  ⟨rfl, rfl, rfl, rfl⟩

theorem StandsBehind.next (h : StandsBehind xbuff blocks u) (hb : WholeBlock b)
    (hinput : u.d.input = b.1 ++ b.2 ++ rest) :
    StandsBehind xbuff (blocks ++ [b]) (u.next qlz smoothie) ∧
      (u.next qlz smoothie).d.input = rest := by
  obtain ⟨hheader, hsize, -, hxbuff, -, hrest⟩ := next_of_wholeBlock hb hinput h.header_length
  refine ⟨⟨?_, ?_, ?_, ?_⟩, hrest⟩
  · show u.i + (4 + UInt32.ofNat u.d.nextSize) = _
    rw [h.i, hsize, offset_concat hb]
  · show u.d.nextHeader = _
    rw [hheader, behindBlocks, List.foldl_append]
    rfl
  · show u.d.nextXbuff = _
    rw [hxbuff, h.xbuff, behindBlocks, behindBlocks]
    simp only [List.foldl_append]
    rfl
  · show u.d.nextHeader.length = 4
    rw [hheader, hb.1]

/-- What is read next there. -/
theorem StandsBehind.reads (h : StandsBehind xbuff blocks u) :
    u.d.nextSize = (behindBlocks xbuff blocks u.d.input).nextSize ∧
      u.d.nextBlock = (behindBlocks xbuff blocks u.d.input).nextBlock ∧
      (u.d.Cut ↔ (behindBlocks xbuff blocks u.d.input).Cut) := by
  have hheader : u.d.nextHeader = (behindBlocks xbuff blocks u.d.input).nextHeader := by
    rw [Decompressing.nextHeader, h.header]
    rfl
  have hsize : u.d.nextSize = (behindBlocks xbuff blocks u.d.input).nextSize :=
    congrArg blockSize hheader
  refine ⟨hsize, ?_, ?_⟩
  · rw [Decompressing.nextBlock, Decompressing.nextXbuff, hsize, h.xbuff]
    rfl
  · rw [Decompressing.Cut, Decompressing.Cut, hsize]
    rfl

/-- Every place over whole blocks stands behind blocks that the file begins with. -/
theorem Visited.standsBehind
    (h : Visited qlz smoothie bound ⟨0, { input := content, fbuff := fbuff, xbuff := xbuff }⟩ u) :
    ∃ blocks, BeginsWith bound content blocks u.d.input ∧ StandsBehind xbuff blocks u := by
  induction h with
  | start => exact ⟨[], ⟨rfl, nofun, by simp⟩, .start⟩
  | @block u _ hi hsize hwhole hblock ih =>
    obtain ⟨blocks, hbegins, hstands⟩ := ih
    obtain ⟨b, hb, hinput, hnext⟩ := exists_block hsize hwhole
    have hdec : qlzSizeDecompressed b.2 ≠ 0 := by
      intro hzero
      have hle := qlz.within u.d.nextBlock
      rw [hnext, hzero] at hle
      rw [hnext] at hblock
      exact hblock (List.eq_nil_of_length_eq_zero (Nat.le_zero.mp hle))
    obtain ⟨hafter, hrest⟩ := hstands.next hb hinput
    rw [hinput] at hbegins
    refine ⟨blocks ++ [b], ?_, hafter⟩
    rw [hrest]
    exact hbegins.concat hb hdec (hstands.i ▸ hi)

theorem fits_of_blocksFit (hfit : BlocksFit bound content xbuff)
    (h : Visited qlz smoothie bound ⟨0, { input := content, fbuff := fbuff, xbuff := xbuff }⟩ u) :
    u.Fits qlz smoothie bound := by
  obtain ⟨blocks, hbegins, hstands⟩ := h.standsBehind
  obtain ⟨hsize, hblock, hcut⟩ := hstands.reads
  have hrest := hfit blocks _ hbegins
  rw [RestFits, ← hstands.i] at hrest
  rw [Fits]
  split at hrest
  · rename_i hi
    rw [if_pos hi, hsize, hblock, hcut]
    intro hne
    obtain ⟨hxbuff, hfbuff, hthere⟩ := hrest hne
    refine ⟨hxbuff, hfbuff, fun hc hgives => ?_⟩
    have hnothing := hthere.resolve_left (not_not.mpr hc)
    have hle := qlz.within (behindBlocks xbuff blocks u.d.input).nextBlock
    rw [hnothing] at hle
    exact absurd (List.eq_nil_of_length_eq_zero (Nat.le_zero.mp hle)) hgives
  · rename_i hi
    rw [if_neg hi]
    exact .inl hrest

/-! ### A decoder that gives zeros -/

/-- As many zeros as the header of a block says. -/
def zeros : QuickLz where
  decompress block := List.replicate (qlzSizeDecompressed block) 0
  within block := by rw [List.length_replicate]

theorem sumBytes_replicate (sum : UInt16) (n : Nat) : sumBytes sum (List.replicate n 0) = sum := by
  induction n with
  | zero => rfl
  | succ n ih =>
    rw [List.replicate_succ]
    show sumBytes (sum + (0 : UInt8).toUInt16) (List.replicate n 0) = sum
    rw [show (0 : UInt8).toUInt16 = 0 from rfl, UInt16.add_zero, ih]

theorem getD_of_zeros {bytes : List UInt8} (h : ∀ byte ∈ bytes, byte = 0) (k : Nat) :
    bytes.getD k 0 = 0 := by
  rw [List.getD_eq_getElem?_getD]
  cases hk : bytes[k]? with
  | none => rfl
  | some byte => exact h byte (List.mem_of_getElem? hk)

theorem zeros_append_drop {bytes : List UInt8} (h : ∀ byte ∈ bytes, byte = 0) (n k : Nat) :
    ∀ byte ∈ List.replicate n 0 ++ bytes.drop k, byte = 0 := by
  intro byte hbyte
  obtain hbyte | hbyte := List.mem_append.mp hbyte
  · exact List.eq_of_mem_replicate hbyte
  · exact h byte (List.mem_of_mem_drop hbyte)

theorem be16_of_zeros {bytes : List UInt8} (h : ∀ byte ∈ bytes, byte = 0) :
    be16 (bytes.getD 0 0) (bytes.getD 1 0) = 0 := by
  rw [getD_of_zeros h, getD_of_zeros h]
  rfl

/-- With zeros for blocks, the loop comes behind all blocks that the file begins with, and the sum and
`fbuff` stay zero. -/
theorem BeginsWith.visited (h : BeginsWith bound content blocks rest) :
    ∃ u, Visited zeros false bound
        ⟨0, { input := content, fbuff := List.replicate fbuffLength 0, xbuff := xbuff }⟩ u ∧
      StandsBehind xbuff blocks u ∧ u.d.input = rest ∧ u.d.sum = 0 ∧ ∀ byte ∈ u.d.fbuff, byte = 0 := by
  induction blocks using List.reverseRecOn generalizing rest with
  | nil =>
    obtain rfl : content = rest := h.split
    exact ⟨_, .start, .start, rfl, rfl, fun byte hbyte => List.eq_of_mem_replicate hbyte⟩
  | append_singleton blocks b ih =>
    obtain ⟨hbefore, hi⟩ := h.of_concat
    obtain ⟨hb, hdec⟩ := h.whole b (by simp)
    obtain ⟨u, hvisited, hstands, hinput, hsum, hfbuff⟩ := ih hbefore
    obtain ⟨hafter, hrest⟩ := @StandsBehind.next zeros false u blocks b rest xbuff hstands hb hinput
    obtain ⟨-, hsize, hcut, -, hblock, -⟩ := next_of_wholeBlock hb hinput hstands.header_length
    refine ⟨u.next zeros false, hvisited.block (hstands.i ▸ hi) ?_ hcut ?_, hafter, hrest, ?_, ?_⟩
    · rw [hsize]
      exact fun hzero => hb.2.2 (List.eq_nil_of_length_eq_zero hzero)
    · rw [hblock]
      exact fun hnil => hdec (by simpa [zeros] using hnil)
    · show sumBytes u.d.sum (List.replicate _ 0) = 0
      rw [sumBytes_replicate, hsum]
    · exact zeros_append_drop hfbuff _ _

theorem staleFbuff_zeros (hfbuff : ∀ byte ∈ u.d.fbuff, byte = 0) (n : Nat) :
    ∀ byte ∈ u.staleFbuff zeros false n, byte = 0 := by
  induction n with
  | zero => exact hfbuff
  | succ n ih => exact zeros_append_drop ih _ _

/-- The zeros add up to what is found where no sum is. -/
theorem not_stallsWrong_zeros (hsum : u.d.sum = 0) (hfbuff : ∀ byte ∈ u.d.fbuff, byte = 0) :
    ¬ u.StallsWrong zeros false bound := by
  rintro ⟨n, -, -, hwrong⟩
  refine hwrong ?_
  rw [be16_of_zeros (staleFbuff_zeros hfbuff n), hsum]
  show 0 + UInt16.ofNat n * sumBytes 0 (List.replicate _ 0) = 0
  rw [sumBytes_replicate, UInt16.mul_zero, UInt16.add_zero]

end Blocks

theorem inBounds_read (h : u.InBounds qlz bound) (hi : u.i < bound) (hsize : u.d.nextSize ≠ 0) :
    min u.d.nextSize (u.d.input.length - 4) ≤ xbuffLength := by
  rw [InBounds, accesses, if_pos ⟨hi, hsize⟩] at h
  exact h _ (List.mem_cons_self ..)

/-- Decompressing always stays in bounds, ends and succeeds with a consistent file only, if the blocks of
the file fit. Where it always does, they fit, or a file ends in a single byte of its sum, which zeros
do not reach. -/
theorem blocks_decompress (sfilesize : UInt32) (content xbuff : List UInt8) :
    (BlocksFit (sfilesize - 2) content xbuff → AlwaysDecompresses sfilesize content xbuff) ∧
      (AlwaysDecompresses sfilesize content xbuff →
        BlocksFit (sfilesize - 2) content xbuff ∨ LoneSumByte (sfilesize - 2) content) := by
  constructor
  · intro hfit qlz smoothie fbuff _
    exact (decompresses_iff qlz smoothie sfilesize content xbuff fbuff).mpr fun u hu =>
      fits_of_blocksFit hfit hu
  · intro halways
    by_contra hnot
    rw [not_or] at hnot
    obtain ⟨hnot, hlone⟩ := hnot
    refine hnot fun blocks rest hbegins => ?_
    obtain ⟨u, hvisited, hstands, rfl, hsum, hfbuff⟩ := @BeginsWith.visited _ _ _ _ xbuff hbegins
    obtain ⟨hsize, hblock, hcut⟩ := hstands.reads
    -- a decompressor that gives zeros shows what fails where the blocks do not fit
    have hfits := (decompresses_iff zeros false sfilesize content xbuff _).mp
      (halways zeros false _ List.length_replicate) u hvisited
    rw [Fits, hstands.i, hsize, hblock, hcut] at hfits
    rw [RestFits]
    split at hfits
    · rename_i hi
      rw [if_pos hi]
      intro hne
      obtain ⟨hxbuff, hwithin, hstalls⟩ := hfits hne
      refine ⟨hxbuff, hwithin, ?_⟩
      by_contra hleft
      rw [not_or, not_not] at hleft
      refine not_stallsWrong_zeros hsum hfbuff (hstalls hleft.1 fun hnil => hleft.2 ?_)
      simpa [zeros] using hnil
    · rename_i hi
      rw [if_neg hi]
      by_contra hshort
      have hwrong := hfits.resolve_left hshort
      rw [hsum] at hwrong
      rw [not_le] at hshort
      cases hinput : u.d.input with
      | nil =>
        rw [hinput] at hwrong
        exact hwrong (be16_of_zeros hfbuff).symm
      | cons b input =>
        rw [hinput, List.length_cons] at hshort
        obtain rfl : input = [] := List.eq_nil_of_length_eq_zero (by omega)
        refine hlone ⟨blocks, b, hinput ▸ hbegins, hi, ?_⟩
        rintro rfl
        rw [hinput] at hwrong
        exact hwrong (be16_of_zeros fun byte hbyte =>
          zeros_append_drop hfbuff 1 1 byte hbyte).symm

/-- One block behind its header, and two bytes for the sum. -/
def oneBlockFile : List UInt8 := [0, 0, 0, 4, 0x4C, 4, 1, 65, 0, 65]

/-- The file begins with no block or with its one block. -/
theorem oneBlockFile_begins {blocks : List (List UInt8 × List UInt8)} {rest : List UInt8}
    (h : BeginsWith (10 - 2) oneBlockFile blocks rest) :
    (blocks = [] ∧ rest = oneBlockFile) ∨
      (blocks = [([0, 0, 0, 4], [0x4C, 4, 1, 65])] ∧ rest = [0, 65]) := by
  cases blocks with
  | nil => exact .inl ⟨rfl, h.split.symm⟩
  | cons b blocks =>
    obtain ⟨header, body⟩ := b
    obtain ⟨⟨hfour, hbody, -⟩, -⟩ := h.whole (header, body) (List.mem_cons_self ..)
    have hsplit : [0, 0, 0, 4] ++ [0x4C, 4, 1, 65, 0, 65] =
        header ++ (body ++ (blockBytes blocks ++ rest)) := by
      have hsplit := h.split
      simp only [blockBytes, List.flatMap_cons, List.append_assoc] at hsplit
      exact hsplit
    obtain ⟨rfl, htail⟩ := List.append_inj hsplit hfour.symm
    -- the header gives the size of the block
    have hfourHeader : blockSize [0, 0, 0, 4] = 4 := by decide
    have hlength : [0x4C, 4, 1, 65].length = body.length := hfourHeader.symm.trans hbody
    obtain ⟨rfl, hrest⟩ := @List.append_inj _ [0x4C, 4, 1, 65] body [0, 65] _ htail hlength
    cases blocks with
    | nil => exact .inr ⟨rfl, hrest.symm⟩
    | cons b' blocks =>
      obtain ⟨⟨hfour', -⟩, -⟩ := h.whole b' (List.mem_cons_of_mem _ (List.mem_cons_self ..))
      have hlength := congrArg List.length hrest
      simp only [blockBytes, List.flatMap_cons, List.length_append, List.length_cons,
        List.length_nil, hfour'] at hlength
      omega

theorem oneBlockFile_decompresses : AlwaysDecompresses 10 oneBlockFile [] := by
  refine (blocks_decompress 10 oneBlockFile []).1 fun blocks rest h => ?_
  obtain ⟨rfl, rfl⟩ | ⟨rfl, rfl⟩ := oneBlockFile_begins h
  · rw [RestFits, if_pos (by decide)]
    intro _
    refine ⟨by decide, by decide, .inl ?_⟩
    rw [Decompressing.Cut]
    decide
  · rw [RestFits, if_neg (by decide)]
    decide

/-- A file with one block of 8209 bytes is read past the end of `xbuff`. -/
theorem block_size_unchecked :
    ¬ ∀ (sfilesize : UInt32) (content xbuff : List UInt8),
      AlwaysDecompresses sfilesize content xbuff := by
  intro h
  obtain ⟨rest, hrest⟩ : ∃ rest : List UInt8, rest.length = 8211 :=
    ⟨List.replicate 8211 0, List.length_replicate⟩
  have hbounds := (h 8215 (0 :: 0 :: 32 :: 17 :: rest) [] ⟨fun _ => [], by simp⟩ true
    (List.replicate fbuffLength 0) List.length_replicate).1 _ .refl
  have hsize : Decompressing.nextSize
      { input := 0 :: 0 :: 32 :: 17 :: rest, fbuff := List.replicate fbuffLength 0 } =
        blockSize [0, 0, 32, 17] := nextSize_of_le (by simp [hrest])
  have hblock : blockSize [0, 0, 32, 17] = 8209 := rfl
  have hbound : (0 : UInt32) < 8215 - 2 := by decide
  have hread := inBounds_read hbounds hbound (by rw [hsize, hblock]; decide)
  rw [hsize, hblock] at hread
  simp [xbuffLength, hrest] at hread

end Unpacking

/-! ## A whole file -/

/-- A compressed file: blocks that fit in the buffers, and the sum of what they decompress to. -/
structure IsLz (qlz : QuickLz) (blocks : List (List UInt8 × List UInt8)) (data content : List UInt8) :
    Prop where
  whole : ∀ b ∈ blocks, WholeBlock b
  fits : ∀ b ∈ blocks, b.2.length ≤ xbuffLength ∧ qlzSizeDecompressed b.2 ≤ fbuffLength
  gives : ∀ b ∈ blocks, qlz.decompress b.2 ≠ []
  unpacked : content = blocks.flatMap fun b => qlz.decompress b.2
  sum : ∃ s t, data = blockBytes blocks ++ [s, t] ∧ be16 s t = sumBytes 0 content

def LzFile (qlz : QuickLz) (data content : List UInt8) : Prop := ∃ blocks, IsLz qlz blocks data content

theorem length_le_blockBytes {blocks : List (List UInt8 × List UInt8)}
    (h : ∀ b ∈ blocks, WholeBlock b) : blocks.length ≤ (blockBytes blocks).length := by
  induction blocks with
  | nil => exact Nat.zero_le _
  | cons b blocks ih =>
    obtain ⟨hfour, -⟩ := h b (List.mem_cons_self ..)
    have hrest := ih fun b' hb' => h b' (List.mem_cons_of_mem _ hb')
    rw [blockBytes] at hrest ⊢
    simp only [List.flatMap_cons, List.length_append, List.length_cons, hfour]
    omega

namespace Unpacking

/-- From behind some blocks, the loop unpacks the others and finds the sum. -/
theorem haltsWithin_blocks {qlz : QuickLz} {smoothie : Bool} {xbuff : List UInt8} {s t : UInt8}
    (blocks done : List (List UInt8 × List UInt8)) (u : Unpacking) (n : Nat)
    (hwhole : ∀ b ∈ blocks, WholeBlock b) (hgives : ∀ b ∈ blocks, qlz.decompress b.2 ≠ [])
    (hsize : (blockBytes (done ++ blocks)).length < 2 ^ 32) (hn : blocks.length < n)
    (hstands : StandsBehind xbuff done u) (hinput : u.d.input = blockBytes blocks ++ [s, t])
    (hsum : u.d.sum = sumBytes 0 u.d.output)
    (hcheck : be16 s t = sumBytes 0 (u.d.output ++ blocks.flatMap fun b => qlz.decompress b.2)) :
    ∃ u', haltsWithin (turn (BlockIo.whole qlz.decompress) smoothie (offset (done ++ blocks))) n u
        = some (u', true) ∧
      u'.d.output = u.d.output ++ blocks.flatMap fun b => qlz.decompress b.2 := by
  -- On the blocks still to come. `done` are those behind, which give the counter its value.
  induction blocks generalizing done u n with
  | nil =>
    obtain ⟨n, rfl⟩ := Nat.exists_eq_succ_of_ne_zero (Nat.ne_of_gt hn)
    rw [List.append_nil] at hsize ⊢
    have hi : ¬ u.i < offset done := by
      rw [hstands.i]
      exact UInt32.lt_irrefl _
    have hinput : u.d.input = [s, t] := hinput
    simp only [List.flatMap_nil, List.append_nil] at hcheck ⊢
    refine ⟨u, ?_, rfl⟩
    have hturn := @turn_check qlz smoothie _ u hi
    rw [hinput] at hturn
    have hsame : u.d.sum = be16 s t := hsum.trans hcheck.symm
    simp only [List.take_succ_cons, List.take_nil, List.cons_append, List.nil_append,
      List.getD_cons_zero, List.getD_cons_succ, hsame, decide_true] at hturn
    exact haltsWithin_of_halts hturn
  | cons b blocks ih =>
    obtain ⟨n, rfl⟩ := Nat.exists_eq_succ_of_ne_zero (Nat.ne_of_gt (Nat.zero_lt_of_lt hn))
    have hb := hwhole b (List.mem_cons_self ..)
    have hinput : u.d.input = b.1 ++ b.2 ++ (blockBytes blocks ++ [s, t]) := by
      rw [hinput, blockBytes, List.flatMap_cons, List.append_assoc]
      rfl
    obtain ⟨-, hnext, -, -, hblock, -⟩ := next_of_wholeBlock hb hinput hstands.header_length
    have hdone : done ++ b :: blocks = (done ++ [b]) ++ blocks := by simp
    have hi : u.i < offset (done ++ b :: blocks) := by
      have hlength : (blockBytes (done ++ b :: blocks)).length =
          (blockBytes done).length + (4 + b.2.length + (blockBytes blocks).length) := by
        simp [blockBytes, hb.1]
        omega
      rw [hstands.i, UInt32.lt_iff_toNat_lt, offset, offset, UInt32.toNat_ofNat', UInt32.toNat_ofNat']
      omega
    have hne : u.d.nextSize ≠ 0 := by
      rw [hnext]
      exact fun hzero => hb.2.2 (List.eq_nil_of_length_eq_zero hzero)
    have hgive : qlz.decompress u.d.nextBlock ≠ [] := by
      rw [hblock]
      exact hgives b (List.mem_cons_self ..)
    obtain ⟨hafter, hrest⟩ := @StandsBehind.next qlz smoothie u done b _ xbuff hstands hb hinput
    rw [haltsWithin_of_step (turn_next hi hne hgive), hdone]
    have houtput : (u.next qlz smoothie).d.output = u.d.output ++ qlz.decompress b.2 := by
      show u.d.output ++ qlz.decompress u.d.nextBlock = _
      rw [hblock]
    have hsum' : (u.next qlz smoothie).d.sum = sumBytes 0 (u.next qlz smoothie).d.output := by
      show sumBytes u.d.sum (qlz.decompress u.d.nextBlock) =
        sumBytes 0 (u.d.output ++ qlz.decompress u.d.nextBlock)
      rw [sumBytes_append, hsum]
    rw [List.flatMap_cons, ← List.append_assoc, ← houtput] at hcheck ⊢
    exact ih (done ++ [b]) _ n (fun b' hb' => hwhole b' (List.mem_cons_of_mem _ hb'))
      (fun b' hb' => hgives b' (List.mem_cons_of_mem _ hb')) (hdone ▸ hsize)
      (Nat.lt_of_succ_lt_succ hn) hafter hrest hsum' hcheck

end Unpacking

/-- A compressed file is decompressed to its content, with any decoder and over either protocol. -/
theorem LzFile.decompressInput {qlz : QuickLz} {data content : List UInt8} (h : LzFile qlz data content)
    {storage : Storage} (hblocks : storage.blocks = BlockIo.whole qlz.decompress)
    (hsize : data.length < 2 ^ 32) (smoothie : Bool) (xbuff : List UInt8) :
    ∃ u, Transfers.decompressInput storage smoothie (UInt32.ofNat data.length) xbuff data
        = some (u, true) ∧ u.d.output = content := by
  obtain ⟨blocks, hlz⟩ := h
  obtain ⟨s, t, rfl, hsum⟩ := hlz.sum
  rw [List.length_append] at hsize
  have hcount := length_le_blockBytes hlz.whole
  have hbound : UInt32.ofNat (blockBytes blocks ++ [s, t]).length - 2 =
      Unpacking.offset ([] ++ blocks) := by
    rw [List.length_append, UInt32.ofNat_add]
    exact UInt32.add_sub_cancel _ _
  rw [Transfers.decompressInput, hblocks, hbound, hlz.unpacked]
  refine Unpacking.haltsWithin_blocks blocks [] _ _ hlz.whole hlz.gives ?_ ?_ .start rfl rfl
    (hsum.trans ?_)
  · rw [List.nil_append]
    omega
  · rw [mostTurns, List.length_append]
    omega
  · rw [hlz.unpacked]
    rfl

/-- A compressed file is of one content only. -/
theorem LzFile.unique {qlz : QuickLz} {data content content' : List UInt8} (h : LzFile qlz data content)
    (h' : LzFile qlz data content') (hsize : data.length < 2 ^ 32) : content = content' := by
  let storage : Storage := { opens := fun _ => true, blocks := BlockIo.whole qlz.decompress }
  obtain ⟨u, hend, rfl⟩ := @LzFile.decompressInput qlz data content h storage rfl hsize false []
  obtain ⟨u', hend', rfl⟩ := @LzFile.decompressInput qlz data content' h' storage rfl hsize false []
  have heq := Option.some.inj (hend.symm.trans hend')
  rw [(Prod.mk.inj heq).1]

end CarveraFirmware.Transfers
