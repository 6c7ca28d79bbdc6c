import Mathlib
import CarveraFirmware.Library.RingIndex

/-!
# The streamed job buffer

`StreamedJobBuffer` of `PlayerLineSources.cpp`: the lines of a job that another controller sends,
packet by packet, and the main loop reads. Lines keep their newline; the last line of a file may
have none.
-/

namespace CarveraFirmware.Jobs

open RingIndex

def newline : UInt8 := 10
def lineCapacity : Nat := 130

/-- One entry of the storage: the text with its final zero, and its length. -/
structure Slot where
  text : List UInt8 := []
  length : UInt8 := 0
  deriving DecidableEq

inductive AppendResult where
  | success | wrongFile | unexpectedLine | lineTooLong | queueFull | notReceiving | invalidData
  deriving DecidableEq, Repr

inductive ReadResult where
  | data (line : List UInt8)
  | waiting
  | ended
  | error
  deriving DecidableEq

def ReadResult.lines : ReadResult → List (List UInt8)
  | .data line => [line]
  | .waiting | .ended | .error => []

structure StreamedJobBuffer where
  storage : Nat → Slot
  capacity : Nat
  head : Nat := 0
  tail : Nat := 0
  count : Nat := 0
  filenameCrc : UInt16 := 0
  consumedBytes : UInt32 := 0
  nextExpectedLine : UInt32 := 0
  isOpen : Bool := false
  eof : Bool := false

namespace StreamedJobBuffer

def available (s : StreamedJobBuffer) : Nat := s.capacity - s.count

def position (s : StreamedJobBuffer) : UInt32 := s.consumedBytes

def close (s : StreamedJobBuffer) : StreamedJobBuffer :=
  { storage := s.storage, capacity := s.capacity }

def begin (s : StreamedJobBuffer) (filenameCrc : UInt16) (firstLine bytePosition : UInt32) :
    StreamedJobBuffer :=
  { s.close with
    filenameCrc := filenameCrc
    consumedBytes := bytePosition
    nextExpectedLine := firstLine
    isOpen := true }

/-- The first pass over the data, `length` bytes into a line: the number of lines, or `none` where
one is too long. -/
def countLines : List UInt8 → Nat → Nat → Option Nat
  | [], length, lines =>
    if length = 0 then some lines
    else if length ≥ lineCapacity then none
    else some (lines + 1)
  | byte :: rest, length, lines =>
    if byte = newline then
      if length + 1 ≥ lineCapacity then none else countLines rest 0 (lines + 1)
    else countLines rest (length + 1) lines

/-- One line goes into the slot at `head`. -/
def store (s : StreamedJobBuffer) (line : List UInt8) : StreamedJobBuffer :=
  { s with
    storage := Function.update s.storage s.head ⟨line ++ [0], UInt8.ofNat line.length⟩
    head := (s.head + 1) % s.capacity
    count := s.count + 1
    nextExpectedLine := s.nextExpectedLine + 1 }

/-- The second pass, with the bytes of the current line so far. -/
def storeLines : List UInt8 → List UInt8 → StreamedJobBuffer → StreamedJobBuffer
  | [], line, s => if line = [] then s else s.store line
  | byte :: rest, line, s =>
    if byte = newline then storeLines rest [] (s.store (line ++ [byte]))
    else storeLines rest (line ++ [byte]) s

def appendLines (s : StreamedJobBuffer) (filenameCrc : UInt16) (firstLine : UInt32)
    (data : List UInt8) : AppendResult × StreamedJobBuffer :=
  if !s.isOpen || s.eof then (.notReceiving, s)
  else if data.length = 0 then (.invalidData, s)
  else if filenameCrc ≠ s.filenameCrc then (.wrongFile, s)
  else if firstLine ≠ s.nextExpectedLine then (.unexpectedLine, s)
  else
    match countLines data 0 0 with
    | none => (.lineTooLong, s)
    | some lines =>
      if lines > s.available then (.queueFull, s) else (.success, storeLines data [] s)

def markEnd (s : StreamedJobBuffer) (filenameCrc : UInt16) : StreamedJobBuffer :=
  if !s.isOpen || filenameCrc ≠ s.filenameCrc then s else { s with eof := true }

/-- `read(buffer, size)` into a buffer of `size` bytes. -/
def read (s : StreamedJobBuffer) (size : Nat) : ReadResult × StreamedJobBuffer :=
  if !s.isOpen then (.error, s)
  else if s.count = 0 then (if s.eof then .ended else .waiting, s)
  else
    let slot := s.storage s.tail
    if size ≤ slot.length.toNat then (.error, s)
    else
      (.data (slot.text.take slot.length.toNat),
        { s with
          consumedBytes := s.consumedBytes + slot.length.toUInt32
          storage := Function.update s.storage s.tail ⟨slot.text.set 0 0, 0⟩
          tail := (s.tail + 1) % s.capacity
          count := s.count - 1 })

end StreamedJobBuffer

/-! ## Packets and runs -/

/-- The lines of a file, or of a slice of one, after the bytes `line` of its current line. -/
def linesFrom : List UInt8 → List UInt8 → List (List UInt8)
  | [], line => if line = [] then [] else [line]
  | byte :: rest, line =>
    if byte = newline then (line ++ [byte]) :: linesFrom rest [] else linesFrom rest (line ++ [byte])

def fileLines (file : List UInt8) : List (List UInt8) := linesFrom file []

structure JobPacket where
  filenameCrc : UInt16
  firstLine : UInt32
  data : List UInt8

/-- The packet carries lines of the file, the first of them the one its number names. -/
def JobPacket.IsSlice (packet : JobPacket) (file : List UInt8) : Prop :=
  ∃ k, packet.data = (((fileLines file).drop packet.firstLine.toNat).take k).flatten

inductive JobEvent where
  | append (packet : JobPacket)
  | read (size : Nat)
  | markEnd (filenameCrc : UInt16)

namespace StreamedJobBuffer

/-- One event, with the lines read so far. -/
def step (x : StreamedJobBuffer × List (List UInt8)) : JobEvent → StreamedJobBuffer × List (List UInt8)
  | .append packet => ((x.1.appendLines packet.filenameCrc packet.firstLine packet.data).2, x.2)
  | .read size => ((x.1.read size).2, x.2 ++ (x.1.read size).1.lines)
  | .markEnd filenameCrc => (x.1.markEnd filenameCrc, x.2)

def run (s : StreamedJobBuffer) (events : List JobEvent) : StreamedJobBuffer × List (List UInt8) :=
  events.foldl step (s, [])

end StreamedJobBuffer

/-! ## Whole lines -/

def Terminated (line : List UInt8) : Prop := ∃ body, newline ∉ body ∧ line = body ++ [newline]

/-- Lines as a file has them: only the last may be without its newline. -/
inductive WellSplit : List (List UInt8) → Prop
  | nil : WellSplit []
  | last {line : List UInt8} (hne : line ≠ []) (h : newline ∉ line) : WellSplit [line]
  | cons {line : List UInt8} {lines : List (List UInt8)} (h : Terminated line)
      (hs : WellSplit lines) : WellSplit (line :: lines)

theorem linesFrom_append {body : List UInt8} (h : newline ∉ body) (rest line : List UInt8) :
    linesFrom (body ++ rest) line = linesFrom rest (line ++ body) := by
  induction body generalizing line with
  | nil => simp
  | cons byte body ih =>
    obtain ⟨hbyte, hbody⟩ : newline ≠ byte ∧ newline ∉ body := by simpa using h
    rw [List.cons_append, linesFrom, if_neg (Ne.symm hbyte), ih hbody]
    simp

/-- Lines put together are split at the same places. -/
theorem WellSplit.fileLines_flatten {lines : List (List UInt8)} (h : WellSplit lines) :
    fileLines lines.flatten = lines := by
  induction h with
  | nil => rfl
  | @last line hne h =>
    have happ := linesFrom_append h [] []
    simp only [List.append_nil, List.nil_append] at happ
    rw [List.flatten_singleton, fileLines, happ, linesFrom, if_neg hne]
  | @cons line lines h _ ih =>
    obtain ⟨body, hbody, rfl⟩ := h
    rw [List.flatten_cons, fileLines, List.append_assoc, linesFrom_append hbody,
      List.singleton_append, linesFrom, if_pos rfl, List.nil_append]
    exact congrArg _ ih

theorem wellSplit_linesFrom (data : List UInt8) {line : List UInt8} (h : newline ∉ line) :
    WellSplit (linesFrom data line) := by
  induction data generalizing line with
  | nil =>
    rw [linesFrom]
    split
    · exact .nil
    next hne => exact .last hne h
  | cons byte data ih =>
    rw [linesFrom]
    split
    next hb => exact .cons ⟨line, h, by rw [hb]⟩ (ih List.not_mem_nil)
    next hb => exact ih (by simp [h, Ne.symm hb])

theorem WellSplit.drop {lines : List (List UInt8)} (h : WellSplit lines) (n : Nat) :
    WellSplit (lines.drop n) := by
  induction h generalizing n with
  | nil => simpa using WellSplit.nil
  | last hne h =>
    cases n with
    | zero => exact .last hne h
    | succ n => simpa using WellSplit.nil
  | cons h hs ih =>
    cases n with
    | zero => exact .cons h hs
    | succ n => exact ih n

theorem WellSplit.take {lines : List (List UInt8)} (h : WellSplit lines) (n : Nat) :
    WellSplit (lines.take n) := by
  induction h generalizing n with
  | nil => simpa using WellSplit.nil
  | last hne h =>
    cases n with
    | zero => exact .nil
    | succ n => simpa using WellSplit.last hne h
  | cons h hs ih =>
    cases n with
    | zero => exact .nil
    | succ n => exact .cons h (ih n)

theorem flatten_linesFrom (data line : List UInt8) :
    (linesFrom data line).flatten = line ++ data := by
  induction data generalizing line with
  | nil =>
    rw [linesFrom]
    split
    next h => simp [h]
    · simp
  | cons byte data ih =>
    rw [linesFrom]
    split
    · simp [ih]
    · rw [ih]
      simp

theorem WellSplit.length_le {lines : List (List UInt8)} (h : WellSplit lines) :
    lines.length ≤ lines.flatten.length := by
  induction h with
  | nil => simp
  | last hne h =>
    simpa [Nat.one_le_iff_ne_zero] using hne
  | cons h _ ih =>
    obtain ⟨body, -, rfl⟩ := h
    simp only [List.length_cons, List.flatten_cons, List.length_append] at ih ⊢
    omega

/-! ## The two passes -/

namespace StreamedJobBuffer

theorem countLines_eq (data line : List UInt8) (n : Nat) :
    countLines data line.length n =
      if ∀ l ∈ linesFrom data line, l.length < lineCapacity then
        some (n + (linesFrom data line).length)
      else none := by
  induction data generalizing line n with
  | nil =>
    by_cases hline : line = []
    · simp [countLines, linesFrom, hline]
    · have hpos : line.length ≠ 0 := by simpa using hline
      by_cases hlong : line.length ≥ lineCapacity
      · simp [countLines, linesFrom, hline, hlong]
      · simp [countLines, linesFrom, hline, hlong, not_le.mp hlong]
  | cons byte data ih =>
    -- A line feed ends a line, which may be too long; any other byte makes it longer.
    by_cases hb : byte = newline
    · simp only [countLines, linesFrom, if_pos hb]
      by_cases hlong : line.length + 1 ≥ lineCapacity
      · rw [if_pos hlong, if_neg]
        intro hall
        have := hall (line ++ [byte]) List.mem_cons_self
        simp only [List.length_append, List.length_singleton] at this
        omega
      · have ih' := ih [] (n + 1)
        rw [List.length_nil] at ih'
        have hline : (line ++ [byte]).length < lineCapacity := by
          rw [List.length_append, List.length_singleton]
          omega
        rw [if_neg hlong, ih']
        by_cases hall : ∀ l ∈ linesFrom data [], l.length < lineCapacity
        · have hcons : ∀ l ∈ (line ++ [byte]) :: linesFrom data [], l.length < lineCapacity :=
            List.forall_mem_cons.mpr ⟨hline, hall⟩
          rw [if_pos hall, if_pos hcons, List.length_cons, Nat.add_right_comm, Nat.add_assoc]
        · rw [if_neg hall, if_neg fun h => hall (List.forall_mem_cons.mp h).2]
    · have ih' := ih (line ++ [byte]) n
      rw [List.length_append, List.length_singleton] at ih'
      simp only [countLines, linesFrom, if_neg hb, ih']

theorem storeLines_eq (data line : List UInt8) (s : StreamedJobBuffer) :
    storeLines data line s = (linesFrom data line).foldl store s := by
  induction data generalizing line s with
  | nil =>
    by_cases hline : line = []
    · simp [storeLines, linesFrom, hline]
    · simp [storeLines, linesFrom, hline]
  | cons byte data ih =>
    by_cases hb : byte = newline
    · simp [storeLines, linesFrom, hb, ih]
    · simp [storeLines, linesFrom, hb, ih]

/-- What an append can do: nothing, or store every line of the packet. -/
theorem appendLines_cases (s : StreamedJobBuffer) (crc : UInt16) (first : UInt32)
    (data : List UInt8) :
    ((s.appendLines crc first data).1 ≠ .success ∧ (s.appendLines crc first data).2 = s) ∨
    (first = s.nextExpectedLine ∧ (∀ l ∈ fileLines data, l.length < lineCapacity) ∧
      s.count + (fileLines data).length ≤ max s.capacity s.count ∧
      s.appendLines crc first data = (.success, (fileLines data).foldl store s)) := by
  unfold appendLines
  -- Each check of the source in its order; a failed one leaves the buffer as it is.
  by_cases hopen : (!s.isOpen || s.eof) = true
  · rw [if_pos hopen]
    exact .inl ⟨by simp, rfl⟩
  rw [if_neg hopen]
  by_cases hempty : data.length = 0
  · rw [if_pos hempty]
    exact .inl ⟨by simp, rfl⟩
  rw [if_neg hempty]
  by_cases hcrc : crc ≠ s.filenameCrc
  · rw [if_pos hcrc]
    exact .inl ⟨by simp, rfl⟩
  rw [if_neg hcrc]
  by_cases hfirst : first ≠ s.nextExpectedLine
  · rw [if_pos hfirst]
    exact .inl ⟨by simp, rfl⟩
  rw [if_neg hfirst]
  have hcount : countLines data 0 0 = if ∀ l ∈ fileLines data, l.length < lineCapacity then
      some (fileLines data).length else none := by
    rw [fileLines, ← Nat.zero_add (linesFrom data []).length, ← countLines_eq data [] 0]
    rfl
  by_cases hshort : ∀ l ∈ fileLines data, l.length < lineCapacity
  · rw [hcount, if_pos hshort]
    by_cases hfull : (fileLines data).length > s.available
    · simp only [if_pos hfull]
      exact .inl ⟨by simp, trivial⟩
    · simp only [if_neg hfull]
      refine .inr ⟨not_not.mp hfirst, hshort, ?_, by rw [storeLines_eq]; rfl⟩
      unfold available at hfull
      omega
  · rw [hcount, if_neg hshort]
    exact .inl ⟨by simp, rfl⟩

/-! ## The buffer keeps the file's order -/

/-- What a slot holds for a line. -/
def slotOf (line : List UInt8) : Slot := ⟨line ++ [0], UInt8.ofNat line.length⟩

/-- The lines read and then those queued are the file's from `first` on. -/
structure Streams (lines : List (List UInt8)) (first : Nat) (s : StreamedJobBuffer)
    (log queued : List (List UInt8)) : Prop where
  isOpen : s.isOpen = true
  order : log ++ queued <+: lines.drop first
  next : s.nextExpectedLine.toNat = first + (log ++ queued).length
  holds : Holds s.storage s.capacity s.tail (queued.map slotOf)
  short : ∀ line ∈ queued, line.length < lineCapacity
  count : s.count = queued.length
  tail : s.tail % s.capacity = s.tail
  head : s.head = (s.tail + queued.length) % s.capacity
  consumed : s.consumedBytes.toNat = (lines.take first).flatten.length + log.flatten.length

section

variable {lines log queued : List (List UInt8)} {first : Nat} {s : StreamedJobBuffer}

theorem Streams.store (h : Streams lines first s log queued) {line : List UInt8}
    (horder : log ++ (queued ++ [line]) <+: lines.drop first)
    (hshort : line.length < lineCapacity) (hroom : queued.length < s.capacity)
    (hfit : lines.length < 2 ^ 32) :
    Streams lines first (s.store line) log (queued ++ [line]) := by
  have hlen := horder.length_le
  simp only [List.length_append, List.length_drop, List.length_singleton] at hlen
  have hslot : queued.map slotOf ++ [slotOf line] = (queued ++ [line]).map slotOf := by simp
  refine ⟨h.isOpen, horder, ?_, ?_, ?_, ?_, h.tail, ?_, h.consumed⟩
  · have hn := h.next
    rw [List.length_append] at hn
    rw [show (s.store line).nextExpectedLine = s.nextExpectedLine + 1 from rfl, UInt32.toNat_add, hn]
    simp only [UInt32.toNat_one, List.length_append, List.length_singleton]
    omega
  · have hpush := h.holds.push (by simpa using hroom) (slotOf line)
    rw [List.length_map, ← h.head, hslot] at hpush
    exact hpush
  · intro l hl
    obtain hl | hl := List.mem_append.mp hl
    · exact h.short l hl
    · exact List.mem_singleton.mp hl ▸ hshort
  · rw [show (s.store line).count = s.count + 1 from rfl, h.count, List.length_append]
    rfl
  · rw [show (s.store line).head = (s.head + 1) % s.capacity from rfl, h.head, Nat.mod_add_mod,
      List.length_append, List.length_singleton, Nat.add_assoc]
    rfl

theorem Streams.storeAll (h : Streams lines first s log queued) {added : List (List UInt8)}
    (horder : log ++ (queued ++ added) <+: lines.drop first)
    (hshort : ∀ line ∈ added, line.length < lineCapacity)
    (hroom : queued.length + added.length ≤ s.capacity) (hfit : lines.length < 2 ^ 32) :
    Streams lines first (added.foldl StreamedJobBuffer.store s) log (queued ++ added) := by
  induction added generalizing s queued with
  | nil => simpa using h
  | cons line added ih =>
    rw [List.append_cons] at horder ⊢
    rw [List.length_cons] at hroom
    have hone : log ++ (queued ++ [line]) <+: lines.drop first :=
      (List.prefix_append _ added).trans (by simpa using horder)
    have hstored := h.store hone (hshort line List.mem_cons_self) (by omega) hfit
    rw [List.foldl_cons]
    refine ih hstored horder (fun l hl => hshort l (List.mem_cons_of_mem _ hl)) ?_
    rw [List.length_append, List.length_singleton]
    change _ ≤ s.capacity
    omega

theorem Streams.count_le (h : Streams lines first s log queued) : s.count ≤ s.capacity := by
  simpa [h.count] using h.holds.fits

theorem Streams.append (h : Streams lines first s log queued) (hsplit : WellSplit lines)
    (hfit : lines.length < 2 ^ 32) (crc : UInt16) {number : UInt32} {data : List UInt8} {k : Nat}
    (hdata : data = ((lines.drop number.toNat).take k).flatten) :
    ∃ queued', Streams lines first (s.appendLines crc number data).2 log queued' := by
  obtain ⟨-, hsame⟩ | ⟨hnumber, hshort, hroom, hstored⟩ := s.appendLines_cases crc number data
  · exact ⟨queued, hsame.symm ▸ h⟩
  · obtain ⟨rest, hrest⟩ := h.order
    have hdrop : lines.drop number.toNat = rest := by
      rw [hnumber, h.next, ← List.drop_drop, ← hrest, List.drop_left]
    have hlines : fileLines data = rest.take k := by
      rw [hdata, hdrop]
      exact ((hdrop ▸ hsplit.drop number.toNat).take k).fileLines_flatten
    rw [hlines] at hshort hroom hstored
    have hle := h.count_le
    have hcount := h.count
    refine ⟨queued ++ rest.take k, ?_⟩
    rw [hstored]
    refine h.storeAll ?_ hshort (by omega) hfit
    rw [← hrest, ← List.append_assoc]
    exact (List.prefix_append_right_inj _).mpr (List.take_prefix k rest)

theorem Streams.markEnd (h : Streams lines first s log queued) (crc : UInt16) :
    Streams lines first (s.markEnd crc) log queued := by
  unfold StreamedJobBuffer.markEnd
  split
  · exact h
  · exact { h with }

/-- A read takes the next line of the file, or changes nothing. -/
theorem Streams.read (h : Streams lines first s log queued)
    (hsize : lines.flatten.length < 2 ^ 32) (size : Nat) :
    ((s.read size).1.lines = [] ∧ (s.read size).2 = s) ∨
    ∃ line queued', (s.read size).1.lines = [line] ∧
      Streams lines first (s.read size).2 (log ++ [line]) queued' := by
  unfold StreamedJobBuffer.read
  rw [if_neg (by simp [h.isOpen])]
  cases queued with
  | nil =>
    rw [if_pos (by simpa using h.count)]
    left
    cases s.eof <;> simp [ReadResult.lines]
  | cons line queued =>
    have hcount : s.count = queued.length + 1 := by simpa using h.count
    have hfront : s.storage s.tail = slotOf line := by
      rw [← h.tail]
      exact h.holds.front
    have hshort := h.short line List.mem_cons_self
    have hlength : (slotOf line).length.toNat = line.length := by
      rw [slotOf, UInt8.toNat_ofNat']
      exact Nat.mod_eq_of_lt (hshort.trans (by decide))
    rw [if_neg (by omega)]
    simp only [hfront, hlength]
    -- A buffer that is too short leaves the line in its slot.
    by_cases hsz : size ≤ line.length
    · left
      simp [hsz, ReadResult.lines]
    right
    rw [if_neg hsz]
    have htext : (slotOf line).text.take line.length = line := by simp [slotOf]
    refine ⟨line, queued, by rw [htext]; rfl, ?_⟩
    have hall : log ++ [line] ++ queued = log ++ line :: queued := by simp
    have hpop := h.holds.pop ⟨(slotOf line).text.set 0 0, 0⟩
    rw [h.tail] at hpop
    refine ⟨h.isOpen, hall ▸ h.order, hall ▸ h.next, hpop,
      fun l hl => h.short l (List.mem_cons_of_mem _ hl), by simp [hcount], Nat.mod_mod _ _, ?_, ?_⟩
    · rw [h.head, List.length_cons, Nat.mod_add_mod]
      congr 1
      omega
    · -- the bytes read so far are no more than those of the file
      have hbytes := (h.order.flatten).length_le
      have htotal : (lines.take first).flatten.length + (lines.drop first).flatten.length
          = lines.flatten.length := by
        rw [← List.length_append, ← List.flatten_append, List.take_append_drop]
      simp only [List.flatten_append, List.flatten_cons, List.length_append] at hbytes
      simp only [UInt32.toNat_add, UInt8.toNat_toUInt32, h.consumed, hlength, List.flatten_append,
        List.flatten_singleton, List.length_append]
      omega

/-- The packets of these events are slices of the file. -/
def Slices (file : List UInt8) (events : List JobEvent) : Prop :=
  ∀ packet, .append packet ∈ events → packet.IsSlice file

theorem Streams.step {file : List UInt8} (h : Streams (fileLines file) first s log queued)
    (hsize : file.length < 2 ^ 32) {event : JobEvent}
    (hslice : ∀ packet, event = .append packet → packet.IsSlice file) :
    ∃ queued', Streams (fileLines file) first (step (s, log) event).1 (step (s, log) event).2
      queued' := by
  have hsplit : WellSplit (fileLines file) := wellSplit_linesFrom file List.not_mem_nil
  have hflat : (fileLines file).flatten = file := flatten_linesFrom file []
  have hfit : (fileLines file).length < 2 ^ 32 := by
    have := hsplit.length_le
    rw [hflat] at this
    omega
  cases event with
  | append packet =>
    obtain ⟨k, hdata⟩ := hslice packet rfl
    exact h.append hsplit hfit packet.filenameCrc hdata
  | markEnd crc => exact ⟨queued, h.markEnd crc⟩
  | read size =>
    rw [StreamedJobBuffer.step]
    obtain ⟨hnone, hsame⟩ | ⟨line, queued', hdata, hnext⟩ := h.read (by rw [hflat]; exact hsize) size
    · rw [hnone, hsame, List.append_nil]
      exact ⟨queued, h⟩
    · rw [hdata]
      exact ⟨queued', hnext⟩

theorem Streams.run {file : List UInt8} {events : List JobEvent}
    (h : Streams (fileLines file) first s log queued) (hsize : file.length < 2 ^ 32)
    (hslices : Slices file events) :
    ∃ queued', Streams (fileLines file) first (events.foldl StreamedJobBuffer.step (s, log)).1
      (events.foldl StreamedJobBuffer.step (s, log)).2 queued' := by
  induction events generalizing s log queued with
  | nil => exact ⟨queued, h⟩
  | cons event events ih =>
    obtain ⟨queued', hstep⟩ :=
      h.step hsize fun packet (heq : event = .append packet) => hslices packet (by simp [heq])
    exact ih hstep fun packet hmem => hslices packet (List.mem_cons_of_mem _ hmem)

theorem streams_begin (s : StreamedJobBuffer) (crc : UInt16) {file : List UInt8}
    (hsize : file.length < 2 ^ 32) (hfirst : first ≤ (fileLines file).length) :
    Streams (fileLines file) first (s.begin crc (UInt32.ofNat first)
      (UInt32.ofNat ((fileLines file).take first).flatten.length)) [] [] := by
  have hflat : (fileLines file).flatten = file := flatten_linesFrom file []
  have hlen := (wellSplit_linesFrom file List.not_mem_nil).length_le
  have htake := ((List.take_prefix first (fileLines file)).flatten).length_le
  rw [show linesFrom file [] = fileLines file from rfl, hflat] at hlen
  rw [hflat] at htake
  refine ⟨rfl, by simp, ?_, Holds.nil _ _ _, by simp, rfl, Nat.zero_mod _, (Nat.zero_mod _).symm, ?_⟩
  · simp only [StreamedJobBuffer.begin, UInt32.toNat_ofNat', List.nil_append, List.length_nil]
    omega
  · simp only [StreamedJobBuffer.begin, UInt32.toNat_ofNat', List.flatten_nil, List.length_nil]
    omega

theorem Streams.index_lt {i : Nat} (hi : i % s.capacity = i) : s.capacity = 0 ∨ i < s.capacity := by
  obtain hz | hpos := Nat.eq_zero_or_pos s.capacity
  · exact .inl hz
  · exact .inr (hi ▸ Nat.mod_lt i hpos)

end

/-- Whatever packets of a file arrive, lost, repeated or out of order, the lines read are the next
ones of the file, and a packet that is not taken changes nothing. -/
theorem reads_file_in_order (buffer : StreamedJobBuffer) (crc : UInt16) (file : List UInt8)
    (hsize : file.length < 2 ^ 32) (first : Nat) (hfirst : first ≤ (fileLines file).length)
    (events : List JobEvent) (hslices : Slices file events) :
    let start := ((fileLines file).take first).flatten.length
    let s := ((buffer.begin crc (UInt32.ofNat first) (UInt32.ofNat start)).run events).1
    let log := ((buffer.begin crc (UInt32.ofNat first) (UInt32.ofNat start)).run events).2
    (∃ queued, queued.length = s.count ∧ log ++ queued <+: (fileLines file).drop first ∧
      s.nextExpectedLine.toNat = first + (log ++ queued).length) ∧
    s.position.toNat = start + log.flatten.length ∧
    s.count ≤ s.capacity ∧ (s.capacity = 0 ∨ s.head < s.capacity) ∧
    (s.capacity = 0 ∨ s.tail < s.capacity) ∧
    (∀ packet : JobPacket,
      (s.appendLines packet.filenameCrc packet.firstLine packet.data).1 ≠ .success →
      (s.appendLines packet.filenameCrc packet.firstLine packet.data).2 = s) := by
  intro start s log
  obtain ⟨queued, h⟩ : ∃ queued, Streams (fileLines file) first s log queued :=
    (streams_begin buffer crc hsize hfirst).run hsize hslices
  refine ⟨⟨queued, h.count.symm, h.order, h.next⟩, h.consumed, h.count_le,
    Streams.index_lt (by rw [h.head, Nat.mod_mod]), Streams.index_lt h.tail, fun packet hfail => ?_⟩
  obtain ⟨-, hsame⟩ | ⟨-, -, -, hok⟩ :=
    s.appendLines_cases packet.filenameCrc packet.firstLine packet.data
  · exact hsame
  · exact absurd (by rw [hok]) hfail

/-- Two lines, the second without its newline. -/
def twoLineFile : List UInt8 := [71, 49, 10, 71, 50]

/-- The second line comes too early, then the first twice, and then the second again. -/
def shuffledPackets : List JobEvent :=
  [.append ⟨7, 1, [71, 50]⟩, .append ⟨7, 0, [71, 49, 10]⟩, .append ⟨7, 0, [71, 49, 10]⟩, .read 130,
   .append ⟨7, 1, [71, 50]⟩, .markEnd 7, .read 130, .read 130]

theorem reads_file_in_order_shuffled :
    let buffer : StreamedJobBuffer := ⟨fun _ => {}, 1, 0, 0, 0, 0, 0, 0, false, false⟩
    let x := (buffer.begin 7 0 0).run shuffledPackets
    x.2 = fileLines twoLineFile ∧ x.1.position.toNat = 5 := by
  have h := reads_file_in_order ⟨fun _ => {}, 1, 0, 0, 0, 0, 0, 0, false, false⟩ 7 twoLineFile
    (by decide) 0 (by decide) shuffledPackets (by
      intro packet hpacket
      simp only [shuffledPackets, List.mem_cons, JobEvent.append.injEq, reduceCtorEq,
        List.not_mem_nil, or_false, false_or] at hpacket
      obtain rfl | rfl | rfl | rfl := hpacket
      · exact ⟨1, by decide⟩
      · exact ⟨1, by decide⟩
      · exact ⟨1, by decide⟩
      · exact ⟨1, by decide⟩)
  exact ⟨by decide, h.2.1.trans (by decide)⟩

end StreamedJobBuffer

end CarveraFirmware.Jobs
