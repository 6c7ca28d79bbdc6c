import CarveraFirmware.Library.BlockCopy

/-!
# Bytes received by DMA

The UART's FIFO is emptied into `dma_buffer` by a DMA channel that stops at the buffer's end and
raises an interrupt. `try_get` and `DMA_IRQHandler` both move bytes from the buffer into a ring;
`take_error` reports a loss and starts afresh. Hardware goes on between any two steps of a call.
-/

namespace CarveraFirmware.Serial

open BlockCopy

def rxBufferSize : ℕ := 544
def dmaBufferSize : ℕ := 384
def uartFifoSize : ℕ := 16

/-! ## The ring -/

structure DmaRxRing (α : Type*) where
  data : ℕ → α
  head : ℕ
  tail : ℕ
  count : ℕ
  overflow : Bool

namespace DmaRxRing

variable {α : Type*}

def reset (ring : DmaRxRing α) : DmaRxRing α :=
  { ring with head := 0, tail := 0, count := 0, overflow := false }

def push (ring : DmaRxRing α) (source : List α) : DmaRxRing α × ℕ :=
  let free := rxBufferSize - ring.count
  let length := if source.length > free then free else source.length
  let overflow := if source.length > free then true else ring.overflow
  if length = 0 then ({ ring with overflow := overflow }, 0)
  else
    ({ data := writeRing ring.data rxBufferSize ring.head (source.take length)
       head := (ring.head + length) % rxBufferSize
       tail := ring.tail
       count := ring.count + length
       overflow := overflow }, length)

/-- `pop(destination, length)`, with what it writes to `destination`. -/
def pop (ring : DmaRxRing α) (length : ℕ) : DmaRxRing α × List α :=
  let length := if length > ring.count then ring.count else length
  if length = 0 then (ring, [])
  else
    let first := firstPart rxBufferSize ring.tail length
    ({ ring with
        tail := (ring.tail + length) % rxBufferSize
        count := ring.count - length },
      slice ring.data ring.tail first ++ slice ring.data 0 (length - first))

def takeOverflow (ring : DmaRxRing α) : DmaRxRing α × Bool :=
  ({ ring with overflow := false }, ring.overflow)

def contents (ring : DmaRxRing α) : List α := window ring.data rxBufferSize ring.tail ring.count

/-- Count, head and tail describe the same contents, which fit. -/
structure Consistent (ring : DmaRxRing α) : Prop where
  tail_lt : ring.tail < rxBufferSize
  count_le : ring.count ≤ rxBufferSize
  head_eq : ring.head = (ring.tail + ring.count) % rxBufferSize

variable {ring : DmaRxRing α} {source : List α}

@[simp] theorem length_contents : ring.contents.length = ring.count := length_window

theorem reset_consistent : ring.reset.Consistent :=
  ⟨show 0 < rxBufferSize by decide, Nat.zero_le _, rfl⟩

@[simp] theorem contents_reset : ring.reset.contents = [] := rfl

theorem push_consistent (h : ring.Consistent) : (ring.push source).1.Consistent := by
  obtain ⟨htail, hcount, hhead⟩ := h
  simp only [push]
  split_ifs with hfull hzero hzero
  · exact ⟨htail, hcount, hhead⟩
  · exact ⟨htail, by simp only; omega, by simp only [hhead, Nat.mod_add_mod, Nat.add_assoc]⟩
  · exact ⟨htail, hcount, hhead⟩
  · exact ⟨htail, by simp only; omega, by simp only [hhead, Nat.mod_add_mod, Nat.add_assoc]⟩

/-- What is pushed comes behind the contents, as far as there is room for it. -/
theorem push_contents (h : ring.Consistent) : (ring.push source).1.contents =
    ring.contents ++ source.take (ring.push source).2 := by
  obtain ⟨htail, hcount, hhead⟩ := h
  have hadd (length : ℕ) (hlen : length ≤ source.length)
      (hfits : ring.count + length ≤ rxBufferSize) :
      window (writeRing ring.data rxBufferSize ring.head (source.take length)) rxBufferSize
        ring.tail (ring.count + length) = ring.contents ++ source.take length := by
    have hroom : ring.count + (source.take length).length ≤ rxBufferSize := by simpa [hlen] using hfits
    have hwrite := window_writeRing ring.data ring.tail (by decide) hroom
    rw [List.length_take_of_le hlen] at hwrite
    rw [hhead, hwrite, contents]
  simp only [push]
  split_ifs with hfull hzero hzero
  · rw [List.take_zero, List.append_nil]; rfl
  · exact hadd _ (by omega) (by omega)
  · rw [List.take_zero, List.append_nil]
  · exact hadd _ (by omega) (by omega)

theorem pop_consistent (h : ring.Consistent) (length : ℕ) : (ring.pop length).1.Consistent := by
  obtain ⟨htail, hcount, hhead⟩ := h
  have hmod (n : ℕ) (hn : n ≤ ring.count) :
      ring.head = ((ring.tail + n) % rxBufferSize + (ring.count - n)) % rxBufferSize := by
    rw [hhead, Nat.mod_add_mod]
    congr 1
    omega
  simp only [pop]
  split_ifs with hmore hzero hzero
  · exact ⟨htail, hcount, hhead⟩
  · exact ⟨Nat.mod_lt _ (by decide), by simp only [Nat.sub_self]; omega, hmod _ le_rfl⟩
  · exact ⟨htail, hcount, hhead⟩
  · exact ⟨Nat.mod_lt _ (by decide), by simp only; omega, hmod _ (by omega)⟩

/-- What is popped comes off the front of the contents. -/
theorem pop_contents (h : ring.Consistent) (length : ℕ) :
    (ring.pop length).2 ++ (ring.pop length).1.contents = ring.contents := by
  obtain ⟨htail, hcount, -⟩ := h
  have hsplit (n : ℕ) (hn : n ≤ ring.count) :
      slice ring.data ring.tail (firstPart rxBufferSize ring.tail n) ++
          slice ring.data 0 (n - firstPart rxBufferSize ring.tail n) ++
        window ring.data rxBufferSize ((ring.tail + n) % rxBufferSize) (ring.count - n) =
      ring.contents := by
    rw [slice_append_slice htail (by omega), ← window_add, Nat.add_sub_of_le hn, contents]
  simp only [pop]
  split_ifs with hmore hzero hzero
  · rfl
  · exact hsplit _ le_rfl
  · rfl
  · exact hsplit _ (by omega)

theorem length_pop (ring : DmaRxRing α) (length : ℕ) :
    (ring.pop length).2.length = min length ring.count := by
  have hle (n : ℕ) : firstPart rxBufferSize ring.tail n ≤ n := firstPart_le
  simp only [pop]
  split_ifs with hmore hzero hzero
  · simp; omega
  · simp only [List.length_append, length_slice]
    have := hle ring.count
    omega
  · simp; omega
  · simp only [List.length_append, length_slice]
    have := hle length
    omega

end DmaRxRing

/-! ## The receiver -/

/-- The driver's storage and the registers it uses. `received`, `returned` and `lost` are the
bytes since the input was last discarded; no code reads them. -/
structure UartRx (α : Type*) where
  ring : DmaRxRing α
  dmaBuffer : ℕ → α
  lastProcessedPosition : ℕ
  rxError : Bool
  fifo : List α
  lsrError : Bool
  enabled : Bool
  destAddr : ℕ
  terminalCount : Bool
  dmaError : Bool
  received : List α
  returned : List α
  lost : List α

/-- What the hardware does on its own: a byte arrives, another error shows in the line status
register, the DMA channel moves a byte, or it stops with a bus error over one. -/
inductive Hardware (α : Type*)
  | arrive (byte : α)
  | lineError
  | transfer
  | busError

namespace UartRx

variable {α : Type*} (base : ℕ)

def hardware (rx : UartRx α) : Hardware α → UartRx α
  | .arrive byte =>
    if rx.fifo.length < uartFifoSize then
      { rx with fifo := rx.fifo ++ [byte], received := rx.received ++ [byte] }
    else
      { rx with lsrError := true, received := rx.received ++ [byte], lost := rx.lost ++ [byte] }
  | .lineError => { rx with lsrError := true }
  | .transfer =>
    match rx.enabled, rx.fifo with
    | true, byte :: fifo =>
      -- after the buffer's last position the channel stops and raises its interrupt
      let last : Bool := rx.destAddr + 1 = base + dmaBufferSize
      { rx with
        fifo := fifo
        dmaBuffer := Function.update rx.dmaBuffer (rx.destAddr - base) byte
        destAddr := rx.destAddr + 1
        terminalCount := last
        enabled := !last }
    | _, _ => rx
  | .busError =>
    match rx.enabled, rx.fifo with
    | true, byte :: fifo =>
      { rx with fifo := fifo, lost := rx.lost ++ [byte], enabled := false, dmaError := true }
    | _, _ => rx

def hardwareRun (rx : UartRx α) (steps : List (Hardware α)) : UartRx α :=
  steps.foldl (hardware base) rx

/-- Reading the line status register clears its error bits. -/
def checkUartErrors (rx : UartRx α) : UartRx α :=
  { rx with rxError := rx.rxError || rx.lsrError, lsrError := false }

def appendLocked (rx : UartRx α) (source : List α) : UartRx α :=
  let (ring, pushed) := rx.ring.push source
  { rx with
    ring := ring
    rxError := rx.rxError || pushed ≠ source.length
    lost := rx.lost ++ source.drop pushed }

/-- `append_locked` for the buffer up to `position`, which is then the last processed one. -/
def process (rx : UartRx α) (position : ℕ) : UartRx α :=
  { appendLocked rx (slice rx.dmaBuffer rx.lastProcessedPosition
      (position - rx.lastProcessedPosition)) with lastProcessedPosition := position }

/-- `capture_partial_locked()`, with what the hardware does after the position has been read. -/
def capturePartialLocked (rx : UartRx α) (during : List (Hardware α)) : UartRx α :=
  let destination := rx.destAddr
  let rx := rx.hardwareRun base during
  if destination < base ∨ destination > base + dmaBufferSize then { rx with rxError := true }
  else
    let position := destination - base
    if position < rx.lastProcessedPosition then { rx with rxError := true }
    else if position ≠ rx.lastProcessedPosition then rx.process position
    else rx

/-- `last_processed_position = 0` and `setup_rx()`. -/
def setupRx (rx : UartRx α) : UartRx α :=
  { rx with lastProcessedPosition := 0, destAddr := base, enabled := true }

/-- `initialize()`, over whatever the memory holds. -/
def initial (data dmaBuffer : ℕ → α) : UartRx α where
  ring := { data := data, head := 0, tail := 0, count := 0, overflow := false }
  dmaBuffer := dmaBuffer
  lastProcessedPosition := 0
  rxError := false
  fifo := []
  lsrError := false
  enabled := true
  destAddr := base
  terminalCount := false
  dmaError := false
  received := []
  returned := []
  lost := []

def tryGet (rx : UartRx α) (during : ℕ → List (Hardware α)) : UartRx α × Option α :=
  let rx := rx.checkUartErrors
  let rx := rx.hardwareRun base (during 0)
  let rx := rx.capturePartialLocked base (during 1)
  let rx := rx.hardwareRun base (during 2)
  if rx.rxError then (rx, none)
  else
    let (ring, popped) := rx.ring.pop 1
    ({ rx with ring := ring, returned := rx.returned ++ popped }, popped.head?)

/-- The input is discarded by the writes to the FIFO control register and the read of the line
status register behind it; what arrives later belongs to the new input. -/
def takeError (rx : UartRx α) (during : ℕ → List (Hardware α)) : UartRx α × Bool :=
  let rx := rx.checkUartErrors
  let (ring, overflow) := rx.ring.takeOverflow
  let error := rx.rxError || overflow
  let rx := { rx with ring := ring }
  if !error then (rx, false)
  else
    let rx := rx.hardwareRun base (during 0)
    let rx := { rx with enabled := false, terminalCount := false, dmaError := false }
    let rx := rx.hardwareRun base (during 1)
    let rx := { rx with fifo := [], lsrError := false, received := [], returned := [], lost := [] }
    let rx := rx.hardwareRun base (during 2)
    (setupRx base { rx with ring := rx.ring.reset, rxError := false }, true)

def dmaIrqHandler (rx : UartRx α) (during : ℕ → List (Hardware α)) : UartRx α :=
  let rx := rx.checkUartErrors
  let terminalCount := rx.terminalCount
  let rx := rx.hardwareRun base (during 0)
  let errors := rx.dmaError
  let rx := rx.hardwareRun base (during 1)
  if errors then
    let rx := rx.capturePartialLocked base (during 2)
    let rx := rx.hardwareRun base (during 3)
    let rx := { rx with dmaError := false, rxError := true }
    setupRx base (if terminalCount then { rx with terminalCount := false } else rx)
  else if terminalCount then
    let rx := { rx with terminalCount := false }
    let rx := rx.hardwareRun base (during 2)
    setupRx base (rx.process dmaBufferSize)
  else rx

end UartRx

/-- One step of the hardware, or a whole call with the hardware's steps at each of its points. -/
inductive RxEvent (α : Type*)
  | hardware (step : Hardware α)
  | dmaIrqHandler (during : ℕ → List (Hardware α))
  | tryGet (during : ℕ → List (Hardware α))
  | takeError (during : ℕ → List (Hardware α))

def UartRx.step {α : Type*} (base : ℕ) (rx : UartRx α) : RxEvent α → UartRx α
  | .hardware step => rx.hardware base step
  | .dmaIrqHandler during => rx.dmaIrqHandler base during
  | .tryGet during => (rx.tryGet base during).1
  | .takeError during => (rx.takeError base during).1

end CarveraFirmware.Serial
