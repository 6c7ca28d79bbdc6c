import CarveraFirmware.Serial.UartRxDma

/-!
# No byte is lost unnoticed

What has been returned since the input was last discarded is the first part of what has been
received since then, and as long as no error is pending the rest of it is still held.
-/

namespace CarveraFirmware.Serial

open BlockCopy

namespace UartRx

variable {α : Type*} (base : ℕ)

/-- What the DMA channel has written and nobody has processed. -/
def unprocessed (rx : UartRx α) : List α :=
  slice rx.dmaBuffer rx.lastProcessedPosition (rx.destAddr - base - rx.lastProcessedPosition)

/-- The bytes that are still to be returned, in order. -/
def held (rx : UartRx α) : List α := rx.ring.contents ++ (rx.unprocessed base ++ rx.fifo)

/-- An error that has been noticed, or that the hardware shows. -/
def ErrorPending (rx : UartRx α) : Prop := rx.rxError ∨ rx.lsrError ∨ rx.dmaError

/-- The ring and the DMA channel are as the driver takes them to be. -/
structure Wired (rx : UartRx α) : Prop where
  ring : rx.ring.Consistent
  base_le : base ≤ rx.destAddr
  le_end : rx.destAddr ≤ base + dmaBufferSize
  last_le : rx.lastProcessedPosition ≤ rx.destAddr - base
  room : rx.enabled → rx.destAddr < base + dmaBufferSize
  ended : rx.terminalCount → rx.destAddr = base + dmaBufferSize ∧ rx.enabled = false
  stopped : rx.dmaError → rx.enabled = false ∧ rx.terminalCount = false

def Whole (rx : UartRx α) : Prop := rx.received = rx.returned ++ rx.held base

/-- The channel has stopped with an error; what comes after the error is in the FIFO. -/
def Cut (rx : UartRx α) : Prop :=
  rx.dmaError ∧ rx.returned ++ (rx.ring.contents ++ rx.unprocessed base) <+: rx.received

/-- Something is held and the first byte of it is the next one to be returned. -/
def FrontGood (rx : UartRx α) : Prop :=
  rx.held base ≠ [] ∧ rx.returned ++ (rx.held base).take 1 <+: rx.received

/-- Within `try_get` errors have been looked for, so that one that has shown since then came when
the FIFO was full. -/
structure Ordered (inTryGet : Prop) (rx : UartRx α) : Prop where
  wired : rx.Wired base
  first : rx.returned <+: rx.received
  rest : rx.Whole base ∨ rx.rxError ∨ (rx.lsrError ∧ (inTryGet → rx.FrontGood base)) ∨ rx.Cut base
  conserved : (rx.returned ++ (rx.held base ++ rx.lost)).Perm rx.received

variable {base} {rx : UartRx α} {inTryGet : Prop}

theorem Ordered.afterCall (h : rx.Ordered base inTryGet) : rx.Ordered base False :=
  ⟨h.wired, h.first, h.rest.imp_right (Or.imp_right (Or.imp_left fun hs => ⟨hs.1, False.elim⟩)),
    h.conserved⟩

/-! ## What the hardware does -/

theorem Wired.hardware (h : rx.Wired base) (step : Hardware α) :
    (rx.hardware base step).Wired base := by
  obtain ⟨hring, hbase, hend, hlast, hroom, hended, hstopped⟩ := h
  cases step with
  | arrive byte =>
    simp only [UartRx.hardware]
    split_ifs <;> exact ⟨hring, hbase, hend, hlast, hroom, hended, hstopped⟩
  | lineError => exact ⟨hring, hbase, hend, hlast, hroom, hended, hstopped⟩
  | transfer =>
    simp only [UartRx.hardware]
    split
    next _ _ _ _ henabled _ =>
      -- a transfer moves one byte, and the last of a block ends it and switches the channel off
      have hlt := hroom henabled
      have hfine : ¬ rx.dmaError := fun he => by simp [(hstopped he).1] at henabled
      refine ⟨hring, by simp only; omega, by simp only; omega, by simp only; omega, fun hr => ?_,
        fun ht => ?_, fun he => absurd he hfine⟩
      · simp only [Bool.not_eq_true', decide_eq_false_iff_not] at hr
        simp only
        omega
      · simp only [decide_eq_true_eq] at ht
        simp only [ht, decide_true, Bool.not_true, and_self]
    next => exact ⟨hring, hbase, hend, hlast, hroom, hended, hstopped⟩
  | busError =>
    simp only [UartRx.hardware]
    split
    next _ _ _ _ henabled _ =>
      refine ⟨hring, hbase, hend, hlast, fun hr => absurd hr Bool.false_ne_true,
        fun ht => ⟨(hended ht).1, rfl⟩, fun _ => ⟨rfl, Bool.eq_false_iff.mpr fun ht => ?_⟩⟩
      simp [(hended ht).2] at henabled
    next => exact ⟨hring, hbase, hend, hlast, hroom, hended, hstopped⟩

/-- A byte that the channel moves stays where it is in what is held. -/
theorem held_transfer (hw : rx.Wired base) :
    (rx.hardware base .transfer).held base = rx.held base := by
  have hle := hw.last_le
  have hbase := hw.base_le
  simp only [hardware]
  split
  next _ _ byte fifo _ hfifo =>
    have hgrow : slice (Function.update rx.dmaBuffer (rx.destAddr - base) byte)
        rx.lastProcessedPosition (rx.destAddr + 1 - base - rx.lastProcessedPosition) =
        rx.unprocessed base ++ [byte] := by
      have hupdate := slice_update rx.dmaBuffer rx.lastProcessedPosition
        (rx.destAddr - base - rx.lastProcessedPosition) byte
      rw [Nat.add_sub_of_le hle] at hupdate
      rw [show rx.destAddr + 1 - base - rx.lastProcessedPosition =
        rx.destAddr - base - rx.lastProcessedPosition + 1 by omega]
      exact hupdate
    simp only [held, unprocessed] at hgrow ⊢
    rw [hgrow, hfifo, List.append_assoc, List.singleton_append]
  next => rfl

/-- A byte that finds room is held, one that does not is lost. -/
theorem arrive_cases (base : ℕ) (rx : UartRx α) (byte : α) :
    rx.hardware base (.arrive byte) =
        { rx with fifo := rx.fifo ++ [byte], received := rx.received ++ [byte] } ∨
      rx.fifo ≠ [] ∧ rx.hardware base (.arrive byte) =
        { rx with lsrError := true, received := rx.received ++ [byte], lost := rx.lost ++ [byte] } := by
  simp only [hardware]
  split_ifs with hroom
  · exact Or.inl rfl
  · refine Or.inr ⟨fun hnil => hroom ?_, rfl⟩
    rw [hnil]
    exact Nat.succ_pos 15

theorem FrontGood.of_whole (h : rx.Whole base) (hheld : rx.held base ≠ []) : rx.FrontGood base :=
  ⟨hheld, by rw [h]; exact (List.prefix_append_right_inj _).mpr (List.take_prefix 1 _)⟩

/-- More has come in and is held behind the rest. -/
theorem FrontGood.append (h : rx.FrontGood base) {rx' : UartRx α} {more later : List α}
    (hreturned : rx'.returned = rx.returned) (hheld : rx'.held base = rx.held base ++ more)
    (hreceived : rx'.received = rx.received ++ later) : rx'.FrontGood base := by
  obtain ⟨hne, hfirst⟩ := h
  refine ⟨by rw [hheld]; exact List.append_ne_nil_of_left_ne_nil hne more, ?_⟩
  have hlen : 1 ≤ (rx.held base).length := List.length_pos_iff.mpr hne
  rw [hreturned, hheld, List.take_append_of_le_length hlen, hreceived]
  exact hfirst.trans (List.prefix_append _ _)

theorem Ordered.arrive (h : rx.Ordered base inTryGet) (byte : α) :
    (rx.hardware base (.arrive byte)).Ordered base inTryGet := by
  have hwired := h.wired.hardware (.arrive byte)
  -- The FIFO takes the byte, or overruns: then it is lost, and the line status says so.
  obtain heq | ⟨hfull, heq⟩ := arrive_cases base rx byte
  · rw [heq] at hwired ⊢
    have hheld : UartRx.held base
        { rx with fifo := rx.fifo ++ [byte], received := rx.received ++ [byte] } =
        rx.held base ++ [byte] := by simp [held, unprocessed]
    refine ⟨hwired, h.first.trans (List.prefix_append _ _), ?_, ?_⟩
    · obtain hwhole | herr | ⟨hlsr, hfront⟩ | ⟨hdma, hcut⟩ := h.rest
      · refine Or.inl ?_
        simp only [Whole] at hwhole ⊢
        rw [hheld, hwhole, List.append_assoc]
      · exact Or.inr (Or.inl herr)
      · exact Or.inr (Or.inr (Or.inl ⟨hlsr, fun hin => (hfront hin).append rfl hheld rfl⟩))
      · exact Or.inr (Or.inr (Or.inr ⟨hdma, hcut.trans (List.prefix_append _ _)⟩))
    · simp only [hheld]
      have hperm := h.conserved.append_right [byte]
      refine List.Perm.trans ?_ hperm
      simp only [List.append_assoc]
      exact (List.perm_append_comm.append_left _).append_left _
  · rw [heq] at hwired ⊢
    have hheld : UartRx.held base
        { rx with lsrError := true, received := rx.received ++ [byte], lost := rx.lost ++ [byte] } =
        rx.held base ++ [] := (List.append_nil _).symm
    refine ⟨hwired, h.first.trans (List.prefix_append _ _), ?_, ?_⟩
    · obtain hwhole | herr | ⟨hlsr, hfront⟩ | ⟨hdma, hcut⟩ := h.rest
      · -- the FIFO is full, so there is a byte in front of the gap, and it is the next one
        have hne : rx.held base ≠ [] := fun hnil => hfull (List.append_eq_nil_iff.mp
          (List.append_eq_nil_iff.mp hnil).2).2
        have hfront : rx.FrontGood base := FrontGood.of_whole hwhole hne
        exact Or.inr (Or.inr (Or.inl ⟨rfl, fun _ => hfront.append rfl hheld rfl⟩))
      · exact Or.inr (Or.inl herr)
      · exact Or.inr (Or.inr (Or.inl ⟨rfl, fun hin => (hfront hin).append rfl hheld rfl⟩))
      · exact Or.inr (Or.inr (Or.inr ⟨hdma, hcut.trans (List.prefix_append _ _)⟩))
    · rw [hheld, List.append_nil]
      have hperm := h.conserved.append_right [byte]
      simpa only [List.append_assoc] using hperm

theorem Ordered.lineError (h : rx.Ordered base inTryGet) :
    (rx.hardware base .lineError).Ordered base inTryGet :=
  ⟨h.wired.hardware .lineError, h.first,
    h.rest.imp_right (Or.imp_right (Or.imp_left fun hs => ⟨rfl, hs.2⟩)), h.conserved⟩

theorem Ordered.transfer (h : rx.Ordered base inTryGet) :
    (rx.hardware base .transfer).Ordered base inTryGet := by
  have hwired := h.wired.hardware .transfer
  have hheld := held_transfer h.wired
  simp only [hardware] at hwired hheld ⊢
  split
  next _ _ byte fifo henabled hfifo =>
    simp only [henabled, hfifo] at hwired hheld
    refine ⟨hwired, h.first, ?_, by simpa only [hheld] using h.conserved⟩
    obtain hwhole | herr | ⟨hlsr, hfront⟩ | ⟨hdma, -⟩ := h.rest
    · exact Or.inl (by simpa only [Whole, hheld] using hwhole)
    · exact Or.inr (Or.inl herr)
    · exact Or.inr (Or.inr (Or.inl ⟨hlsr, fun hin => (hfront hin).append rfl
        (hheld.trans (List.append_nil _).symm) (List.append_nil _).symm⟩))
    · -- a channel that has stopped moves nothing
      exact absurd henabled (by rw [(h.wired.stopped hdma).1]; exact Bool.false_ne_true)
  next => exact h

theorem Ordered.busError (h : rx.Ordered base inTryGet) :
    (rx.hardware base .busError).Ordered base inTryGet := by
  have hwired := h.wired.hardware .busError
  simp only [hardware] at hwired ⊢
  split
  next _ _ byte fifo henabled hfifo =>
    simp only [henabled, hfifo] at hwired
    have hheld : rx.held base = (rx.ring.contents ++ rx.unprocessed base) ++ byte :: fifo := by
      rw [held, hfifo, List.append_assoc]
    refine ⟨hwired, h.first, ?_, ?_⟩
    · obtain hwhole | herr | ⟨hlsr, hfront⟩ | ⟨hdma, -⟩ := h.rest
      · refine Or.inr (Or.inr (Or.inr ⟨rfl, ?_⟩))
        rw [Whole, hheld, ← List.append_assoc] at hwhole
        -- what is in the ring and in the buffer comes before the byte that is lost
        exact hwhole ▸ List.prefix_append _ _
      · exact Or.inr (Or.inl herr)
      · -- with nothing before it the lost byte was the next one, and nothing more can follow
        by_cases hnil : rx.ring.contents ++ rx.unprocessed base = []
        · refine Or.inr (Or.inr (Or.inr ⟨rfl, ?_⟩))
          change rx.returned ++ (rx.ring.contents ++ rx.unprocessed base) <+: rx.received
          rw [hnil, List.append_nil]
          exact h.first
        · refine Or.inr (Or.inr (Or.inl ⟨hlsr, fun hin => ?_⟩))
          obtain ⟨-, hfirst⟩ := hfront hin
          have hlen : 1 ≤ (rx.ring.contents ++ rx.unprocessed base).length :=
            List.length_pos_iff.mpr hnil
          rw [hheld, List.take_append_of_le_length hlen] at hfirst
          have hheld' : UartRx.held base { rx with
                fifo := fifo
                lost := rx.lost ++ [byte]
                enabled := false
                dmaError := true } =
              (rx.ring.contents ++ rx.unprocessed base) ++ fifo := (List.append_assoc _ _ _).symm
          refine ⟨by rw [hheld']; exact List.append_ne_nil_of_left_ne_nil hnil fifo, ?_⟩
          rw [hheld', List.take_append_of_le_length hlen]
          exact hfirst
      · exact absurd henabled (by rw [(h.wired.stopped hdma).1]; exact Bool.false_ne_true)
    · refine List.Perm.trans ?_ h.conserved
      rw [hheld]
      refine List.Perm.append_left _ ?_
      change (rx.ring.contents ++ (rx.unprocessed base ++ fifo) ++ (rx.lost ++ [byte])).Perm _
      rw [← List.append_assoc rx.ring.contents, List.append_assoc, List.append_assoc (_ ++ _)]
      refine List.Perm.append_left _ ?_
      rw [List.cons_append, ← List.append_assoc]
      exact List.perm_append_singleton byte _
  next => exact h

theorem Ordered.hardware (h : rx.Ordered base inTryGet) (step : Hardware α) :
    (rx.hardware base step).Ordered base inTryGet := by
  cases step with
  | arrive byte => exact h.arrive byte
  | lineError => exact h.lineError
  | transfer => exact h.transfer
  | busError => exact h.busError

theorem Ordered.hardwareRun (h : rx.Ordered base inTryGet) (steps : List (Hardware α)) :
    (rx.hardwareRun base steps).Ordered base inTryGet := by
  induction steps generalizing rx with
  | nil => exact h
  | cons step steps ih => exact ih (h.hardware step)

/-- What the hardware leaves alone, and what it does not take back. -/
structure HardwareOnly (rx rx' : UartRx α) : Prop where
  ring : rx'.ring = rx.ring
  last : rx'.lastProcessedPosition = rx.lastProcessedPosition
  rxError : rx'.rxError = rx.rxError
  returned : rx'.returned = rx.returned
  destAddr : rx.destAddr ≤ rx'.destAddr
  terminalCount : rx.terminalCount → rx'.terminalCount
  dmaError : rx.dmaError → rx'.dmaError
  stopped : rx.enabled = false → rx'.enabled = false ∧ rx'.destAddr = rx.destAddr ∧
    rx'.terminalCount = rx.terminalCount ∧ rx'.dmaError = rx.dmaError

theorem HardwareOnly.refl (rx : UartRx α) : HardwareOnly rx rx :=
  ⟨rfl, rfl, rfl, rfl, le_rfl, id, id, fun h => ⟨h, rfl, rfl, rfl⟩⟩

theorem HardwareOnly.trans {rx' rx'' : UartRx α} (h : HardwareOnly rx rx')
    (h' : HardwareOnly rx' rx'') : HardwareOnly rx rx'' := by
  refine ⟨h'.ring.trans h.ring, h'.last.trans h.last, h'.rxError.trans h.rxError,
    h'.returned.trans h.returned, h.destAddr.trans h'.destAddr,
    h'.terminalCount ∘ h.terminalCount, h'.dmaError ∘ h.dmaError, fun hoff => ?_⟩
  obtain ⟨hoff', hdest, hcount, herr⟩ := h.stopped hoff
  obtain ⟨hoff'', hdest', hcount', herr'⟩ := h'.stopped hoff'
  exact ⟨hoff'', hdest'.trans hdest, hcount'.trans hcount, herr'.trans herr⟩

theorem hardware_only (hwired : rx.Wired base) (step : Hardware α) :
    HardwareOnly rx (rx.hardware base step) := by
  have hended := hwired.ended
  cases step with
  | arrive byte =>
    simp only [UartRx.hardware]
    split_ifs <;> exact ⟨rfl, rfl, rfl, rfl, le_rfl, id, id, fun h => ⟨h, rfl, rfl, rfl⟩⟩
  | lineError => exact ⟨rfl, rfl, rfl, rfl, le_rfl, id, id, fun h => ⟨h, rfl, rfl, rfl⟩⟩
  | transfer =>
    simp only [UartRx.hardware]
    split
    next _ _ _ _ henabled _ =>
      refine ⟨rfl, rfl, rfl, rfl, Nat.le_succ _, fun ht => ?_, id, fun hoff => ?_⟩
      · simp [(hended ht).2] at henabled
      · simp [hoff] at henabled
    next => exact HardwareOnly.refl rx
  | busError =>
    simp only [UartRx.hardware]
    split
    next _ _ _ _ henabled _ =>
      exact ⟨rfl, rfl, rfl, rfl, le_rfl, id, fun _ => rfl, fun hoff => by simp [hoff] at henabled⟩
    next => exact HardwareOnly.refl rx

theorem hardwareRun_only (hwired : rx.Wired base) (steps : List (Hardware α)) :
    HardwareOnly rx (rx.hardwareRun base steps) := by
  induction steps generalizing rx with
  | nil => exact HardwareOnly.refl rx
  | cons step steps ih => exact (hardware_only hwired step).trans (ih (hwired.hardware step))

/-! ## What the driver does -/

theorem Ordered.withError (h : rx.Ordered base inTryGet) :
    Ordered base inTryGet { rx with rxError := true } :=
  ⟨⟨h.wired.ring, h.wired.base_le, h.wired.le_end, h.wired.last_le, h.wired.room, h.wired.ended,
    h.wired.stopped⟩, h.first, Or.inr (Or.inl rfl), h.conserved⟩

theorem Ordered.checkUartErrors (h : rx.Ordered base False) :
    rx.checkUartErrors.Ordered base True := by
  refine ⟨⟨h.wired.ring, h.wired.base_le, h.wired.le_end, h.wired.last_le, h.wired.room,
    h.wired.ended, h.wired.stopped⟩, h.first, ?_, h.conserved⟩
  obtain hwhole | herr | ⟨hlsr, -⟩ | hcut := h.rest
  · exact Or.inl hwhole
  · exact Or.inr (Or.inl (by simp [UartRx.checkUartErrors, herr]))
  · exact Or.inr (Or.inl (by simp [UartRx.checkUartErrors, hlsr]))
  · exact Or.inr (Or.inr (Or.inr hcut))

/-- Bytes move from the buffer to the ring in order; those without room are lost and noticed. -/
theorem Ordered.process (h : rx.Ordered base inTryGet) (position : ℕ)
    (hlow : rx.lastProcessedPosition ≤ position) (hhigh : position ≤ rx.destAddr - base) :
    (rx.process position).Ordered base inTryGet := by
  -- `source` is what is pushed now, and `left` what the channel has written beyond it.
  set source := slice rx.dmaBuffer rx.lastProcessedPosition (position - rx.lastProcessedPosition)
    with hsource
  set pushed := (rx.ring.push source).2 with hpushed
  set left := slice rx.dmaBuffer position (rx.destAddr - base - position) with hleft
  have hsplit : rx.unprocessed base = source ++ left := by
    have happend := slice_append rx.dmaBuffer rx.lastProcessedPosition
      (position - rx.lastProcessedPosition) (rx.destAddr - base - position)
    rw [Nat.add_sub_of_le hlow] at happend
    rw [unprocessed, hsource, hleft, ← happend]
    congr 1
    omega
  have hcontents : (rx.ring.push source).1.contents = rx.ring.contents ++ source.take pushed :=
    DmaRxRing.push_contents h.wired.ring
  have hring : (rx.process position).ring.contents ++ (rx.process position).unprocessed base =
      rx.ring.contents ++ (source.take pushed ++ left) := by
    rw [← List.append_assoc, ← hcontents]
    rfl
  have hheld : (rx.process position).held base =
      rx.ring.contents ++ (source.take pushed ++ (left ++ rx.fifo)) := by
    rw [held, ← List.append_assoc, hring, List.append_assoc, List.append_assoc]
    rfl
  have hwired : (rx.process position).Wired base :=
    ⟨DmaRxRing.push_consistent h.wired.ring, h.wired.base_le, h.wired.le_end, hhigh, h.wired.room,
      h.wired.ended, h.wired.stopped⟩
  have hlost : (rx.process position).lost = rx.lost ++ source.drop pushed := rfl
  refine ⟨hwired, h.first, ?_, ?_⟩
  · -- What does not fit the ring is lost, and the error flag is then set.
    by_cases hall : pushed = source.length
    · have hsame : (rx.process position).ring.contents ++ (rx.process position).unprocessed base =
          rx.ring.contents ++ rx.unprocessed base := by
        rw [hring, hall, List.take_length, hsplit]
      have hheld' : (rx.process position).held base = rx.held base := by
        rw [hheld, hall, List.take_length, held, hsplit, List.append_assoc]
      obtain hwhole | herr | ⟨hlsr, hfront⟩ | ⟨hdma, hcut⟩ := h.rest
      · exact Or.inl (by rw [Whole, hheld']; exact hwhole)
      · exact Or.inr (Or.inl (by simp [UartRx.process, appendLocked, herr]))
      · exact Or.inr (Or.inr (Or.inl ⟨hlsr, fun hin => (hfront hin).append rfl
          (hheld'.trans (List.append_nil _).symm) (List.append_nil _).symm⟩))
      · exact Or.inr (Or.inr (Or.inr ⟨hdma, by rw [hsame]; exact hcut⟩))
    · exact Or.inr (Or.inl (by simp [UartRx.process, appendLocked, ← hsource, ← hpushed, hall]))
  · refine List.Perm.trans ?_ h.conserved
    rw [hheld, hlost, held, hsplit]
    refine List.Perm.append_left _ ?_
    nth_rewrite 3 [← List.take_append_drop pushed source]
    simp only [List.append_assoc]
    refine List.Perm.append_left _ (List.Perm.append_left _ ?_)
    have hswap : (left ++ (rx.fifo ++ rx.lost) ++ source.drop pushed).Perm
        (source.drop pushed ++ (left ++ (rx.fifo ++ rx.lost))) := List.perm_append_comm
    simpa only [List.append_assoc] using hswap

theorem Ordered.capturePartialLocked (h : rx.Ordered base inTryGet) (during : List (Hardware α)) :
    (rx.capturePartialLocked base during).Ordered base inTryGet := by
  have hrun := h.hardwareRun during
  have honly := hardwareRun_only h.wired during
  simp only [UartRx.capturePartialLocked]
  split_ifs with hrange hbehind hmoved
  · exact hrun.withError
  · exact hrun.withError
  · exact hrun.process _ (by omega) (Nat.sub_le_sub_right honly.destAddr base)
  · exact hrun

/-- Where the channel has stopped, everything it has written gets processed. -/
theorem capturePartialLocked_stopped (hwired : rx.Wired base) (hoff : rx.enabled = false)
    (during : List (Hardware α)) :
    (rx.capturePartialLocked base during).unprocessed base = [] ∧
      (rx.capturePartialLocked base during).enabled = false ∧
      (rx.capturePartialLocked base during).terminalCount = rx.terminalCount := by
  have honly := hardwareRun_only hwired during
  obtain ⟨hoff', hdest, hcount, -⟩ := honly.stopped hoff
  have hbase := hwired.base_le
  have hend := hwired.le_end
  have hlast := hwired.last_le
  simp only [UartRx.capturePartialLocked]
  rw [if_neg (by omega), if_neg (by rw [honly.last]; omega)]
  split_ifs with hmoved
  · refine ⟨?_, hoff', hcount⟩
    simp [unprocessed, process, appendLocked, hdest]
  · refine ⟨?_, hoff', hcount⟩
    rw [unprocessed, hdest, ← not_not.mp hmoved, Nat.sub_self, slice_zero]

theorem Ordered.tryGet (h : rx.Ordered base False) (during : ℕ → List (Hardware α)) :
    (rx.tryGet base during).1.Ordered base False := by
  have hcapture := (h.checkUartErrors.hardwareRun (during 0)).capturePartialLocked (during 1)
  have hcall := hcapture.hardwareRun (during 2)
  simp only [UartRx.tryGet]
  generalize ((rx.checkUartErrors.hardwareRun base (during 0)).capturePartialLocked base
    (during 1)).hardwareRun base (during 2) = rx at hcall ⊢
  split_ifs with herr
  · exact hcall.afterCall
  -- With no error seen since the last call, the front of the ring is the next byte that came.
  have hpop := DmaRxRing.pop_contents hcall.wired.ring 1
  have hlen := DmaRxRing.length_pop rx.ring 1
  generalize hpopped : (rx.ring.pop 1).2 = popped at hpop hlen ⊢
  generalize hring : (rx.ring.pop 1).1 = ring at hpop ⊢
  have hwired : Wired base { rx with ring := ring, returned := rx.returned ++ popped } :=
    ⟨hring ▸ DmaRxRing.pop_consistent hcall.wired.ring 1, hcall.wired.base_le, hcall.wired.le_end,
      hcall.wired.last_le, hcall.wired.room, hcall.wired.ended, hcall.wired.stopped⟩
  have hheld : rx.held base =
      popped ++ UartRx.held base { rx with ring := ring, returned := rx.returned ++ popped } := by
    rw [held, ← hpop, List.append_assoc]
    rfl
  refine ⟨hwired, ?_, ?_, ?_⟩
  · -- the bytes returned stay a prefix of those that came
    obtain hwhole | herr' | ⟨-, hfront⟩ | ⟨-, hcut⟩ := hcall.rest
    · rw [Whole, hheld, ← List.append_assoc] at hwhole
      rw [hwhole]
      exact List.prefix_append _ _
    · exact absurd herr' herr
    · -- one byte at most is returned, and it is the one in front
      obtain ⟨-, hfirst⟩ := hfront trivial
      refine List.IsPrefix.trans ((List.prefix_append_right_inj _).mpr ?_) hfirst
      rw [hheld, List.take_append]
      refine List.IsPrefix.trans ?_ (List.prefix_append _ _)
      rw [List.take_of_length_le (by omega)]
    · rw [← hpop, List.append_assoc, ← List.append_assoc] at hcut
      exact (List.prefix_append _ _).trans hcut
  · obtain hwhole | herr' | ⟨hlsr, -⟩ | ⟨hdma, hcut⟩ := hcall.rest
    · refine Or.inl ?_
      rw [Whole, hheld, ← List.append_assoc] at hwhole
      exact hwhole
    · exact absurd herr' herr
    · exact Or.inr (Or.inr (Or.inl ⟨hlsr, False.elim⟩))
    · refine Or.inr (Or.inr (Or.inr ⟨hdma, ?_⟩))
      rw [← hpop, List.append_assoc, ← List.append_assoc] at hcut
      exact hcut
  · refine List.Perm.trans (List.Perm.of_eq ?_) hcall.conserved
    rw [hheld]
    simp only [List.append_assoc]

/-- A channel that has stopped, with all it has written processed, can be set up again. -/
theorem Ordered.setupRx (h : rx.Ordered base inTryGet) (hdone : rx.unprocessed base = [])
    (hcount : rx.terminalCount = false) (herr : rx.dmaError = false) :
    (rx.setupRx base).Ordered base inTryGet := by
  have hdone' : (rx.setupRx base).unprocessed base = [] := by
    simp [unprocessed, UartRx.setupRx]
  have hheld : (rx.setupRx base).held base = rx.held base := by
    rw [held, hdone', held, hdone]
    rfl
  refine ⟨⟨h.wired.ring, le_rfl, Nat.le_add_right _ _, Nat.zero_le _,
    fun _ => Nat.lt_add_of_pos_right (Nat.succ_pos 383), fun ht => ?_, fun he => ?_⟩, h.first, ?_, ?_⟩
  · exact absurd (hcount.symm.trans ht) Bool.false_ne_true
  · exact absurd (herr.symm.trans he) Bool.false_ne_true
  · obtain hwhole | herr' | ⟨hlsr, hfront⟩ | ⟨hdma, -⟩ := h.rest
    · exact Or.inl (by rw [Whole, hheld]; exact hwhole)
    · exact Or.inr (Or.inl herr')
    · exact Or.inr (Or.inr (Or.inl ⟨hlsr, fun hin => (hfront hin).append rfl
        (hheld.trans (List.append_nil _).symm) (List.append_nil _).symm⟩))
    · exact absurd (herr.symm.trans hdma) Bool.false_ne_true
  · rw [hheld]
    exact h.conserved

theorem unprocessed_eq_nil (rx : UartRx α) :
    rx.unprocessed base = [] ↔ rx.destAddr - base ≤ rx.lastProcessedPosition := by
  rw [← List.length_eq_zero_iff, unprocessed, length_slice, Nat.sub_eq_zero_iff_le]

theorem Ordered.clearTerminalCount (h : rx.Ordered base inTryGet) :
    Ordered base inTryGet { rx with terminalCount := false } :=
  ⟨⟨h.wired.ring, h.wired.base_le, h.wired.le_end, h.wired.last_le, h.wired.room,
    fun ht => absurd ht Bool.false_ne_true, fun he => ⟨(h.wired.stopped he).1, rfl⟩⟩, h.first,
    h.rest, h.conserved⟩

/-- An error is turned into the driver's own. -/
theorem Ordered.clearDmaError (h : rx.Ordered base inTryGet) :
    Ordered base inTryGet { rx with dmaError := false, rxError := true } :=
  ⟨⟨h.wired.ring, h.wired.base_le, h.wired.le_end, h.wired.last_le, h.wired.room,
    h.wired.ended, fun he => absurd he Bool.false_ne_true⟩, h.first, Or.inr (Or.inl rfl),
    h.conserved⟩

theorem Ordered.dmaIrqHandler (h : rx.Ordered base False) (during : ℕ → List (Hardware α)) :
    (rx.dmaIrqHandler base during).Ordered base False := by
  -- The hardware goes on between any two reads of the handler, so what a read says of the channel
  -- is carried over the steps behind it.
  have hcheck := h.checkUartErrors
  have hflags := hcheck.hardwareRun (during 0)
  have honly := hardwareRun_only hcheck.wired (during 0)
  have hbegin := hflags.hardwareRun (during 1)
  have hbeginOnly := hardwareRun_only hflags.wired (during 1)
  simp only [UartRx.dmaIrqHandler]
  generalize (rx.checkUartErrors.hardwareRun base (during 0)).hardwareRun base (during 1) = begun
    at hbegin hbeginOnly ⊢
  split_ifs with herr hcount hcount
  · -- a channel stopped by an error has not ended its block
    have hended := hbeginOnly.terminalCount (honly.terminalCount hcount)
    rw [(hbegin.wired.stopped (hbeginOnly.dmaError herr)).2] at hended
    exact absurd hended Bool.false_ne_true
  · obtain ⟨hoff, hend⟩ := hbegin.wired.stopped (hbeginOnly.dmaError herr)
    have hcapture := hbegin.capturePartialLocked (during 2)
    obtain ⟨hdone, hoff', hend'⟩ := capturePartialLocked_stopped hbegin.wired hoff (during 2)
    have hafter := hardwareRun_only hcapture.wired (during 3)
    obtain ⟨-, hdest, hcount', -⟩ := hafter.stopped hoff'
    refine ((hcapture.hardwareRun (during 3)).clearDmaError.setupRx ?_ ?_ rfl).afterCall
    · rw [unprocessed_eq_nil] at hdone ⊢
      simp only [hdest, hafter.last]
      exact hdone
    · exact hcount'.trans (hend'.trans hend)
  · -- the block has ended, so that the channel stays where it is until it is set up again
    have hoff := (hcheck.wired.ended hcount).2
    obtain ⟨hoff, -, hcountFlags, -⟩ := honly.stopped hoff
    obtain ⟨hoff, -, hcountBegun, herrBegun⟩ := hbeginOnly.stopped hoff
    have hend := (hbegin.wired.ended (hcountBegun.trans (hcountFlags.trans hcount))).1
    have hclear := hbegin.clearTerminalCount
    have hrun := hclear.hardwareRun (during 2)
    have hrunOnly := hardwareRun_only hclear.wired (during 2)
    obtain ⟨-, hdest, hcountRun, herrRun⟩ := hrunOnly.stopped hoff
    have hdestEnd := hdest.trans hend
    have hlast := hrun.wired.last_le
    have hprocess := hrun.process dmaBufferSize (by omega) (by omega)
    refine (hprocess.setupRx ?_ ?_ ?_).afterCall
    · rw [unprocessed_eq_nil]
      simp only [UartRx.process, appendLocked, hdestEnd]
      omega
    · exact hcountRun
    · exact herrRun.trans (herrBegun.trans (Bool.eq_false_iff.mpr herr))
  · exact hbegin.afterCall

/-- Nothing is held but the new input, and the channel is off. -/
structure Discarded (rx : UartRx α) : Prop where
  off : rx.enabled = false ∧ rx.terminalCount = false ∧ rx.dmaError = false
  returned : rx.returned = []
  rest : rx.received = rx.fifo ∨ rx.lsrError
  conserved : (rx.fifo ++ rx.lost).Perm rx.received

theorem Discarded.hardware (h : rx.Discarded) (step : Hardware α) :
    (rx.hardware base step).Discarded := by
  obtain ⟨⟨hoff, hcount, herr⟩, hreturned, hrest, hconserved⟩ := h
  cases step with
  | arrive byte =>
    simp only [UartRx.hardware]
    split_ifs with hroom
    · refine ⟨⟨hoff, hcount, herr⟩, hreturned, hrest.imp_left fun heq => ?_, ?_⟩
      · simp only [heq]
      · refine List.Perm.trans ?_ (hconserved.append_right [byte])
        simp only [List.append_assoc]
        exact List.perm_append_comm.append_left _
    · refine ⟨⟨hoff, hcount, herr⟩, hreturned, Or.inr rfl, ?_⟩
      have hperm := hconserved.append_right [byte]
      rwa [List.append_assoc] at hperm
  | lineError => exact ⟨⟨hoff, hcount, herr⟩, hreturned, Or.inr rfl, hconserved⟩
  | transfer =>
    simp only [UartRx.hardware]
    split
    next _ _ _ _ henabled _ => exact absurd henabled (by rw [hoff]; exact Bool.false_ne_true)
    next => exact ⟨⟨hoff, hcount, herr⟩, hreturned, hrest, hconserved⟩
  | busError =>
    simp only [UartRx.hardware]
    split
    next _ _ _ _ henabled _ => exact absurd henabled (by rw [hoff]; exact Bool.false_ne_true)
    next => exact ⟨⟨hoff, hcount, herr⟩, hreturned, hrest, hconserved⟩

theorem Discarded.hardwareRun (h : rx.Discarded) (steps : List (Hardware α)) :
    (rx.hardwareRun base steps).Discarded := by
  induction steps generalizing rx with
  | nil => exact h
  | cons step steps ih => exact ih (h.hardware step)

/-- With the ring emptied and the channel set up the new input starts. -/
theorem Discarded.restart (h : rx.Discarded) :
    (setupRx base { rx with ring := rx.ring.reset, rxError := false }).Ordered base False := by
  obtain ⟨⟨-, hcount, herr⟩, hreturned, hrest, hconserved⟩ := h
  have hheld : held base (setupRx base { rx with ring := rx.ring.reset, rxError := false }) =
      rx.fifo := by
    simp [held, unprocessed, UartRx.setupRx]
  refine ⟨⟨DmaRxRing.reset_consistent, le_rfl, Nat.le_add_right _ _, Nat.zero_le _,
    fun _ => Nat.lt_add_of_pos_right (Nat.succ_pos 383), fun ht => ?_, fun he => ?_⟩, ?_, ?_, ?_⟩
  · exact absurd (hcount.symm.trans ht) Bool.false_ne_true
  · exact absurd (herr.symm.trans he) Bool.false_ne_true
  · simp only [UartRx.setupRx, hreturned]
    exact List.nil_prefix
  · obtain heq | hlsr := hrest
    · refine Or.inl ?_
      rw [Whole, hheld]
      simp only [UartRx.setupRx, hreturned, heq, List.nil_append]
    · exact Or.inr (Or.inr (Or.inl ⟨hlsr, False.elim⟩))
  · rw [hheld]
    simpa only [UartRx.setupRx, hreturned, List.nil_append] using hconserved

theorem Wired.stop (h : rx.Wired base) :
    Wired base { rx with enabled := false, terminalCount := false, dmaError := false } :=
  ⟨h.ring, h.base_le, h.le_end, h.last_le, fun he => absurd he Bool.false_ne_true,
    fun ht => absurd ht Bool.false_ne_true, fun he => absurd he Bool.false_ne_true⟩

theorem Ordered.takeError (h : rx.Ordered base False) (during : ℕ → List (Hardware α)) :
    (rx.takeError base during).1.Ordered base False := by
  have hcheck := h.checkUartErrors
  have htaken : Ordered base True
      { rx.checkUartErrors with ring := (rx.checkUartErrors.ring.takeOverflow).1 } :=
    ⟨⟨⟨hcheck.wired.ring.tail_lt, hcheck.wired.ring.count_le, hcheck.wired.ring.head_eq⟩,
      hcheck.wired.base_le, hcheck.wired.le_end, hcheck.wired.last_le, hcheck.wired.room,
      hcheck.wired.ended, hcheck.wired.stopped⟩, hcheck.first, hcheck.rest, hcheck.conserved⟩
  have hrun := (htaken.hardwareRun (during 0)).wired
  simp only [UartRx.takeError]
  split_ifs with hnone
  · exact htaken.afterCall
  · refine Discarded.restart (Discarded.hardwareRun ⟨?_, rfl, Or.inl rfl, List.Perm.refl _⟩ _)
    have hoff := (hardwareRun_only hrun.stop (during 1)).stopped rfl
    exact ⟨hoff.1, hoff.2.2⟩

theorem Ordered.step (h : rx.Ordered base False) (event : RxEvent α) :
    (rx.step base event).Ordered base False := by
  cases event with
  | hardware step => exact h.hardware step
  | dmaIrqHandler during => exact h.dmaIrqHandler during
  | tryGet during => exact h.tryGet during
  | takeError during => exact h.takeError during

theorem ordered_initial (data dmaBuffer : ℕ → α) :
    (initial base data dmaBuffer).Ordered base False := by
  have hheld : (initial base data dmaBuffer).held base = [] := by
    simp [held, unprocessed, initial, DmaRxRing.contents]
  refine ⟨⟨⟨Nat.succ_pos 543, Nat.zero_le _, rfl⟩, le_rfl, Nat.le_add_right _ _, Nat.zero_le _,
    fun _ => Nat.lt_add_of_pos_right (Nat.succ_pos 383), fun ht => absurd ht Bool.false_ne_true,
    fun he => absurd he Bool.false_ne_true⟩, List.prefix_refl _, Or.inl ?_, ?_⟩
  · rw [Whole, hheld]
    rfl
  · rw [hheld]
    exact List.Perm.refl _

theorem ordered_run (data dmaBuffer : ℕ → α) (events : List (RxEvent α)) :
    (events.foldl (step base) (initial base data dmaBuffer)).Ordered base False :=
  List.foldlRecOn events (step base) (ordered_initial data dmaBuffer)
    fun _ h event _ => h.step event

/-! ## What the callers see -/

theorem capturePartialLocked_returned (hwired : rx.Wired base) (during : List (Hardware α)) :
    (rx.capturePartialLocked base during).returned = rx.returned := by
  have honly := hardwareRun_only hwired during
  simp only [UartRx.capturePartialLocked]
  split_ifs <;> exact honly.returned

/-- The history of what has been returned is what `try_get` gave to its callers. -/
theorem tryGet_returned (h : rx.Ordered base False) (during : ℕ → List (Hardware α)) :
    (rx.tryGet base during).1.returned = rx.returned ++ (rx.tryGet base during).2.toList := by
  have hcheck := h.checkUartErrors
  have hfirst := hcheck.hardwareRun (during 0)
  have hcapture := hfirst.capturePartialLocked (during 1)
  have hsame : (((rx.checkUartErrors.hardwareRun base (during 0)).capturePartialLocked base
      (during 1)).hardwareRun base (during 2)).returned = rx.returned :=
    (hardwareRun_only hcapture.wired (during 2)).returned.trans
      ((capturePartialLocked_returned hfirst.wired (during 1)).trans
        (hardwareRun_only hcheck.wired (during 0)).returned)
  simp only [UartRx.tryGet]
  generalize ((rx.checkUartErrors.hardwareRun base (during 0)).capturePartialLocked base
    (during 1)).hardwareRun base (during 2) = last at hsame ⊢
  split_ifs with herr
  · rw [hsame, Option.toList_none, List.append_nil]
  · have hlen : (last.ring.pop 1).2.length ≤ 1 := by
      rw [DmaRxRing.length_pop]
      exact min_le_left 1 _
    rw [hsame]
    generalize (last.ring.pop 1).2 = popped at hlen
    cases popped with
    | nil => rfl
    | cons byte more =>
      have hmore : more = [] := List.eq_nil_of_length_eq_zero (by simpa using hlen)
      rw [hmore]
      rfl

theorem takeError_reports (h : rx.rxError ∨ rx.lsrError) (during : ℕ → List (Hardware α)) :
    (rx.takeError base during).2 = true := by
  have herr : rx.checkUartErrors.rxError = true := by
    simpa only [UartRx.checkUartErrors, Bool.or_eq_true] using h
  simp only [UartRx.takeError, herr, Bool.true_or, Bool.not_true, Bool.false_eq_true, if_false]

theorem dmaIrqHandler_notices (hwired : rx.Wired base) (h : rx.dmaError)
    (during : ℕ → List (Hardware α)) : (rx.dmaIrqHandler base during).rxError = true := by
  have hcheck : rx.checkUartErrors.Wired base :=
    ⟨hwired.ring, hwired.base_le, hwired.le_end, hwired.last_le, hwired.room, hwired.ended,
      hwired.stopped⟩
  have hseen := (hardwareRun_only hcheck (during 0)).dmaError h
  simp only [UartRx.dmaIrqHandler]
  rw [if_pos hseen]
  split_ifs <;> rfl

/-- As long as nothing is pending everything received is returned or held. -/
theorem Ordered.nothing_lost (h : rx.Ordered base False) (hnone : ¬ rx.ErrorPending) :
    rx.received = rx.returned ++ rx.held base ∧ rx.lost = [] := by
  have hwhole : rx.received = rx.returned ++ rx.held base := by
    obtain hwhole | herr | ⟨hlsr, -⟩ | ⟨hdma, -⟩ := h.rest
    · exact hwhole
    · exact absurd (Or.inl herr) hnone
    · exact absurd (Or.inr (Or.inl hlsr)) hnone
    · exact absurd (Or.inr (Or.inr hdma)) hnone
  refine ⟨hwhole, ?_⟩
  have hlen := h.conserved.length_eq
  rw [hwhole] at hlen
  simp only [List.length_append] at hlen
  exact List.length_eq_zero_iff.mp (by omega)

/-- Where the bytes of a stream can be told apart, nothing behind a lost one has been returned. -/
theorem Ordered.before_lost (h : rx.Ordered base False) (hnodup : rx.received.Nodup) {byte : α}
    (hlost : byte ∈ rx.lost) {earlier later : List α}
    (hreceived : rx.received = earlier ++ byte :: later) : rx.returned <+: earlier := by
  have hfirst := h.first
  rw [hreceived] at hfirst
  obtain hlt | hle := Nat.lt_or_ge earlier.length rx.returned.length
  · have hshort : earlier ++ [byte] <+: earlier ++ byte :: later :=
      (List.prefix_append_right_inj _).mpr (List.prefix_append [byte] later)
    have hin : earlier ++ [byte] <+: rx.returned :=
      List.prefix_of_prefix_length_le hshort hfirst (by simpa using hlt)
    have hdistinct := h.conserved.nodup_iff.mpr hnodup
    have hmem : byte ∈ rx.returned := hin.subset (by simp)
    exact absurd rfl ((List.nodup_append.mp hdistinct).2.2 byte hmem byte
      (List.mem_append_right _ hlost))
  · exact List.prefix_of_prefix_length_le hfirst (List.prefix_append _ _) hle

/-- In every run the bytes returned since the input was last discarded are the first of those
received since then; the others are held, or lost with an error pending, and with a byte lost
nothing behind it is returned before the error has been reported. -/
theorem received_in_order (data dmaBuffer : ℕ → α) (events : List (RxEvent α)) :
    let rx := events.foldl (step base) (initial base data dmaBuffer)
    rx.returned <+: rx.received ∧
      (rx.returned ++ (rx.held base ++ rx.lost)).Perm rx.received ∧
      (¬ rx.ErrorPending → rx.received = rx.returned ++ rx.held base ∧ rx.lost = []) ∧
      (rx.received.Nodup → ∀ byte ∈ rx.lost, ∀ earlier later,
        rx.received = earlier ++ byte :: later → rx.returned <+: earlier) ∧
      (∀ during, rx.rxError ∨ rx.lsrError → (rx.takeError base during).2 = true) ∧
      (∀ during, rx.dmaError → (rx.dmaIrqHandler base during).rxError = true) ∧
      rx.ring.Consistent := by
  intro rx
  have h : rx.Ordered base False := ordered_run data dmaBuffer events
  exact ⟨h.first, h.conserved, h.nothing_lost,
    fun hnodup byte hlost earlier later => h.before_lost hnodup hlost,
    fun during herr => takeError_reports herr during,
    fun during herr => dmaIrqHandler_notices h.wired herr during, h.wired.ring⟩

/-- A byte that arrives and is moved at once. -/
def moved (byte : UInt8) : List (RxEvent UInt8) := [.hardware (.arrive byte), .hardware .transfer]

/-- A block of 384 bytes, 161 bytes more, and a `try_get` that finds the ring a byte too small. -/
def overfull : List (RxEvent UInt8) :=
  ((List.range 384).map UInt8.ofNat).flatMap moved ++
    .dmaIrqHandler (fun _ => []) ::
      (((List.range 161).map UInt8.ofNat).flatMap moved ++ [.tryGet fun _ => []])

/-- A receiver that shows an error, which is then reported. -/
def inError : UartRx UInt8 := (initial 0 (fun _ => 0) fun _ => 0).hardware 0 .lineError

set_option maxRecDepth 100000 in
/-- Between two reports of an error only the last of 545 bytes is lost, and of those before it not
even the first is returned. -/
theorem discarded_before_lost :
    let rx := overfull.foldl (step 0) (inError.takeError 0 fun _ => []).1
    (inError.takeError 0 fun _ => []).2 = true ∧ (rx.takeError 0 fun _ => []).2 = true ∧
      rx.received.length = 545 ∧ rx.received.drop 544 = rx.lost ∧ rx.lost = [160] ∧
      rx.returned = [] := by
  decide +kernel

end UartRx

end CarveraFirmware.Serial
