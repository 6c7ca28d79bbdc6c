import Mathlib
import CarveraFirmware.Motion.RingOrder

/-!
# Every interleaving of the main program and the step interrupt

Each step of the main program keeps the invariant of the ring, so it holds in every state the
two get to, and with it what the queue is for: blocks go out once, in order, and none is lost
but to a flush or a halt.
-/

namespace CarveraFirmware.Motion

open RingIndex

namespace Conveyor.Inv

variable {length : ℕ} {s : Conveyor} {call : Call} {rest : List Call}

/-- With only calls that are neither appends nor flushes below, nothing is being filled. -/
theorem not_filling (hquiet : ∀ c ∈ rest, c.quiet = true) :
    ¬ (.append .room ∈ rest ∨ .append .queue ∈ rest) := by
  rintro (hc | hc) <;> cases hquiet _ hc

/-- Writing to the head slot, with no block waiting in it. -/
theorem writeHead (h : Inv length s) (hfree : ¬ (.append .room ∈ s.stack ∨ .append .queue ∈ s.stack))
    (x : Option ℕ) : Inv length { s with slots := Function.update s.slots s.head x } := by
  refine ⟨h.ring, h.handing, fun c hle hlt => ?_, fun hc => absurd hc hfree, h.stackOk, h.flushStop,
    h.flushWhy, h.collecting, h.emptied, h.guard, h.aborting⟩
  have hne : c % length ≠ s.head := h.ring.head ▸ h.ring.slot_ne_head hle hlt
  exact (h.slots c hle hlt).imp_left fun hs => (Function.update_of_ne hne _ _).trans hs

/-- The block at the head joins the queue. -/
theorem produce (h : Inv length s) (hs : s.stack = .append .queue :: rest)
    (hhalted : s.halted = false) (habort : s.abortMotion = false) (hroom : next length s.head ≠ s.tail) :
    Inv length { s with head := next length s.head, appended := s.appended + 1, stack := rest } := by
  have hok : StackOk (.append .queue :: rest) := hs ▸ h.stackOk
  have hring := h.ring
  have hquiet := hok.2.1 rfl
  have hturn : s.appended + 1 < s.collected + length := by
    have := hring.turn
    have := mt hring.next_head_eq_tail.mpr hroom
    omega
  have hflush : s.flush = false := by
    by_contra hf
    rw [Bool.not_eq_false] at hf
    rcases h.flushWhy hf with ha | ⟨halting, hc⟩
    · exact absurd (habort.symm.trans ha) (by simp)
    · rw [hs] at hc
      rcases hc with hc | hc
      · cases hquiet _ ((List.mem_cons.mp hc).resolve_left (by simp))
      · cases hquiet _ ((List.mem_cons.mp hc).resolve_left (by simp))
  -- The block at the head is filled already, so publishing it moves the head only.
  refine ⟨⟨hring.collected_le, Nat.le_succ_of_le hring.passed_le, hturn, ?_, hring.tail,
    hring.isrTail⟩, ⟨h.handing.sorted, fun x hx => Nat.lt_succ_of_lt (h.handing.lt x hx), h.handing.le,
      fun hr => ?_, h.handing.passedOver, Nat.le_succ_of_le h.handing.stop_le⟩,
    fun c hle hlt => ?_, fun hc => absurd hc (not_filling hquiet), hok.pop, fun hf => ?_, fun hf => ?_, ?_,
    fun halting hc => (hok.suspended hc).elim, fun hlt hcase => ?_, fun hc => (hok.suspended hc).elim⟩
  · change next length s.head = (s.appended + 1) % length
    rw [hring.head, next_mod hring.length_pos]
  · obtain ⟨hlt, hmem, hcur⟩ := h.handing.running hr
    exact ⟨Nat.lt_succ_of_lt hlt, hmem, hcur⟩
  · rcases Nat.lt_succ_iff_lt_or_eq.mp hlt with hlt | rfl
    · refine (h.slots c hle hlt).imp_right fun hc => absurd hc.2 ?_
      rw [hs]
      simp
    · exact .inl (h.filled (.inr (hs ▸ List.mem_cons_self)))
  · exact absurd (hflush.symm.trans hf) (by simp)
  · exact absurd (hflush.symm.trans hf) (by simp)
  · rintro (hc | hc) <;> exact (hok.suspended hc).elim
  · -- A block that was let go would be guarded, by a flush or a halt.
    rcases hcase with hh | ⟨hin, hr⟩
    · exact absurd (hhalted.symm.trans hh) (by simp)
    · rcases h.guard (h.handing.lt _ hin) (.inr ⟨hin, hr⟩) with ⟨hf, -⟩ | ⟨hh, -⟩
      · exact absurd (hflush.symm.trans hf) (by simp)
      · exact absurd (hhalted.symm.trans hh) (by simp)

theorem appendStep (h : Inv length s) {point : AppendPoint} (hs : s.stack = .append point :: rest) :
    Inv length (s.appendStep length rest point) := by
  have hok : StackOk (.append point :: rest) := hs ▸ h.stackOk
  have hfree : ¬ (.append .room ∈ rest ∨ .append .queue ∈ rest) := not_filling (hok.2.1 rfl)
  -- By the statement of `append_block` that is next.
  cases point with
  | fill hasSteps =>
    simp only [Conveyor.appendStep]
    split_ifs
    · exact h.pop hs rfl
    · have hw := h.writeHead (by rw [hs]; simpa using hfree) (some s.appended)
      refine hw.swap hs rfl (fun _ => rfl) (by simp) (fun _ => ?_) (by simp) (by simp) (by simp)
      change Function.update s.slots s.head (some s.appended) (s.appended % length) = _
      rw [h.ring.head, Function.update_self]
    · have hw := h.writeHead (by rw [hs]; simpa using hfree) (some s.appended)
      exact hw.swap hs rfl (fun _ => rfl) (by simp) (by simp) (by simp) (by simp) (by simp)
  | clear => exact (h.pop hs rfl).writeHead hfree none
  | room =>
    simp only [Conveyor.appendStep]
    split_ifs
    · have hpush := h.push .idle (hs ▸ hok.push trivial (by simp [Call.isAppend]) (by simp))
        .idle (by rw [hs]; rintro c ⟨⟩; trivial)
      rw [hs] at hpush
      exact hpush
    · exact h.swap hs rfl (fun _ => rfl) (by simp)
        (fun _ => h.filled (.inl (hs ▸ List.mem_cons_self))) (by simp) (by simp) (by simp)
  | queue =>
    simp only [Conveyor.appendStep]
    -- Halted or aborting the block is cleared, on a full ring the call waits, or it is published.
    split_ifs with hstop hfull
    · exact (h.pop hs rfl).writeHead hfree none
    · exact h
    · simp only [Bool.or_eq_true, not_or, Bool.not_eq_true] at hstop
      exact h.produce hs hstop.1 hstop.2 (by simpa [Conveyor.isFull] using hfull)

theorem checkQueue (h : Inv length s) (force timedOut : Bool) :
    Inv length (s.checkQueue length force timedOut) ∧
      (s.checkQueue length force timedOut).stack = s.stack := by
  unfold Conveyor.checkQueue
  split_ifs
  · exact ⟨h.flags s.running false s.hold, rfl⟩
  · exact ⟨h.flags s.running true s.hold, rfl⟩
  · exact ⟨h, rfl⟩

/-- The block at the tail, released by the interrupt, is cleared. -/
theorem clearTail (h : Inv length s) (hs : s.stack = .collect .clear :: rest) :
    Inv length { s with
      slots := Function.update s.slots s.tail none, stack := .collect .consume :: rest } := by
  have hok : StackOk (.collect .clear :: rest) := hs ▸ h.stackOk
  have hring := h.ring
  have hlt : s.collected < s.passed := h.collecting (.inl (by rw [hs]; rfl))
  have hle := hring.passed_le
  have hturn := hring.turn
  have hother : ∀ c, s.collected < c → c ≤ s.appended → c % length ≠ s.tail := fun c hc hca =>
    hring.tail ▸ (mod_ne hc (by omega)).symm
  have hswap : Inv length { s with stack := .collect .test :: rest } :=
    h.swap hs rfl (by simp [Call.isAppend]) (by simp) (by simp) (by simp) (by simp) (by simp)
  refine ⟨hring, h.handing, fun c hc hca => ?_, fun hc => ?_, hok.swap (by simp [Call.isAppend]) (by simp),
    h.flushStop, ?_, fun _ => hlt, by simp, ?_, by simp⟩
  · rcases Nat.eq_or_lt_of_le hc with rfl | hgt
    · exact .inr ⟨rfl, rfl⟩
    · refine .inl ((Function.update_of_ne (hother c hgt hca.le) _ _).trans ?_)
      exact (h.slots c hc hca).resolve_right fun he => hgt.ne' he.1
  · refine (Function.update_of_ne (hother _ (by omega) (le_refl _)) _ _).trans (h.filled ?_)
    rw [hs]
    simpa using hc
  · simpa using hswap.flushWhy
  · intro hlt' hcase
    simpa [Guarded] using hswap.guard hlt' hcase

theorem consumeTail (h : Inv length s) (hs : s.stack = .collect .consume :: rest) :
    Inv length { s with tail := next length s.tail, collected := s.collected + 1, stack := rest } := by
  have hok : StackOk (.collect .consume :: rest) := hs ▸ h.stackOk
  have hring := h.ring
  have hlt : s.collected < s.passed := h.collecting (.inr (by rw [hs]; rfl))
  have hturn : s.appended < s.collected + 1 + length := by
    have := hring.turn
    omega
  refine ⟨⟨hlt, hring.passed_le, hturn, hring.head, ?_, hring.isrTail⟩, h.handing, fun c hc hca => ?_,
    fun hc => h.filled ?_, hok.pop, h.flushStop, fun hf => ?_, ?_,
    fun halting hc => (hok.suspended hc).elim, fun hlt' hcase => ?_, fun hc => (hok.suspended hc).elim⟩
  · change next length s.tail = (s.collected + 1) % length
    rw [hring.tail, next_mod hring.length_pos]
  · have hc : s.collected + 1 ≤ c := hc
    exact .inl ((h.slots c (by omega) hca).resolve_right fun he => by omega)
  · rw [hs]
    exact hc.imp (List.mem_cons_of_mem _) (List.mem_cons_of_mem _)
  · have := h.flushWhy hf
    rw [hs] at this
    simpa using this
  · rintro (hc | hc) <;> exact (hok.suspended hc).elim
  · have := h.guard hlt' hcase
    rw [hs] at this
    rcases this with ⟨hf, halting, hc⟩ | ⟨-, halting, hc⟩
    · exact .inl ⟨hf, halting, by simpa using hc⟩
    · simp at hc

theorem collectStep (h : Inv length s) (timedOut : Bool) {point : CollectPoint}
    (hs : s.stack = .collect point :: rest) :
    Inv length (s.collectStep length timedOut rest point) := by
  cases point with
  | test =>
    have hcheck : ∀ t : Conveyor, Inv length t → t.stack = .collect .test :: rest →
        Inv length (if t.tail ≠ t.isrTail ∧ t.isEmpty = false then
          { t with stack := .collect .clear :: rest } else { t with stack := rest }) := by
      intro t ht hst
      split_ifs with hcond
      · refine ht.swap hst rfl (by simp [Call.isAppend]) (by simp) (by simp) (fun _ => ?_) (by simp)
          (by simp)
        exact lt_of_le_of_ne ht.ring.collected_le fun e => hcond.1 (ht.ring.tail_eq_isrTail.mpr e)
      · exact ht.pop hst rfl
    simp only [Conveyor.collectStep]
    -- a running conveyor checks the queue first, which moves nothing
    cases s.running with
    | true =>
      obtain ⟨hinv, hstack⟩ := h.checkQueue false timedOut
      exact hcheck _ hinv (hstack.trans hs)
    | false => exact hcheck s h hs
  | clear => exact h.clearTail hs
  | consume =>
    -- the test before has found a block, and only this loop takes one from the tail
    have hne : s.isEmpty = false := by
      have hlt := h.collecting (.inr (by rw [hs]; rfl))
      have := h.ring.passed_le
      simp only [Conveyor.isEmpty, decide_eq_false_iff_not]
      exact fun e => by have := h.ring.head_eq_tail.mp e; omega
    simp only [Conveyor.collectStep, hne, Bool.false_eq_true, if_false]
    exact h.consumeTail hs

/-- The flush flag goes up, for a flush about to wait for the queue to empty or for an abort. -/
theorem raise (h : Inv length s) (hplain : s.stack.head? ≠ some (.collect .consume))
    {stack : List Call} (hok : StackOk stack)
    (hsame : ∀ c ∈ stack, c ∈ s.stack ∨ ∃ halting, c = .flushQueue halting .loop)
    (hloop : ∀ halting, .flushQueue halting .loop ∈ s.stack → .flushQueue halting .loop ∈ stack)
    (htop : ∀ c, stack.head? = some c → c.Suspended)
    (hwhy : s.abortMotion = true ∨ ∃ halting, .flushQueue halting .loop ∈ stack)
    (hguard : (∃ halting, .flushQueue halting .loop ∈ stack) ∨
      ∀ halting, s.stack.head? ≠ some (.flushQueue halting .fetch) ∧
        s.stack.head? ≠ some (.flushQueue halting .flag)) :
    Inv length { s with flush := true, lastStop := s.appended, stack := stack } where
  ring := h.ring
  handing := ⟨h.handing.sorted, h.handing.lt, h.handing.le, h.handing.running,
    fun c hc => (h.handing.passedOver c hc).imp_right fun hst => hst.trans_le h.handing.stop_le,
    le_refl _⟩
  slots := fun c hle hlt => (h.slots c hle hlt).imp_right fun hc => absurd hc.2 hplain
  filled := by
    rintro (hc | hc)
    · exact h.filled (.inl ((hsame _ hc).resolve_right (by simp)))
    · exact h.filled (.inr ((hsame _ hc).resolve_right (by simp)))
  stackOk := hok
  flushStop := fun _ => rfl
  flushWhy := fun _ => hwhy.imp_right fun ⟨halting, hc⟩ => ⟨halting, .inl hc⟩
  collecting := by rintro (hc | hc) <;> exact (htop _ hc).elim
  emptied := fun _ hc => (htop _ hc).elim
  guard := fun hlt hcase => by
    rcases hguard with hc | hno
    · exact .inl ⟨rfl, hc⟩
    · rcases h.guard hlt hcase with ⟨-, halting, hc⟩ | ⟨-, halting, hc⟩
      · exact .inl ⟨rfl, halting, hloop halting hc⟩
      · exact absurd hc (not_or.mpr (hno halting))
  aborting := fun hc => (htop _ hc).elim

/-- A flush has seen the queue empty. -/
theorem emptyLoop (h : Inv length s) {halting : Bool} (hs : s.stack = .flushQueue halting .loop :: rest)
    (hempty : s.head = s.tail) :
    Inv length { s with stack := .flushQueue halting .unflag :: rest } := by
  have hok : StackOk (.flushQueue halting .loop :: rest) := hs ▸ h.stackOk
  have hall : s.collected = s.appended := h.ring.head_eq_tail.mp hempty
  have hcol := h.ring.collected_le
  have hnone : ¬ s.passed < s.appended := by omega
  refine ⟨h.ring, h.handing, fun c hle hlt => absurd (hle.trans_lt hlt) hall.not_lt,
    fun hc => h.filled ?_, hok.swap (by simp [Call.isAppend]) (by simp), h.flushStop,
    fun _ => .inr ⟨halting, .inr List.mem_cons_self⟩, by simp, fun _ _ => hall,
    fun hlt => absurd hlt hnone, by simp⟩
  rw [hs]
  simpa using hc

/-- The flush flag comes down once the queue is empty. -/
theorem lower (h : Inv length s) {halting : Bool} (hs : s.stack = .flushQueue halting .unflag :: rest) :
    Inv length { s with
      flush := false, stack := if halting then .flushQueue halting .unhold :: rest else rest } := by
  have hok : StackOk (.flushQueue halting .unflag :: rest) := hs ▸ h.stackOk
  have hempty : s.collected = s.appended := h.emptied halting (by rw [hs]; rfl)
  have hcol := h.ring.collected_le
  have hnone : ¬ s.passed < s.appended := by omega
  have hbelow : ∀ c, (if halting then .flushQueue halting .unhold :: rest else rest).head? = some c →
      c.Suspended ∨ c = .flushQueue halting .unhold := by
    intro c hc
    split_ifs at hc
    · exact .inr (Option.some.inj hc).symm
    · exact .inl (hok.suspended hc)
  refine ⟨h.ring, h.handing, fun c hle hlt => absurd (hle.trans_lt hlt) hempty.not_lt,
    fun hc => h.filled ?_, ?_, fun hf => (by cases hf), fun hf => (by cases hf), ?_, fun _ _ => hempty,
    fun hlt => absurd hlt hnone, fun hc => ?_⟩
  · rw [hs]
    split_ifs at hc
    · simpa using hc
    · exact hc.imp (List.mem_cons_of_mem _) (List.mem_cons_of_mem _)
  · dsimp only
    split_ifs
    · exact hok.swap (by simp [Call.isAppend]) (by simp)
    · exact hok.pop
  · rintro (hc | hc) <;> rcases hbelow _ hc with hc | hc <;> cases hc
  · rcases hbelow _ hc with hc | hc <;> cases hc

theorem flushStep (h : Inv length s) {halting : Bool} {point : FlushPoint}
    (hs : s.stack = .flushQueue halting point :: rest) :
    Inv length (s.flushStep length rest halting point) := by
  have hok : StackOk (.flushQueue halting point :: rest) := hs ▸ h.stackOk
  cases point with
  | fetch =>
    refine (h.flags s.running false s.hold).restack (hok.swap (by simp [Call.isAppend]) (by simp)) ?_ ?_
      (fun hc => h.filled ?_) (by simp) (by simp) ?_ ?_ (by simp)
    · simp only [hs]
      simp
    · simp only [hs]
      simp
    · rw [hs]
      simpa using hc
    · rintro halting' hc
      simp only [hs] at hc
      simp at hc
      simp [hc]
    · simp only [hs]
      simp
  | flag =>
    have hraise : Inv length { s with
        flush := true, lastStop := s.appended, stack := .flushQueue halting .loop :: rest } := by
      refine h.raise (by rw [hs]; simp) (hok.swap (by simp [Call.isAppend]) (by simp)) ?_ ?_
        (by rintro c ⟨⟩; trivial) (.inr ⟨halting, List.mem_cons_self⟩)
        (.inl ⟨halting, List.mem_cons_self⟩)
      · intro c hc
        rw [hs]
        rcases List.mem_cons.mp hc with rfl | hc
        · exact .inr ⟨halting, rfl⟩
        · exact .inl (List.mem_cons_of_mem _ hc)
      · intro halting' hc
        rw [hs] at hc
        exact List.mem_cons_of_mem _ ((List.mem_cons.mp hc).resolve_left (by simp))
    exact hraise.flags false s.allowFetch s.hold
  -- `loop` calls `check_queue` and then the idle events, until the queue is empty.
  | loop =>
    simp only [Conveyor.flushStep]
    split_ifs with hempty
    · exact (h.emptyLoop hs (by simpa [Conveyor.isEmpty] using hempty)).flags true s.allowFetch s.hold
    · obtain ⟨hinv, hstack⟩ := h.checkQueue true false
      have hpush := hinv.push .idle (by
        rw [hstack, hs]
        exact hok.push trivial (by simp [Call.isAppend]) (by simp)) .idle
        (by rw [hstack, hs]; rintro c ⟨⟩; trivial)
      rw [hstack, hs] at hpush
      exact hpush
  | unflag => exact h.lower hs
  | unhold => exact (h.flags s.running s.allowFetch false).pop hs rfl

theorem waitStep (h : Inv length s) (motorsMoving : Bool) {point : WaitPoint}
    (hs : s.stack = .waitForIdle point :: rest) :
    Inv length (s.waitStep length motorsMoving rest point) := by
  have hok : StackOk (.waitForIdle point :: rest) := hs ▸ h.stackOk
  cases point with
  | enter =>
    exact (h.flags false s.allowFetch s.hold).swap hs rfl (by simp [Call.isAppend]) (by simp) (by simp)
      (by simp) (by simp) (by simp)
  | loop =>
    simp only [Conveyor.waitStep]
    split_ifs
    · exact h.swap hs rfl (by simp [Call.isAppend]) (by simp) (by simp) (by simp) (by simp) (by simp)
    · obtain ⟨hinv, hstack⟩ := h.checkQueue true false
      have hpush := hinv.push .idle (by
        rw [hstack, hs]
        exact hok.push trivial (by simp [Call.isAppend]) (by simp)) .idle
        (by rw [hstack, hs]; rintro c ⟨⟩; trivial)
      rw [hstack, hs] at hpush
      exact hpush
  | motors =>
    simp only [Conveyor.waitStep]
    split_ifs
    · have hpush := h.push .idle (hs ▸ hok.push trivial (by simp [Call.isAppend]) (by simp))
        .idle (by rw [hs]; rintro c ⟨⟩; trivial)
      rw [hs] at hpush
      exact hpush
    · exact (h.flags true s.allowFetch s.hold).pop hs rfl

/-- Halting puts the flush on its way. -/
theorem halt (h : Inv length s) (hs : s.stack = .halt :: rest) :
    Inv length { s with
      halted := true, lastStop := s.appended, stack := .flushQueue true .fetch :: rest } := by
  have hok : StackOk (.halt :: rest) := hs ▸ h.stackOk
  refine ⟨h.ring, ⟨h.handing.sorted, h.handing.lt, h.handing.le, h.handing.running,
    fun c hc => (h.handing.passedOver c hc).imp_right fun hst => hst.trans_le h.handing.stop_le,
    le_refl _⟩, fun c hle hlt => (h.slots c hle hlt).imp_right fun hc => ?_, fun hc => h.filled ?_,
    hok.swap (by simp [Call.isAppend]) (by simp), fun _ => rfl, fun hf => ?_, by simp, by simp,
    fun _ _ => .inr ⟨rfl, true, .inl rfl⟩, by simp⟩
  · rw [hs] at hc
    simp at hc
  · rw [hs]
    simpa using hc
  · have := h.flushWhy hf
    rw [hs] at this
    simpa using this

theorem unhalt (h : Inv length s) (hs : s.stack = .unhalt :: rest) :
    Inv length { s with halted := false, stack := rest } := by
  have hpop := h.pop hs rfl
  refine ⟨hpop.ring, hpop.handing, hpop.slots, hpop.filled, hpop.stackOk, hpop.flushStop, hpop.flushWhy,
    hpop.collecting, hpop.emptied, fun hlt hcase => ?_, hpop.aborting⟩
  -- A block let go at the halt stays guarded by the flush.
  rcases hcase with hh | hdropped
  · cases hh
  · have := h.guard hlt (.inr hdropped)
    rw [hs] at this
    rcases this with ⟨hf, halting, hc⟩ | ⟨-, halting, hc⟩
    · exact .inl ⟨hf, halting, by simpa using hc⟩
    · simp at hc

theorem clearAbort (h : Inv length s) (hs : s.stack = .clearAbort :: rest) :
    Inv length { s with flush := false, abortMotion := false, stack := rest } := by
  have hok : StackOk (.clearAbort :: rest) := hs ▸ h.stackOk
  obtain rfl : rest = [] := hok.2.2.1 rfl
  have hpop := h.pop hs rfl
  refine ⟨hpop.ring, hpop.handing, hpop.slots, hpop.filled, hpop.stackOk, fun hf => (by cases hf),
    fun hf => (by cases hf), hpop.collecting, hpop.emptied, fun hlt hcase => ?_, by simp⟩
  have := hpop.guard hlt hcase
  simp [Guarded] at this

theorem callStep (h : Inv length s) (found : Bool) (hs : s.stack = call :: rest) :
    Inv length (s.callStep length found call rest) := by
  have hok : StackOk (call :: rest) := hs ▸ h.stackOk
  cases call with
  | append point => exact h.appendStep hs
  | idle => exact h.pop hs rfl
  | collect point => exact h.collectStep found hs
  | flushQueue halting point => exact h.flushStep hs
  | halt => exact h.halt hs
  | unhalt => exact h.unhalt hs
  | requestAbort flagged =>
    cases flagged with
    | false =>
      have habort : Inv length { s with abortMotion := true } :=
        ⟨h.ring, h.handing, h.slots, h.filled, h.stackOk, h.flushStop, fun _ => .inl rfl, h.collecting,
          h.emptied, h.guard, fun _ => rfl⟩
      exact (habort.flags s.running false s.hold).swap hs rfl (by simp [Call.isAppend]) (by simp)
        (by simp) (by simp) (by simp) (fun _ => rfl)
    | true =>
      refine h.raise (by rw [hs]; simp) hok.pop (fun c hc => .inl (hs ▸ List.mem_cons_of_mem _ hc)) ?_
        (fun c hc => hok.suspended hc) (.inl (h.aborting (by rw [hs]; rfl))) (.inr (by rw [hs]; simp))
      intro halting hc
      rw [hs] at hc
      simpa using hc
  | clearAbort => exact h.clearAbort hs
  | waitForIdle point => exact h.waitStep found hs
  | setHold f => exact (h.flags s.running s.allowFetch f).pop hs rfl

/-- A call the main loop, or a handler of `ON_IDLE`, may make. -/
theorem begins (h : Inv length s) (hcall : call.Begins) (hallowed : call.Allowed s.stack)
    (hstack : s.stack = [] ∨ ∃ rest, s.stack = .idle :: rest) :
    Inv length { s with stack := call :: s.stack } := by
  have hbelow : ∀ c ∈ s.stack, c.Suspended := by
    rcases hstack with he | ⟨rest, he⟩
    · simp [he]
    · have hok := h.stackOk
      rw [he] at hok ⊢
      intro c hc
      rcases List.mem_cons.mp hc with rfl | hc
      · trivial
      · exact hok.1 c hc
  refine h.push call ⟨hbelow, fun ha => ?_, fun he => ?_, h.stackOk⟩ hcall
    fun c hc => hbelow c (List.mem_of_mem_head? hc)
  · cases call <;> simp_all [Call.isAppend, Call.Allowed]
  · subst he
    exact hallowed

theorem step {t : Conveyor} (h : Inv length s) (hstep : Step length s t) : Inv length t := by
  cases hstep with
  | tick finds => exact h.stepTick finds
  | go found call rest hs => exact h.callStep found hs
  | begins call hcall hallowed hstack => exact h.begins hcall hallowed hstack

end Conveyor.Inv

namespace Conveyor

variable {length : ℕ} {s t : Conveyor}

theorem Reachable.inv (hlen : 0 < length) (h : Reachable length s) : Inv length s := by
  induction h with
  | init => exact Inv.init hlen
  | step _ hstep ih => exact ih.step hstep

/-! ## What the steps do to the slots -/

theorem slots_getNextBlock (s : Conveyor) (locked : Bool) :
    (s.getNextBlock locked).2.slots = s.slots := by
  rcases Inv.getNextBlock_cases s locked with heq | ⟨-, heq⟩ | ⟨-, -, -, heq⟩ <;> rw [heq]

theorem slots_startNextBlock (length : ℕ) (s : Conveyor) (hasSteps : Bool) :
    (s.startNextBlock length hasSteps).slots = s.slots := by
  unfold startNextBlock
  split_ifs <;> rfl

theorem slots_tickBlock (s : Conveyor) (finds : TickFinds) :
    (s.tickBlock length finds).slots = s.slots := by
  have hnext := slots_getNextBlock (s.blockFinished length) finds.locked.2
  unfold tickBlock
  split_ifs
  · rfl
  · rfl
  · split
    · next t heq =>
      rw [heq] at hnext
      exact (slots_startNextBlock length t _).trans hnext
    · next t heq =>
      rw [heq] at hnext
      exact hnext

theorem slots_stepTick (s : Conveyor) (finds : TickFinds) :
    (s.stepTick length finds).slots = s.slots := by
  have hnext := slots_getNextBlock s finds.locked.1
  unfold stepTick
  split_ifs
  · exact slots_tickBlock s finds
  · split
    · next t heq =>
      rw [heq] at hnext
      exact hnext
    · next t heq =>
      rw [heq] at hnext
      have hstart := (slots_startNextBlock length t finds.hasSteps.1).trans hnext
      dsimp only
      split_ifs
      · exact (slots_tickBlock _ _).trans hstart
      · exact hstart

/-- The main program writes to the slot at the head, and clears the slot at the tail. -/
theorem slots_callStep (length : ℕ) (s : Conveyor) (found : Bool) (call : Call) (rest : List Call) :
    (s.callStep length found call rest).slots = s.slots ∨
      (∃ x, (s.callStep length found call rest).slots = Function.update s.slots s.head x) ∨
      call = .collect .clear ∧
        (s.callStep length found call rest).slots = Function.update s.slots s.tail none := by
  -- `check_queue` moves no block, so only the steps that write `head` or clear `tail` are left.
  have hcheck : ∀ force timedOut, (s.checkQueue length force timedOut).slots = s.slots := by
    intro force timedOut
    unfold checkQueue
    split_ifs <;> rfl
  cases call with
  | append point =>
    cases point with
    | fill hasSteps =>
      simp only [callStep, appendStep]
      split_ifs
      · exact .inl rfl
      · exact .inr (.inl ⟨_, rfl⟩)
      · exact .inr (.inl ⟨_, rfl⟩)
    | clear => exact .inr (.inl ⟨_, rfl⟩)
    | room =>
      simp only [callStep, appendStep]
      split_ifs <;> exact .inl rfl
    | queue =>
      simp only [callStep, appendStep]
      split_ifs
      · exact .inr (.inl ⟨_, rfl⟩)
      · exact .inl rfl
      · exact .inl rfl
  | collect point =>
    cases point with
    | test =>
      refine .inl ?_
      simp only [callStep, collectStep]
      cases s.running
      · simp only [Bool.false_eq_true, if_false]
        split_ifs <;> rfl
      · simp only [if_true]
        split_ifs <;> exact hcheck _ _
    | clear => exact .inr (.inr ⟨rfl, rfl⟩)
    | consume =>
      simp only [callStep, collectStep]
      split_ifs <;> exact .inl rfl
  | flushQueue halting point =>
    cases point with
    | loop =>
      simp only [callStep, flushStep]
      split_ifs
      · exact .inl rfl
      · exact .inl (hcheck _ _)
    | fetch => exact .inl rfl
    | flag => exact .inl rfl
    | unflag => exact .inl rfl
    | unhold => exact .inl rfl
  | requestAbort flagged => cases flagged <;> exact .inl rfl
  | waitForIdle point =>
    cases point with
    | enter => exact .inl rfl
    | loop =>
      simp only [callStep, waitStep]
      split_ifs
      · exact .inl rfl
      · exact .inl (hcheck _ _)
    | motors =>
      simp only [callStep, waitStep]
      split_ifs <;> exact .inl rfl
  | idle => exact .inl rfl
  | halt => exact .inl rfl
  | unhalt => exact .inl rfl
  | clearAbort => exact .inl rfl
  | setHold f => exact .inl rfl

/-- A block the interrupt has not released is neither cleared nor written over. -/
theorem Inv.kept (h : Inv length s) (hstep : Step length s t) {c : ℕ} (hpassed : s.passed ≤ c)
    (happended : c < s.appended) :
    s.slots (c % length) = some c ∧ t.slots (c % length) = some c := by
  have hring := h.ring
  have hcol := hring.collected_le
  have hturn := hring.turn
  have hslot : s.slots (c % length) = some c := by
    refine (h.slots c (hcol.trans hpassed) happended).resolve_right ?_
    rintro ⟨rfl, hc⟩
    exact absurd (h.collecting (.inr hc)) hpassed.not_gt
  refine ⟨hslot, ?_⟩
  cases hstep with
  | tick finds => rw [slots_stepTick, hslot]
  | begins call hcall hallowed hstack => exact hslot
  | go found call rest hs =>
    rcases slots_callStep length s found call rest with heq | ⟨x, heq⟩ | ⟨rfl, heq⟩
    · rw [heq, hslot]
    · rw [heq, Function.update_of_ne, hslot]
      exact hring.head ▸ hring.slot_ne_head (hcol.trans hpassed) happended
    · have hlt := h.collecting (.inl (by rw [hs]; rfl))
      rw [heq, Function.update_of_ne, hslot]
      exact hring.tail ▸ (mod_ne (hlt.trans_le hpassed) (by omega)).symm

end Conveyor

end CarveraFirmware.Motion
