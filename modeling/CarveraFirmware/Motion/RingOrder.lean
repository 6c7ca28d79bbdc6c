import Mathlib
import CarveraFirmware.Motion.Conveyor

/-!
# The order of the ring

What the main program and the step interrupt keep between them, whichever step comes next: the
two tails and the head stay in order, and a block that a halt cut off is not handed out again,
because the halt flushes the queue before anything else can happen to it.
-/

namespace CarveraFirmware.Motion

open RingIndex

/-- The indices stand for positions less than a turn apart. -/
structure Ring (length head tail isrTail appended passed collected : ℕ) : Prop where
  collected_le : collected ≤ passed
  passed_le : passed ≤ appended
  turn : appended < collected + length
  head : head = appended % length
  tail : tail = collected % length
  isrTail : isrTail = passed % length

/-- What the interrupt has taken: blocks in the order of their numbers, the last of them the one it
runs, and all it has passed unless they were stopped. -/
structure Handing (isrTail appended passed lastStop : ℕ) (handed : List ℕ) (tickerRunning : Bool)
    (currentBlock : Option ℕ) : Prop where
  sorted : handed.Pairwise (· < ·)
  lt : ∀ x ∈ handed, x < appended
  le : ∀ x ∈ handed, x ≤ passed
  running : tickerRunning = true →
    passed < appended ∧ passed ∈ handed ∧ currentBlock = some isrTail
  passedOver : ∀ c < passed, c ∈ handed ∨ c < lastStop
  stop_le : lastStop ≤ appended

def Call.isAppend : Call → Bool
  | .append _ => true
  | _ => false

/-- Not at a point of a flush or of a collection that something depends on. -/
def Call.plain : Call → Bool
  | .flushQueue _ .unhold => true
  | .flushQueue _ _ => false
  | .collect .consume => false
  | _ => true

/-- Every call but the last waits in an `ON_IDLE`, and an append is made with no other append and
no flush under way. -/
def StackOk : List Call → Prop
  | [] => True
  | call :: rest =>
    (∀ c ∈ rest, c.Suspended) ∧ (call.isAppend = true → ∀ c ∈ rest, c.quiet = true) ∧
      (call = .clearAbort → rest = []) ∧ StackOk rest

/-- The queue will be flushed before the interrupt can take a block: the flag is up while a flush
waits for the queue to empty, or the machine is halted and about to put it up. -/
def Guarded (flush halted : Bool) (stack : List Call) : Prop :=
  (flush = true ∧ ∃ halting, .flushQueue halting .loop ∈ stack) ∨
    halted = true ∧ ∃ halting, stack.head? = some (.flushQueue halting .fetch) ∨
      stack.head? = some (.flushQueue halting .flag)

structure Conveyor.Inv (length : ℕ) (s : Conveyor) : Prop where
  ring : Ring length s.head s.tail s.isrTail s.appended s.passed s.collected
  handing : Handing s.isrTail s.appended s.passed s.lastStop s.handed s.tickerRunning s.currentBlock
  slots : ∀ c, s.collected ≤ c → c < s.appended → s.slots (c % length) = some c ∨
    c = s.collected ∧ s.stack.head? = some (.collect .consume)
  filled : .append .room ∈ s.stack ∨ .append .queue ∈ s.stack →
    s.slots (s.appended % length) = some s.appended
  stackOk : StackOk s.stack
  flushStop : s.flush = true → s.lastStop = s.appended
  flushWhy : s.flush = true → s.abortMotion = true ∨
    ∃ halting, .flushQueue halting .loop ∈ s.stack ∨ .flushQueue halting .unflag ∈ s.stack
  collecting : s.stack.head? = some (.collect .clear) ∨ s.stack.head? = some (.collect .consume) →
    s.collected < s.passed
  emptied : ∀ halting, s.stack.head? = some (.flushQueue halting .unflag) →
    s.collected = s.appended
  guard : s.passed < s.appended →
    s.halted = true ∨ (s.passed ∈ s.handed ∧ s.tickerRunning = false) →
    Guarded s.flush s.halted s.stack
  aborting : s.stack.head? = some (.requestAbort true) → s.abortMotion = true

theorem Conveyor.Inv.init {length : ℕ} (hlen : 0 < length) : Conveyor.Inv length {} where
  ring := by constructor <;> simp [hlen]
  handing := by constructor <;> simp
  slots := by simp
  filled := by simp
  stackOk := trivial
  flushStop := by simp
  flushWhy := by simp
  collecting := by simp
  emptied := by simp
  guard := by simp
  aborting := by simp

namespace Ring

variable {length head tail isrTail appended passed collected : ℕ}
  (h : Ring length head tail isrTail appended passed collected)

include h

theorem length_pos : 0 < length := by
  have := h.collected_le
  have := h.passed_le
  have := h.turn
  omega

theorem tail_eq_isrTail : tail = isrTail ↔ collected = passed := by
  have hp := h.passed_le
  have ht := h.turn
  rw [h.tail, h.isrTail]
  exact ⟨fun e => mod_inj h.collected_le (by omega) e, fun e => by rw [e]⟩

theorem isrTail_eq_head : isrTail = head ↔ passed = appended := by
  have hc := h.collected_le
  have ht := h.turn
  rw [h.head, h.isrTail]
  exact ⟨fun e => mod_inj h.passed_le (by omega) e, fun e => by rw [e]⟩

theorem head_eq_tail : head = tail ↔ collected = appended := by
  rw [h.head, h.tail]
  exact ⟨fun e => mod_inj (h.collected_le.trans h.passed_le) h.turn e.symm, fun e => by rw [e]⟩

theorem next_head_eq_tail : next length head = tail ↔ appended + 1 = collected + length := by
  have hc := h.collected_le
  have hp := h.passed_le
  have ht := h.turn
  rw [h.head, h.tail, next_mod h.length_pos]
  constructor
  · intro e
    by_contra hne
    exact mod_ne (a := collected) (b := appended + 1) (by omega) (by omega) e.symm
  · intro e
    rw [e, Nat.add_mod_right]

/-- The slot being filled is none of the queue's. -/
theorem slot_ne_head {c : ℕ} (hc : collected ≤ c) (hlt : c < appended) :
    c % length ≠ appended % length := by
  have ht := h.turn
  exact mod_ne hlt (by omega)

end Ring

/-! ## Steps of the interrupt -/

namespace Conveyor.Inv

variable {length : ℕ} {s : Conveyor}

/-- The interrupt lets go of a block at a halt. -/
theorem stop (h : Inv length s) (hhalted : s.halted = true) (current : Option ℕ) :
    Inv length { s with tickerRunning := false, currentBlock := current } where
  ring := h.ring
  handing := ⟨h.handing.sorted, h.handing.lt, h.handing.le, fun hr => (by cases hr),
    h.handing.passedOver, h.handing.stop_le⟩
  slots := h.slots
  filled := h.filled
  stackOk := h.stackOk
  flushStop := h.flushStop
  flushWhy := h.flushWhy
  collecting := h.collecting
  emptied := h.emptied
  guard := fun hlt _ => h.guard hlt (.inl hhalted)
  aborting := h.aborting

/-- At the end of a block the interrupt passes it. -/
theorem finished (h : Inv length s) (hrun : s.tickerRunning = true) (hhalted : s.halted = false)
    (current : Option ℕ) :
    Inv length { s.blockFinished length with tickerRunning := false, currentBlock := current } := by
  obtain ⟨hlt, hmem, -⟩ := h.handing.running hrun
  have hring := h.ring
  have hcol := hring.collected_le
  refine ⟨⟨Nat.le_succ_of_le hcol, hlt, hring.turn, hring.head, hring.tail, ?_⟩,
    ⟨h.handing.sorted, h.handing.lt, fun x hx => Nat.le_succ_of_le (h.handing.le x hx),
      fun hr => (by cases hr), fun c hc => ?_, h.handing.stop_le⟩,
    h.slots, h.filled, h.stackOk, h.flushStop, h.flushWhy, fun hc => Nat.lt_succ_of_lt (h.collecting hc),
    h.emptied, fun _ hcase => ?_, h.aborting⟩
  · change next length s.isrTail = (s.passed + 1) % length
    rw [hring.isrTail, next_mod hring.length_pos]
  · rcases Nat.lt_succ_iff_lt_or_eq.mp hc with hc | rfl
    · exact h.handing.passedOver c hc
    · exact .inl hmem
  · rcases hcase with hh | ⟨hin, -⟩
    · rw [show s.halted = true from hh] at hhalted
      cases hhalted
    · exact absurd (h.handing.le _ hin) (Nat.not_succ_le_self _)

/-- With the flush flag up the interrupt passes everything. -/
theorem passAll (h : Inv length { s with tickerRunning := false }) (hflush : s.flush = true) :
    Inv length { s with tickerRunning := false, isrTail := s.head, passed := s.appended } := by
  have hring := h.ring
  have hcol := hring.collected_le
  have hpas := hring.passed_le
  refine ⟨⟨hcol.trans hpas, le_refl _, hring.turn, hring.head, hring.tail, hring.head⟩,
    ⟨h.handing.sorted, h.handing.lt, fun x hx => (h.handing.lt x hx).le, fun hr => (by cases hr),
      fun c hc => .inr ?_, h.handing.stop_le⟩,
    h.slots, h.filled, h.stackOk, h.flushStop, h.flushWhy, fun hc => (h.collecting hc).trans_le hpas,
    h.emptied, fun hlt => absurd hlt (lt_irrefl _), h.aborting⟩
  exact (h.flushStop hflush : s.lastStop = s.appended) ▸ hc

/-- The interrupt takes the block at its tail: no flush or halt is in the way, and the block was
not taken before, or a flush would be. -/
theorem taken (h : Inv length { s with tickerRunning := false }) (hflush : s.flush = false)
    (hhalted : s.halted = false) (hmore : s.isrTail ≠ s.head) :
    Inv length { s with
      tickerRunning := true, currentBlock := some s.isrTail
      handed := s.handed ++ (s.slots s.isrTail).toList } := by
  have hring := h.ring
  have hlt : s.passed < s.appended :=
    lt_of_le_of_ne hring.passed_le fun e => hmore (hring.isrTail_eq_head.mpr e)
  -- a block that was handed out before is behind a flush or a halt, and there is none
  have hfresh : s.passed ∉ s.handed := by
    intro hin
    rcases h.guard hlt (.inr ⟨hin, rfl⟩) with ⟨hf, -⟩ | ⟨hh, -⟩
    · exact absurd (hflush.symm.trans hf) (by simp)
    · exact absurd (hhalted.symm.trans hh) (by simp)
  have hslot : s.slots s.isrTail = some s.passed := by
    rcases h.slots s.passed hring.collected_le hlt with hs | ⟨he, hc⟩
    · rw [show s.isrTail = s.passed % length from hring.isrTail]
      exact hs
    · exact absurd he (h.collecting (.inr hc)).ne'
  have hnew : s.handed ++ (s.slots s.isrTail).toList = s.handed ++ [s.passed] := by rw [hslot]; rfl
  rw [hnew]
  refine ⟨hring, ⟨?_, fun x hx => ?_, fun x hx => ?_, fun _ => ⟨hlt, by simp, rfl⟩, fun c hc => ?_,
    h.handing.stop_le⟩, h.slots, h.filled, h.stackOk, h.flushStop, h.flushWhy, h.collecting,
    h.emptied, fun _ hcase => ?_, h.aborting⟩
  · refine List.pairwise_append.mpr ⟨h.handing.sorted, List.pairwise_singleton _ _, ?_⟩
    intro x hx y hy
    obtain rfl := List.mem_singleton.mp hy
    exact lt_of_le_of_ne (h.handing.le x hx) fun e => hfresh (e ▸ hx)
  · rcases List.mem_append.mp hx with hx | hx
    · exact h.handing.lt x hx
    · obtain rfl := List.mem_singleton.mp hx
      exact hlt
  · rcases List.mem_append.mp hx with hx | hx
    · exact h.handing.le x hx
    · obtain rfl := List.mem_singleton.mp hx
      exact le_refl _
  · rcases h.handing.passedOver c hc with hin | hst
    · exact .inl (List.mem_append_left _ hin)
    · exact .inr hst
  · rcases hcase with hh | ⟨-, hr⟩
    · exact absurd (hhalted.symm.trans hh) (by simp)
    · cases hr

/-- What `get_next_block` can do. -/
theorem getNextBlock_cases (s : Conveyor) (locked : Bool) :
    s.getNextBlock locked = (false, s) ∨
      (s.flush = true ∧
        s.getNextBlock locked = (false, { s with isrTail := s.head, passed := s.appended })) ∨
      s.flush = false ∧ s.halted = false ∧ s.isrTail ≠ s.head ∧
        s.getNextBlock locked = (true, { s with
          currentBlock := some s.isrTail
          handed := s.handed ++ (s.slots s.isrTail).toList }) := by
  cases hhold : s.hold with
  | true => exact .inl (by simp [Conveyor.getNextBlock, hhold])
  | false =>
    cases hflush : s.flush with
    | true => exact .inr (.inl ⟨rfl, by simp [Conveyor.getNextBlock, hhold, hflush]⟩)
    | false =>
      simp only [Conveyor.getNextBlock, hhold, hflush, Bool.false_eq_true, if_false]
      split_ifs with hstop
      · exact .inl rfl
      · exact .inl rfl
      · exact .inl rfl
      · simp only [Bool.or_eq_true, decide_eq_true_eq, not_or, Bool.not_eq_true] at hstop
        exact .inr (.inr ⟨trivial, hstop.1, hstop.2, by simp⟩)

/-- No block is running; which one was last does not matter. -/
theorem current (h : Inv length { s with tickerRunning := false }) (current : Option ℕ) :
    Inv length { s with tickerRunning := false, currentBlock := current } :=
  ⟨h.ring, ⟨h.handing.sorted, h.handing.lt, h.handing.le, fun hr => (by cases hr),
    h.handing.passedOver, h.handing.stop_le⟩, h.slots, h.filled, h.stackOk, h.flushStop,
    h.flushWhy, h.collecting, h.emptied, h.guard, h.aborting⟩

/-- `get_next_block`, called with no block running. -/
theorem getNextBlock (h : Inv length { s with tickerRunning := false }) (locked : Bool) {got : Bool}
    {t : Conveyor} (ht : s.getNextBlock locked = (got, t)) :
    (got = true → t.halted = false ∧ Inv length { t with tickerRunning := true }) ∧
      (got = false → t.tickerRunning = s.tickerRunning ∧
        Inv length { t with tickerRunning := false }) := by
  rcases getNextBlock_cases s locked with heq | ⟨hflush, heq⟩ | ⟨hflush, hhalted, hmore, heq⟩
  · obtain ⟨rfl, rfl⟩ := Prod.mk.inj (heq.symm.trans ht)
    exact ⟨fun hg => (by cases hg), fun _ => ⟨rfl, h⟩⟩
  · obtain ⟨rfl, rfl⟩ := Prod.mk.inj (heq.symm.trans ht)
    exact ⟨fun hg => (by cases hg), fun _ => ⟨rfl, h.passAll hflush⟩⟩
  · obtain ⟨rfl, rfl⟩ := Prod.mk.inj (heq.symm.trans ht)
    exact ⟨fun _ => ⟨hhalted, h.taken hflush hhalted hmore⟩, fun hg => (by cases hg)⟩

/-- `start_next_block` on a block just taken. -/
theorem startNextBlock (h : Inv length { s with tickerRunning := true }) (hhalted : s.halted = false)
    (hasSteps : Bool) : Inv length (s.startNextBlock length hasSteps) := by
  unfold Conveyor.startNextBlock
  split_ifs
  · exact h
  · exact h.finished rfl hhalted s.currentBlock

theorem tickBlock (h : Inv length s) (hrun : s.tickerRunning = true) (finds : TickFinds) :
    Inv length (s.tickBlock length finds) := by
  unfold Conveyor.tickBlock
  split_ifs with hhalted hmoving
  · exact h.stop hhalted none
  · exact h
  · have hhalted : s.halted = false := by simpa using hhalted
    have hfin := h.finished hrun hhalted s.currentBlock
    split
    · next t heq =>
      obtain ⟨hh, hinv⟩ := (hfin.getNextBlock (s := s.blockFinished length) _ heq).1 rfl
      exact hinv.startNextBlock hh _
    · next t heq =>
      exact ((hfin.getNextBlock (s := s.blockFinished length) _ heq).2 rfl).2.current none

theorem stepTick (h : Inv length s) (finds : TickFinds) : Inv length (s.stepTick length finds) := by
  unfold Conveyor.stepTick
  split_ifs with hrun
  · exact h.tickBlock hrun finds
  · have hrun : s.tickerRunning = false := by simpa using hrun
    have hidle : Inv length { s with tickerRunning := false } := by
      rw [← hrun]
      exact h
    split
    · next t heq =>
      obtain ⟨hsame, hinv⟩ := (hidle.getNextBlock _ heq).2 rfl
      rw [← hrun, ← hsame] at hinv
      exact hinv
    · next t heq =>
      obtain ⟨hh, hinv⟩ := (hidle.getNextBlock _ heq).1 rfl
      have hstart := hinv.startNextBlock hh finds.hasSteps.1
      dsimp only
      split_ifs with hgo
      · exact hstart.tickBlock hgo finds
      · exact hstart

end Conveyor.Inv

/-! ## Steps of the main program -/

namespace StackOk

variable {call : Call} {rest : List Call}

theorem pop (h : StackOk (call :: rest)) : StackOk rest := h.2.2.2

/-- The call under the last waits in an `ON_IDLE`. -/
theorem suspended (h : StackOk (call :: rest)) {c : Call} (hc : rest.head? = some c) : c.Suspended :=
  h.1 c (List.mem_of_mem_head? hc)

/-- The last call goes on to another point. -/
theorem swap (h : StackOk (call :: rest)) {call' : Call}
    (happend : call'.isAppend = true → call.isAppend = true) (hclear : call' ≠ .clearAbort) :
    StackOk (call' :: rest) :=
  ⟨h.1, fun ha => h.2.1 (happend ha), fun he => absurd he hclear, h.2.2.2⟩

/-- A call waiting in an `ON_IDLE` is in order, so is what its handlers call. -/
theorem push (h : StackOk (call :: rest)) (hs : call.Suspended) {call' : Call}
    (happend : call'.isAppend = true → ∀ c ∈ call :: rest, c.quiet = true)
    (hclear : call' ≠ .clearAbort) : StackOk (call' :: call :: rest) :=
  ⟨fun c hc => (List.mem_cons.mp hc).elim (fun e => e ▸ hs) (h.1 c), happend,
    fun he => absurd he hclear, h⟩

end StackOk

namespace Conveyor.Inv

variable {length : ℕ} {s : Conveyor} {call : Call} {rest : List Call}

/-- What is on the stack may change as long as no flush is forgotten and what the points of
appending, collecting, flushing and aborting promise holds. -/
theorem restack (h : Inv length s) {stack : List Call} (hok : StackOk stack)
    (hloop : ∀ halting, .flushQueue halting .loop ∈ s.stack → .flushQueue halting .loop ∈ stack)
    (hunflag : ∀ halting, .flushQueue halting .unflag ∈ s.stack → .flushQueue halting .unflag ∈ stack)
    (hfill : .append .room ∈ stack ∨ .append .queue ∈ stack →
      s.slots (s.appended % length) = some s.appended)
    (hcollect : stack.head? = some (.collect .clear) ∨ stack.head? = some (.collect .consume) →
      s.collected < s.passed)
    (hempty : ∀ halting, stack.head? = some (.flushQueue halting .unflag) → s.collected = s.appended)
    (hguard : ∀ halting, s.stack.head? = some (.flushQueue halting .fetch) ∨
      s.stack.head? = some (.flushQueue halting .flag) →
      stack.head? = some (.flushQueue halting .fetch) ∨ stack.head? = some (.flushQueue halting .flag))
    (hconsume : s.stack.head? ≠ some (.collect .consume))
    (habort : stack.head? = some (.requestAbort true) → s.abortMotion = true) :
    Inv length { s with stack := stack } where
  ring := h.ring
  handing := h.handing
  slots := fun c hle hlt => (h.slots c hle hlt).imp_right fun hc => absurd hc.2 hconsume
  filled := hfill
  stackOk := hok
  flushStop := h.flushStop
  flushWhy := fun hf => (h.flushWhy hf).imp_right fun ⟨halting, hc⟩ =>
    ⟨halting, hc.imp (hloop halting) (hunflag halting)⟩
  collecting := hcollect
  emptied := hempty
  guard := fun hlt hcase => (h.guard hlt hcase).imp
    (fun ⟨hf, halting, hc⟩ => ⟨hf, halting, hloop halting hc⟩)
    fun ⟨hh, halting, hc⟩ => ⟨hh, halting, hguard halting hc⟩
  aborting := habort

/-- A call that no part of the invariant speaks of, on top. -/
theorem swap (h : Inv length s) (hs : s.stack = call :: rest) (hplain : call.plain = true)
    {call' : Call} (happend : call'.isAppend = true → call.isAppend = true)
    (hclear : call' ≠ .clearAbort)
    (hfill : call' = .append .room ∨ call' = .append .queue →
      s.slots (s.appended % length) = some s.appended)
    (hcollect : call' = .collect .clear ∨ call' = .collect .consume → s.collected < s.passed)
    (hempty : ∀ halting, call' ≠ .flushQueue halting .unflag)
    (habort : call' = .requestAbort true → s.abortMotion = true) :
    Inv length { s with stack := call' :: rest } := by
  have hok := hs ▸ h.stackOk
  have hflush : ∀ {d : Call}, d.plain = false → d ∈ s.stack → d ∈ call' :: rest := by
    intro d hd hmem
    rw [hs] at hmem
    refine List.mem_cons_of_mem _ ((List.mem_cons.mp hmem).resolve_left ?_)
    rintro rfl
    rw [hd] at hplain
    cases hplain
  refine h.restack (hok.swap happend hclear) (fun _ => hflush rfl) (fun _ => hflush rfl) ?_ ?_ ?_ ?_ ?_ ?_
  · rintro (hc | hc)
    · rcases List.mem_cons.mp hc with e | hc
      · exact hfill (.inl e.symm)
      · exact h.filled (.inl (hs ▸ List.mem_cons_of_mem _ hc))
    · rcases List.mem_cons.mp hc with e | hc
      · exact hfill (.inr e.symm)
      · exact h.filled (.inr (hs ▸ List.mem_cons_of_mem _ hc))
  · exact fun hc => hcollect (hc.imp Option.some.inj Option.some.inj)
  · exact fun halting hc => absurd (Option.some.inj hc) (hempty _)
  · rw [hs]
    rintro halting (hc | hc) <;> obtain rfl := Option.some.inj hc <;> cases hplain
  · rw [hs]
    intro hc
    obtain rfl := Option.some.inj hc
    cases hplain
  · exact fun hc => habort (Option.some.inj hc)

/-- It returns. -/
theorem pop (h : Inv length s) (hs : s.stack = call :: rest) (hplain : call.plain = true) :
    Inv length { s with stack := rest } := by
  have hok := hs ▸ h.stackOk
  have hflush : ∀ {d : Call}, d.plain = false → d ∈ s.stack → d ∈ rest := by
    intro d hd hmem
    rw [hs] at hmem
    refine (List.mem_cons.mp hmem).resolve_left ?_
    rintro rfl
    rw [hd] at hplain
    cases hplain
  refine h.restack hok.pop (fun _ => hflush rfl) (fun _ => hflush rfl) ?_ ?_ ?_ ?_ ?_ ?_
  · intro hc
    refine h.filled ?_
    rw [hs]
    exact hc.imp (List.mem_cons_of_mem _) (List.mem_cons_of_mem _)
  · rintro (hc | hc) <;> exact (hok.suspended hc).elim
  · exact fun halting hc => (hok.suspended hc).elim
  · rw [hs]
    rintro halting (hc | hc) <;> obtain rfl := Option.some.inj hc <;> cases hplain
  · rw [hs]
    intro hc
    obtain rfl := Option.some.inj hc
    cases hplain
  · exact fun hc => (hok.suspended hc).elim

/-- A call made where the last one waits, or by the main loop. -/
theorem push (h : Inv length s) (call' : Call) (hok : StackOk (call' :: s.stack))
    (hnew : call'.Begins) (htop : ∀ c, s.stack.head? = some c → c.Suspended) :
    Inv length { s with stack := call' :: s.stack } := by
  refine h.restack hok (fun _ => List.mem_cons_of_mem _) (fun _ => List.mem_cons_of_mem _)
    (fun hc => h.filled ?_) ?_ ?_ ?_ ?_ ?_
  · rcases hc with hc | hc
    · exact .inl ((List.mem_cons.mp hc).resolve_left (by rintro rfl; cases hnew))
    · exact .inr ((List.mem_cons.mp hc).resolve_left (by rintro rfl; cases hnew))
  · rintro (hc | hc) <;> obtain rfl := Option.some.inj hc <;> cases hnew
  · intro halting hc
    obtain rfl := Option.some.inj hc
    cases hnew
  · rintro halting (hc | hc) <;> exact (htop _ hc).elim
  · exact fun hc => (htop _ hc).elim
  · intro hc
    obtain rfl := Option.some.inj hc
    cases hnew

/-- Flags that only decide when the interrupt may fetch. -/
theorem flags (h : Inv length s) (running allowFetch hold : Bool) :
    Inv length { s with running := running, allowFetch := allowFetch, hold := hold } :=
  ⟨h.ring, h.handing, h.slots, h.filled, h.stackOk, h.flushStop, h.flushWhy, h.collecting, h.emptied,
    h.guard, h.aborting⟩

end Conveyor.Inv

end CarveraFirmware.Motion
