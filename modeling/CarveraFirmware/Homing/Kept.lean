import Mathlib
import CarveraFirmware.Homing.Home

/-!
# What the parts of homing keep

Whatever happens while homing waits for its moves, the state stack of the robot stays in balance,
what homing borrowed stays as it was set, and a halt lasts.
-/

namespace CarveraFirmware.Homing

variable {T M : Type} {cfg : HomingConfig} {world : ℕ → Wait M} {s s' s'' : Machine T M}

/-- What a halt leaves of the state stack: one that comes during a suspend drops a state. -/
def stackAfterHalt (s : Machine T M) : List M :=
  if s.suspended then s.stateStack.tail else s.stateStack

/-- The state stack is the same, but for the state that a halt during a suspend drops. -/
def StackKept (s s' : Machine T M) : Prop :=
  s'.halts = s.halts ∧ s'.suspended = s.suspended ∧ s'.stateStack = s.stateStack ∨
    s.halts < s'.halts ∧ s'.suspended = false ∧ s'.stateStack = stackAfterHalt s

/-- What no part of a home command changes but the commands themselves. -/
structure Same (s s' : Machine T M) : Prop where
  compensation : s'.compensationTransform = s.compensationTransform
  endstops : s'.disableEndstops = s.disableEndstops
  stack : StackKept s s'

/-- What the waits and the moves keep besides. -/
structure Still (s s' : Machine T M) : Prop extends Same s s' where
  status : s'.status = s.status
  segmentation : s'.disableSegmentation = s.disableSegmentation
  axisToHome : s'.axisToHome = s.axisToHome
  halted : s.halted = true → s'.halted = true

section same

theorem StackKept.refl : StackKept s s := .inl ⟨rfl, rfl, rfl⟩

theorem stackAfterHalt_of_not_suspended (h : s.suspended = false) : stackAfterHalt s = s.stateStack := by
  rw [stackAfterHalt, h]
  rfl

theorem StackKept.trans (h : StackKept s s') (h' : StackKept s' s'') : StackKept s s'' := by
  obtain ⟨hhalts, hsusp, hstack⟩ | ⟨hhalts, hoff, hstack⟩ := h
  · obtain ⟨hhalts', hsusp', hstack'⟩ | ⟨hhalts', hoff', hstack'⟩ := h'
    · exact .inl ⟨hhalts'.trans hhalts, hsusp'.trans hsusp, hstack'.trans hstack⟩
    · refine .inr ⟨hhalts ▸ hhalts', hoff', ?_⟩
      rw [hstack', stackAfterHalt, hsusp, hstack, stackAfterHalt]
  · obtain ⟨hhalts', hsusp', hstack'⟩ | ⟨hhalts', hoff', hstack'⟩ := h'
    · exact .inr ⟨hhalts' ▸ hhalts, hsusp'.trans hoff, hstack'.trans hstack⟩
    · refine .inr ⟨hhalts.trans hhalts', hoff', ?_⟩
      rw [hstack', stackAfterHalt_of_not_suspended hoff, hstack]

theorem Same.refl : Same s s := ⟨rfl, rfl, .refl⟩

theorem Same.trans (h : Same s s') (h' : Same s' s'') : Same s s'' :=
  ⟨h'.compensation.trans h.compensation, h'.endstops.trans h.endstops, h.stack.trans h'.stack⟩

theorem Still.refl : Still s s := ⟨.refl, rfl, rfl, rfl, id⟩

theorem Still.trans (h : Still s s') (h' : Still s' s'') : Still s s'' :=
  ⟨h.toSame.trans h'.toSame, h'.status.trans h.status, h'.segmentation.trans h.segmentation,
    h'.axisToHome.trans h.axisToHome, fun hhalt => h'.halted (h.halted hhalt)⟩

/-- What still runs at the end ran before. -/
theorem Still.running (h : Still s s') (hs' : s'.halted = false) : s.halted = false := by
  by_contra hhalt
  rw [h.halted (by simpa using hhalt)] at hs'
  cases hs'

/-- A fold of steps that keep it. -/
theorem still_foldl {α : Type} {step : Machine T M → α → Machine T M}
    (hstep : ∀ s a, Still s (step s a)) (l : List α) (s : Machine T M) :
    Still s (l.foldl step s) := by
  induction l generalizing s with
  | nil => exact .refl
  | cons a l ih => exact (hstep s a).trans (ih _)

theorem popState_stateStack : s.popState.stateStack = s.stateStack.tail := by
  cases hstack : s.stateStack with
  | nil => rw [Machine.popState, hstack, hstack]; rfl
  | cons modal stack => rw [Machine.popState, hstack]; rfl

theorem popState_suspended : s.popState.suspended = s.suspended := by
  rw [Machine.popState]
  split <;> rfl

theorem popState_halts : s.popState.halts = s.halts := by
  rw [Machine.popState]
  split <;> rfl

/-- But for the stack, a pop changes nothing of this. -/
theorem still_popState : Still s { s.popState with stateStack := s.stateStack } := by
  rw [Machine.popState]
  split <;> exact ⟨⟨rfl, rfl, .refl⟩, rfl, rfl, rfl, id⟩

theorem still_onHalt : Still s s.onHalt := by
  rw [Machine.onHalt]
  split
  · rename_i hsusp
    have hstack : s.popState.stateStack = stackAfterHalt s := by
      rw [stackAfterHalt, if_pos hsusp, popState_stateStack]
    exact ⟨⟨still_popState.compensation, still_popState.endstops,
      .inr ⟨Nat.lt_succ_self _, rfl, hstack⟩⟩, still_popState.status, still_popState.segmentation,
      still_popState.axisToHome, fun _ => rfl⟩
  · rename_i hsusp
    have hoff : s.suspended = false := by simpa using hsusp
    exact ⟨⟨rfl, rfl, .inr ⟨Nat.lt_succ_self _, hoff, (stackAfterHalt_of_not_suspended hoff).symm⟩⟩,
      rfl, rfl, rfl, fun _ => rfl⟩

theorem onHalt_halted : s.onHalt.halted = true := by
  rw [Machine.onHalt]
  split <;> rfl

theorem still_tick {t : Tick} : Still s (s.tick cfg t) := by
  have hhalt : Still s (if t.halt then s.onHalt else s) := by
    split
    · exact still_onHalt
    · exact .refl
  rw [Machine.tick]
  generalize (if t.halt then s.onHalt else s) = s' at hhalt
  split
  · exact hhalt
  · exact ⟨⟨hhalt.compensation, hhalt.endstops, hhalt.stack⟩, hhalt.status, hhalt.segmentation,
      hhalt.axisToHome, hhalt.halted⟩

theorem still_waitForIdle : Still s (s.waitForIdle cfg world) := by
  have hticks : Still s ((world s.clock).ticks.foldl (Machine.tick cfg) s) :=
    still_foldl (fun _ _ => still_tick) _ s
  exact ⟨⟨hticks.compensation, hticks.endstops, hticks.stack⟩, hticks.status, hticks.segmentation,
    hticks.axisToHome, hticks.halted⟩

theorem still_deltaMove {delta : AxisLetter → ℚ} {rate : ℚ} :
    Still s (s.deltaMove cfg world delta rate) := by
  rw [Machine.deltaMove]
  split
  · exact .refl
  · split
    · exact .refl
    · exact ⟨⟨rfl, rfl, .refl⟩, rfl, rfl, rfl, id⟩

theorem still_homeXy : Still s (homeXy cfg world s) := by
  rw [homeXy]
  refine .trans ?_ still_waitForIdle
  split
  · split
    · exact still_deltaMove.trans still_deltaMove
    · exact still_deltaMove
  · split
    · exact still_deltaMove
    · split
      · exact still_deltaMove
      · exact .refl

theorem still_backRotary {m : AxisLetter} : Still s (backRotary cfg world s m) := by
  rw [backRotary]
  split
  · have hback : Still s ((s.deltaMove cfg world
        (along m (fromSwitch cfg m ((cfg.info m).retract * 50))) (cfg.info m).fastRate).waitForIdle
        cfg world) := still_deltaMove.trans still_waitForIdle
    dsimp only
    split
    · split
      · exact hback.trans (still_deltaMove.trans still_waitForIdle)
      · exact (hback.trans (still_deltaMove.trans still_waitForIdle)).trans
          ⟨⟨rfl, rfl, .refl⟩, rfl, rfl, rfl, id⟩
    · exact hback.trans ⟨⟨rfl, rfl, .refl⟩, rfl, rfl, rfl, id⟩
  · exact .refl

theorem still_homeRotary {always : Bool} {m : AxisLetter} :
    Still s (homeRotary cfg world always s m) := by
  rw [homeRotary]
  split
  · exact still_deltaMove.trans still_waitForIdle
  · exact .refl

end same

end CarveraFirmware.Homing
