import Mathlib
import CarveraFirmware.Homing.Kept

/-!
# What a home command gives back

The compensation transform, the flags that disable the endstops and the segmentation, and the state
stack of the robot, after a home command and after a test of the repeatability.
-/

namespace CarveraFirmware.Homing

variable {T M : Type} {cfg : HomingConfig} {world : ℕ → Wait M} {s s' s'' : Machine T M}

/-- Between commands the endstops are in no homing phase, and moves are segmented. -/
def IsPhase (status : Status) : Prop := status ≠ .notHoming ∧ status ≠ .limitTriggered

structure Resting (s : Machine T M) : Prop where
  status : ¬ IsPhase s.status
  segmentation : s.disableSegmentation = false

/-- What the parts of a command keep, that end between commands. -/
structure Rests (s s' : Machine T M) : Prop extends Same s s' where
  resting : Resting s'

section homing

variable {a : AxisLetter → Bool}

theorem Rests.refl (h : Resting s) : Rests s s := ⟨.refl, h⟩

theorem Rests.trans (h : Rests s s') (h' : Rests s' s'') : Rests s s'' :=
  ⟨h.toSame.trans h'.toSame, h'.resting⟩

theorem same_status {status : Status} : Same s { s with status := status } := ⟨rfl, rfl, .refl⟩

theorem same_homeRotaries : Same s (homeRotaries cfg world s) := by
  rw [homeRotaries]
  split
  · have hback : Same { s with status := .movingBack }
        (cfg.rotary.foldl (backRotary cfg world) { s with status := .movingBack }) :=
      (still_foldl (fun _ _ => still_backRotary) ..).toSame
    exact (same_status.trans hback).trans
      (same_status.trans (still_foldl (fun _ _ => still_homeRotary) ..).toSame)
  · exact (still_foldl (fun _ _ => still_homeRotary) ..).toSame

theorem rests_homeFail (h : Same s s') : Rests s s'.homeFail := by
  have hhalt : Still { s' with status := .notHoming, haltReason := some .homeFail }
    { s' with status := .notHoming, haltReason := some .homeFail }.onHalt := still_onHalt
  refine ⟨h.trans ⟨hhalt.compensation, hhalt.endstops, hhalt.stack⟩, ?_, rfl⟩
  exact fun hphase => hphase.1 hhalt.status

/-- A failed approach rests. -/
def Approached (s : Machine T M) (result : Machine T M × Bool) : Prop :=
  Same s result.1 ∧ (result.2 = false → Resting result.1)

theorem approached_rest : Approached s (approachRest cfg world s) := by
  have hfirst : Same s (if cfg.homeZFirst && !cfg.rotaryClearanceYMin.isSome then
      homeXy cfg world s else s) := by
    split
    · exact still_homeXy.toSame
    · exact .refl
  rw [approachRest]
  generalize (if cfg.homeZFirst && !cfg.rotaryClearanceYMin.isSome then
    homeXy cfg world s else s) = s₁ at hfirst
  have hrotary : Same s (homeRotaries cfg world s₁) := hfirst.trans same_homeRotaries
  generalize homeRotaries cfg world s₁ = s₂ at hrotary
  have hlast : Same s (if cfg.homeZFirst && cfg.rotaryClearanceYMin.isSome then
      homeXy cfg world s₂ else s₂) := by
    split
    · exact hrotary.trans still_homeXy.toSame
    · exact hrotary
  generalize (if cfg.homeZFirst && cfg.rotaryClearanceYMin.isSome then
    homeXy cfg world s₂ else s₂) = s₃ at hlast
  split
  · have hfail := rests_homeFail hlast
    exact ⟨hfail.toSame, fun _ => hfail.resting⟩
  · exact ⟨hlast, fun h => by cases h⟩

theorem Approached.after {result : Machine T M × Bool} (h : Same s s')
    (h' : Approached s' result) : Approached s result :=
  ⟨h.trans h'.1, h'.2⟩

theorem approached_fast : Approached s (fastApproach cfg world s) := by
  have hfirst : Same s (if cfg.homeZFirst then s else homeXy cfg world s) := by
    split
    · exact .refl
    · exact still_homeXy.toSame
  rw [fastApproach]
  generalize (if cfg.homeZFirst then s else homeXy cfg world s) = s₁ at hfirst
  split
  · have hz : Same s ((approach cfg world .z s₁).waitForIdle cfg world) :=
      hfirst.trans (still_deltaMove.trans still_waitForIdle).toSame
    dsimp only
    split
    · exact approached_rest.after hz
    · have hfail := rests_homeFail hz
      exact ⟨hfail.toSame, fun _ => hfail.resting⟩
  · exact approached_rest.after hfirst

theorem rests_home : Rests s (home cfg world a s) := by
  have hstart : Same s (startHoming cfg a s) := ⟨rfl, rfl, .refl⟩
  have hfast : Approached s (fastApproach cfg world (startHoming cfg a s)) :=
    approached_fast.after hstart
  rw [home]
  split
  · rename_i s₁ heq
    rw [heq] at hfast
    exact ⟨hfast.1, hfast.2 rfl⟩
  · rename_i s₁ heq
    rw [heq] at hfast
    have hback : Same s (moveBack cfg world s₁) :=
      (hfast.1.trans same_status).trans (still_deltaMove.trans still_waitForIdle).toSame
    have hslow : Same s ((approachSlow cfg world (moveBack cfg world s₁)).waitForIdle cfg world) :=
      (hback.trans same_status).trans (still_deltaMove.trans still_waitForIdle).toSame
    exact ⟨⟨hslow.compensation, hslow.endstops, hslow.stack⟩, fun hphase => hphase.1 rfl, rfl⟩

/-- A state pushed around a G-code is popped again, or a halt has dropped another. -/
theorem still_pushed : Still s (s.pushState.sendGcode cfg world).popState := by
  have hsend : Still s.pushState (s.pushState.sendGcode cfg world) := by
    have hmodal : Still s.pushState { s.pushState with
        modal := (world s.pushState.clock).modal s.pushState.modal } :=
      ⟨⟨rfl, rfl, .refl⟩, rfl, rfl, rfl, id⟩
    exact hmodal.trans still_waitForIdle
  generalize s.pushState.sendGcode cfg world = s' at hsend
  obtain ⟨⟨hcomp, hends, hstack⟩, hstatus, hseg, haxis, hhalt⟩ := hsend
  have hkeep : Still s' { s'.popState with stateStack := s'.stateStack } := still_popState
  have hhalts : s'.popState.halts = s'.halts := popState_halts
  have hsusp : s'.popState.suspended = s'.suspended := popState_suspended
  have hpop : s'.popState.stateStack = s'.stateStack.tail := popState_stateStack
  have hdropped : (stackAfterHalt s.pushState).tail = stackAfterHalt s := by
    rw [stackAfterHalt, stackAfterHalt, Machine.pushState]
    split <;> rfl
  refine ⟨⟨hkeep.compensation.trans hcomp, hkeep.endstops.trans hends, ?_⟩,
    hkeep.status.trans hstatus, hkeep.segmentation.trans hseg, hkeep.axisToHome.trans haxis,
    fun h => hkeep.halted (hhalt h)⟩
  obtain ⟨hnone, hsame, hstack⟩ | ⟨hcame, hoff, hstack⟩ := hstack
  · exact .inl ⟨hhalts.trans hnone, hsusp.trans hsame, by rw [hpop, hstack]; rfl⟩
  · exact .inr ⟨hhalts ▸ hcame, hsusp.trans hoff, by rw [hpop, hstack, hdropped]⟩

theorem resting_of_still (h : Resting s) (hstill : Still s s') : Rests s s' :=
  ⟨hstill.toSame, hstill.status ▸ h.status, hstill.segmentation.trans h.segmentation⟩

theorem rests_backOffHome (h : Resting s) : Rests s (backOffHome cfg world a s) := by
  have hstart : Same s { s with status := .backOffHome } := same_status
  rw [backOffHome]
  split
  · exact ⟨same_status, fun hphase => hphase.1 rfl, h.segmentation⟩
  · have hpushed : Still { s with status := .backOffHome }
        ({ s with status := .backOffHome }.pushState.sendGcode cfg world).popState := still_pushed
    exact ⟨hstart.trans (hpushed.toSame.trans same_status), fun hphase => hphase.1 rfl,
      hpushed.segmentation.trans h.segmentation⟩

theorem rests_moveToOrigin (h : Resting s) : Rests s (moveToOrigin cfg world a s) := by
  rw [moveToOrigin]
  split
  · exact .refl h
  · split
    · exact ⟨same_status, fun hphase => hphase.1 rfl, h.segmentation⟩
    · split
      · have hpushed : Still { s with status := .moveToOrigin }
            ({ s with status := .moveToOrigin }.pushState.sendGcode cfg world).popState :=
          still_pushed
        have hstart : Same s { s with status := .moveToOrigin } := same_status
        exact ⟨hstart.trans (hpushed.toSame.trans same_status), fun hphase => hphase.1 rfl,
          hpushed.segmentation.trans h.segmentation⟩
      · exact .refl h

theorem rests_homeOne {axis : Option AxisLetter} (h : Resting s) :
    Rests s (homeOne cfg world a axis s) := by
  cases axis with
  | none => exact .refl h
  | some m =>
    rw [homeOne]
    split
    · exact rests_home
    · exact .refl h

theorem rests_homeEach {axes : List (Option AxisLetter)} (h : Resting s) :
    Rests s (homeEach cfg world a axes s) := by
  induction axes generalizing s with
  | nil => exact .refl h
  | cons axis axes ih =>
    have hone : Rests s (homeOne cfg world a axis s) := rests_homeOne h
    rw [homeEach]
    split
    · exact hone
    · exact hone.trans (ih hone.resting)

theorem rests_homeAll (h : Resting s) : Rests s (homeAll cfg world a s) := by
  rw [homeAll]
  split
  · exact rests_homeEach h
  · split
    · exact rests_homeEach h
    · exact rests_home

theorem rests_afterHoming (h : Resting s) : Rests s (afterHoming cfg world a s) := by
  have hset : Rests s (setHome cfg a s) := ⟨⟨rfl, rfl, .refl⟩, h.status, h.segmentation⟩
  rw [afterHoming]
  split
  · have horigin : Rests (setHome cfg a s) (moveToOrigin cfg world a (setHome cfg a s)) :=
      rests_moveToOrigin hset.resting
    exact (hset.trans horigin).trans (rests_backOffHome horigin.resting)
  · split
    · have hback : Rests (setHome cfg a s) (backOffHome cfg world a (setHome cfg a s)) :=
        rests_backOffHome hset.resting
      exact (hset.trans hback).trans (rests_moveToOrigin hback.resting)
    · exact hset

end homing

/-- No axis is homed by a command with these letters. -/
def NothingToHome (cfg : HomingConfig) (letters : AxisLetter → Bool) : Prop :=
  ∀ m, homedAxes cfg letters m = false

/-- The transform is left off where there is nothing to home. -/
structure ProcessRests (cfg : HomingConfig) (letters : AxisLetter → Bool) (s s' : Machine T M) :
    Prop where
  nothing : NothingToHome cfg letters → s'.compensationTransform = none
  something : ¬ NothingToHome cfg letters → s'.compensationTransform = s.compensationTransform
  endstops : s'.disableEndstops = s.disableEndstops
  stack : StackKept s s'
  resting : Resting s'

theorem all_not_iff {a : AxisLetter → Bool} :
    (AxisLetter.all.all fun m => !a m) = true ↔ ∀ m, a m = false := by
  constructor
  · intro h m
    have hm : m ∈ AxisLetter.all := by cases m <;> decide
    simpa using List.all_eq_true.1 h m hm
  · intro h
    exact List.all_eq_true.2 fun m _ => by rw [h m]; rfl

/-- The start of a home command. -/
def startCommand (cfg : HomingConfig) (world : ℕ → Wait M) (s : Machine T M) : Machine T M :=
  { { s with disableEndstops := false }.waitForIdle cfg world with compensationTransform := none }

theorem processHomeCommand_nothing {letters : AxisLetter → Bool}
    (hnothing : NothingToHome cfg letters) :
    processHomeCommand cfg world letters s =
      { startCommand cfg world s with disableEndstops := s.disableEndstops } := by
  rw [processHomeCommand, if_pos (all_not_iff.2 hnothing)]
  rfl

theorem startCommand_spec :
    (startCommand cfg world s).compensationTransform = none ∧
      ({ s with disableEndstops := false }.waitForIdle cfg world).compensationTransform =
        s.compensationTransform ∧
      StackKept s (startCommand cfg world s) ∧
        (Resting s → Resting (startCommand cfg world s)) := by
  have hwait : Still { s with disableEndstops := false }
    ({ s with disableEndstops := false }.waitForIdle cfg world) := still_waitForIdle
  refine ⟨rfl, hwait.compensation, hwait.stack, fun h => ⟨?_, ?_⟩⟩
  · intro hphase
    exact h.status (hwait.status ▸ hphase)
  · exact hwait.segmentation.trans h.segmentation

theorem processHomeCommand_something {letters : AxisLetter → Bool}
    (hsome : ¬ NothingToHome cfg letters) {s₁ : Machine T M}
    (hs₁ : s₁ = { homeAll cfg world (homedAxes cfg letters) (startCommand cfg world s) with
      compensationTransform := s.compensationTransform }) :
    processHomeCommand cfg world letters s =
      if s₁.halted then { s₁ with homed := fun _ => false, disableEndstops := s.disableEndstops }
      else
        { afterHoming cfg world (homedAxes cfg letters) s₁ with
          disableEndstops := s.disableEndstops } := by
  rw [processHomeCommand, if_neg (mt all_not_iff.1 hsome)]
  dsimp only
  rw [(@startCommand_spec _ _ cfg world s).2.1, hs₁]
  rfl

theorem processHomeCommand_rests {letters : AxisLetter → Bool} (h : Resting s) :
    ProcessRests cfg letters s (processHomeCommand cfg world letters s) := by
  obtain ⟨-, -, hstack, hresting⟩ := @startCommand_spec _ _ cfg world s
  have hrest := hresting h
  by_cases hnothing : NothingToHome cfg letters
  · rw [processHomeCommand_nothing hnothing]
    exact ⟨fun _ => rfl, fun hsome => absurd hnothing hsome, rfl, hstack,
      ⟨hrest.status, hrest.segmentation⟩⟩
  · obtain ⟨s₁, hs₁⟩ : ∃ s₁, s₁ = { homeAll cfg world (homedAxes cfg letters)
      (startCommand cfg world s) with compensationTransform := s.compensationTransform } := ⟨_, rfl⟩
    have hall : Rests (startCommand cfg world s)
        (homeAll cfg world (homedAxes cfg letters) (startCommand cfg world s)) :=
      rests_homeAll hrest
    have hstack₁ : StackKept s s₁ := hs₁ ▸ hstack.trans hall.stack
    have hrest₁ : Resting s₁ := hs₁ ▸ ⟨hall.resting.status, hall.resting.segmentation⟩
    have hcomp₁ : s₁.compensationTransform = s.compensationTransform := by rw [hs₁]
    rw [processHomeCommand_something hnothing hs₁]
    split
    · exact ⟨fun hno => absurd hno hnothing, fun _ => hcomp₁, rfl, hstack₁,
        ⟨hrest₁.status, hrest₁.segmentation⟩⟩
    · have hafter : Rests s₁ (afterHoming cfg world (homedAxes cfg letters) s₁) :=
        rests_afterHoming hrest₁
      exact ⟨fun hno => absurd hno hnothing, fun _ => hafter.compensation.trans hcomp₁, rfl,
        hstack₁.trans hafter.stack, ⟨hafter.resting.status, hafter.resting.segmentation⟩⟩

section repeatability

variable {r : Repeatability} {m : AxisLetter} {n : ℕ}

/-- What the parts of the test keep: the flags and the transform are given back at its end. -/
structure Taps (s s' : Machine T M) : Prop where
  stack : StackKept s s'
  resting : Resting s'

theorem Taps.refl (h : Resting s) : Taps s s := ⟨.refl, h⟩

theorem Taps.trans (h : Taps s s') (h' : Taps s' s'') : Taps s s'' :=
  ⟨h.stack.trans h'.stack, h'.resting⟩

theorem taps_slowApproachAxis {feedRate : Option ℚ} {multiplier : ℚ} (h : Resting s) :
    Taps s (slowApproachAxis cfg world m feedRate multiplier s).1 := by
  have hmove {s : Machine T M} {distance rate : ℚ} :
      Still s (tapMove cfg world m distance rate s) := still_deltaMove.trans still_waitForIdle
  have hstart : Same s (startTap m s) := ⟨rfl, rfl, .refl⟩
  rw [slowApproachAxis]
  split
  · have hback : Same s (tapMove cfg world m (fromSwitch cfg m (cfg.info m).retract)
        (feedRate.getD (cfg.info m).slowRate) (startTap m s)) := hstart.trans hmove.toSame
    exact ⟨((hback.trans same_status).trans hmove.toSame).stack, fun hphase => hphase.1 rfl, rfl⟩
  · exact .refl h

theorem taps_testFail (h : Resting s) : Taps s s.testFail := by
  have hhalt : Still { s with haltReason := some .homeFail } s.testFail := still_onHalt
  exact ⟨hhalt.stack, hhalt.status ▸ h.status, hhalt.segmentation.trans h.segmentation⟩

theorem taps_sample (h : Resting s) : Taps s (sample cfg world r m s).1 := by
  rw [sample]
  split
  · exact ⟨rests_home.stack, rests_home.resting⟩
  · have htap : Taps s (slowApproachAxis cfg world m r.feedRate 2 s).1 := taps_slowApproachAxis h
    split
    · rename_i heq
      rwa [heq] at htap
    · rename_i heq
      rw [heq] at htap
      exact htap.trans (taps_testFail htap.resting)

theorem taps_samples (h : Resting s) : Taps s (samples cfg world r m n s).1 := by
  induction n generalizing s with
  | zero => exact .refl h
  | succ n ih =>
    have hone : Taps s (sample cfg world r m s).1 := taps_sample h
    rw [samples]
    split
    · rename_i heq
      rw [heq] at hone
      exact hone.trans (ih hone.resting)
    · rename_i heq
      rwa [heq] at hone

theorem taps_testAxis (h : Resting s) : Taps s (testAxis cfg world r n m s).1 := by
  rw [testAxis]
  split
  · exact taps_samples h
  · have htap : Taps s (slowApproachAxis cfg world m r.feedRate 3 s).1 := taps_slowApproachAxis h
    split
    · rename_i heq
      rw [heq] at htap
      exact htap.trans (taps_samples htap.resting)
    · rename_i heq
      rw [heq] at htap
      exact htap.trans (taps_testFail htap.resting)

theorem taps_testAxes {axes : List AxisLetter} (h : Resting s) :
    Taps s (testAxes cfg world r n axes s).1 := by
  induction axes generalizing s with
  | nil => exact .refl h
  | cons m axes ih =>
    have hone : Taps s (testAxis cfg world r n m s).1 := taps_testAxis h
    rw [testAxes]
    split
    · rename_i heq
      rw [heq] at hone
      exact hone.trans (ih hone.resting)
    · rename_i heq
      rwa [heq] at hone

theorem taps_processHomeCommand {letters : AxisLetter → Bool} (h : Resting s) :
    Taps s (processHomeCommand cfg world letters s) :=
  ⟨(processHomeCommand_rests h).stack, (processHomeCommand_rests h).resting⟩

theorem taps_testHoming {axes : List AxisLetter} (h : Resting s) :
    Taps s (testHoming cfg world r n axes s) := by
  have hfirst : Taps s (processHomeCommand cfg world r.letters s.uncompensated) := by
    have hprocess : Taps s.uncompensated (processHomeCommand cfg world r.letters s.uncompensated) :=
      taps_processHomeCommand ⟨h.status, h.segmentation⟩
    exact ⟨hprocess.stack, hprocess.resting⟩
  rw [testHoming]
  generalize processHomeCommand cfg world r.letters s.uncompensated = s₁ at hfirst
  split
  · exact hfirst
  · have haxes : Taps s (testAxes cfg world r n axes s₁).1 :=
      hfirst.trans (taps_testAxes hfirst.resting)
    split
    · rename_i heq
      rw [heq] at haxes
      exact haxes.trans (taps_processHomeCommand haxes.resting)
    · rename_i heq
      rwa [heq] at haxes

/-- The test gives back the flag and the transform. -/
theorem rests_testEndstopRepeatability (h : Resting s) :
    Rests s (testEndstopRepeatability cfg world r s) := by
  rw [testEndstopRepeatability]
  split
  · exact .refl h
  · have hwait : Rests s (s.waitForIdle cfg world) := resting_of_still h still_waitForIdle
    generalize s.waitForIdle cfg world = s₁ at hwait
    dsimp only
    split
    · exact hwait
    · have hclear : Rests s (if (.x ∈ testedAxes cfg r.letters ∨ .y ∈ testedAxes cfg r.letters) ∧
          r.belowClearance then s₁.sendGcode cfg world else s₁) := by
        split
        · have hmodal : Still s₁ { s₁ with modal := (world s₁.clock).modal s₁.modal } :=
            ⟨⟨rfl, rfl, .refl⟩, rfl, rfl, rfl, id⟩
          exact hwait.trans (resting_of_still hwait.resting (hmodal.trans still_waitForIdle))
        · exact hwait
      generalize (if (.x ∈ testedAxes cfg r.letters ∨ .y ∈ testedAxes cfg r.letters) ∧
        r.belowClearance then s₁.sendGcode cfg world else s₁) = s₂ at hclear
      have htaps : Taps s₂ (testHoming cfg world r (max 1 (min 50 (r.repeatCount.getD 5))).toNat
          (testedAxes cfg r.letters) s₂) := taps_testHoming hclear.resting
      exact ⟨⟨hclear.compensation, hclear.endstops, hclear.stack.trans htaps.stack⟩,
        htaps.resting.status, htaps.resting.segmentation⟩

end repeatability

inductive HomeCommand where
  | home (letters : AxisLetter → Bool)
  | repeatability (r : Repeatability)

def HomeCommand.run (cfg : HomingConfig) (world : ℕ → Wait M) :
    HomeCommand → Machine T M → Machine T M
  | .home letters => processHomeCommand cfg world letters
  | .repeatability r => testEndstopRepeatability cfg world r

/-- The states between commands; other modules change anything but the two, which are homing's. -/
inductive BetweenCommands (cfg : HomingConfig) : Machine T M → Prop
  | start {s : Machine T M} (hstatus : s.status = .notHoming)
      (hsegmentation : s.disableSegmentation = false) : BetweenCommands cfg s
  | command {s : Machine T M} (h : BetweenCommands cfg s) (world : ℕ → Wait M) (c : HomeCommand) :
      BetweenCommands cfg (c.run cfg world s)
  | other {s s' : Machine T M} (h : BetweenCommands cfg s)
      (hstatus : s'.status = s.status ∨ s'.status = .limitTriggered ∨ s'.status = .notHoming)
      (hsegmentation : s'.disableSegmentation = s.disableSegmentation) : BetweenCommands cfg s'

/-- What a command has to leave as it found it. -/
structure GivesBack (s s' : Machine T M) : Prop where
  compensation : s'.compensationTransform = s.compensationTransform
  endstops : s'.disableEndstops = s.disableEndstops
  segmentation : s'.disableSegmentation = s.disableSegmentation
  stack : s'.stateStack = s.stateStack
  status : ¬ IsPhase s'.status

section givesBack

variable {c : HomeCommand}

theorem BetweenCommands.resting (h : BetweenCommands cfg s) : Resting s := by
  induction h with
  | start hstatus hsegmentation => exact ⟨fun hphase => hphase.1 hstatus, hsegmentation⟩
  | command _ world c ih =>
    cases c with
    | home letters => exact (processHomeCommand_rests ih).resting
    | repeatability r => exact (rests_testEndstopRepeatability ih).resting
  | other _ hstatus hsegmentation ih =>
    refine ⟨?_, hsegmentation.trans ih.segmentation⟩
    obtain hsame | hlimit | hnot := hstatus
    · exact hsame ▸ ih.status
    · exact fun hphase => hphase.2 hlimit
    · exact fun hphase => hphase.1 hnot

theorem stackKept_eq_iff (h : StackKept s s') :
    s'.stateStack = s.stateStack ↔
      (s.suspended = true → s'.halts = s.halts ∨ s.stateStack = []) := by
  obtain ⟨hnone, -, hstack⟩ | ⟨hcame, -, hstack⟩ := h
  · exact ⟨fun _ _ => .inl hnone, fun _ => hstack⟩
  · rw [hstack, stackAfterHalt]
    split
    · rename_i hon
      constructor
      · intro htail _
        right
        have hlen := congrArg List.length htail
        rw [List.length_tail] at hlen
        exact List.eq_nil_of_length_eq_zero (by omega)
      · intro himp
        obtain hnone | hnil := himp hon
        · omega
        · rw [hnil]
          rfl
    · rename_i hoff
      exact iff_of_true rfl fun hon => absurd hon hoff

/-- A halt comes during the command: from outside, in one of its waits, or because a switch that
should have been hit was not. -/
def HomeCommand.HaltComes (cfg : HomingConfig) (world : ℕ → Wait M) (c : HomeCommand)
    (s : Machine T M) : Prop := (c.run cfg world s).halts ≠ s.halts

/-- A command gives back what it borrowed unless it is a home command that finds nothing to home
while a compensation is active, or a halt comes during it while a suspend has saved its state. -/
theorem homing_givesBack_iff (h : BetweenCommands cfg s) :
    GivesBack s (c.run cfg world s) ↔
      (∀ letters, c = .home letters → NothingToHome cfg letters → s.compensationTransform = none) ∧
        (c.HaltComes cfg world s → s.suspended = true → s.stateStack = []) := by
  have hrest := h.resting
  have hkept (hstack : StackKept s (c.run cfg world s)) :
      (c.run cfg world s).stateStack = s.stateStack ↔
        (c.HaltComes cfg world s → s.suspended = true → s.stateStack = []) := by
    rw [stackKept_eq_iff hstack, HomeCommand.HaltComes]
    tauto
  cases c with
  | home letters =>
    have hrun := @processHomeCommand_rests _ _ cfg world _ letters hrest
    have hseg := hrun.resting.segmentation.trans hrest.segmentation.symm
    constructor
    · intro hback
      refine ⟨fun letters' heq hnothing => ?_, (hkept hrun.stack).1 hback.stack⟩
      obtain rfl := HomeCommand.home.inj heq
      exact hback.compensation.symm.trans (hrun.nothing hnothing)
    · rintro ⟨hcomp, hsusp⟩
      refine ⟨?_, hrun.endstops, hseg, (hkept hrun.stack).2 hsusp, hrun.resting.status⟩
      by_cases hnothing : NothingToHome cfg letters
      · exact (hrun.nothing hnothing).trans (hcomp letters rfl hnothing).symm
      · exact hrun.something hnothing
  | repeatability r =>
    have hrun := @rests_testEndstopRepeatability _ _ cfg world _ r hrest
    have hseg := hrun.resting.segmentation.trans hrest.segmentation.symm
    constructor
    · intro hback
      exact ⟨fun _ heq => (by cases heq), (hkept hrun.stack).1 hback.stack⟩
    · rintro ⟨-, hsusp⟩
      exact ⟨hrun.compensation, hrun.endstops, hseg, (hkept hrun.stack).2 hsusp,
        hrun.resting.status⟩

end givesBack

/-- Switches on X, Y and Z. -/
def threeSwitches : HomingConfig where
  info _ := {}
  hasSwitch m := m = .x ∨ m = .y ∨ m = .z
  limitEnable _ := false
  debounceMs := 0

/-- A machine with an active compensation. -/
def compensated : Machine Unit Unit where
  motion := { switch := fun m => { axis := m } }
  compensationTransform := some ()
  modal := ()

/-- A machine that is suspended. -/
def suspended : Machine Unit Unit := { compensated with suspended := true, stateStack := [()] }

/-- Nothing happens in the waits. -/
def quietWorld : ℕ → Wait Unit := fun _ => { level := fun _ => false, ticks := [] }

/-- In every wait the motors drive onto their switches. -/
def hittingWorld : ℕ → Wait Unit := fun _ =>
  { level := fun _ => false
    ticks := [{ level := fun _ => true, driven := fun _ => true, steps := fun _ => 1 }] }

/-- A home command without letters. -/
def homeEverything : HomeCommand := .home fun _ => false

theorem homing_givesBack_iff_all :
    GivesBack suspended (homeEverything.run threeSwitches hittingWorld suspended) := by
  refine (homing_givesBack_iff (.start rfl rfl)).2 ⟨fun letters hcommand hnothing => ?_, ?_⟩
  · obtain rfl := HomeCommand.home.inj hcommand
    exact absurd (hnothing .x) (by decide)
  · intro hhalt
    exact absurd (by decide +kernel) hhalt

/-- A command for the axis C, which has no switch, leaves the compensation off. -/
theorem homing_loses_compensation :
    BetweenCommands threeSwitches compensated ∧
      ¬ GivesBack compensated
        ((HomeCommand.home fun m => m = .c).run threeSwitches quietWorld compensated) := by
  refine ⟨.start rfl rfl, fun hback => ?_⟩
  have hnothing : NothingToHome threeSwitches fun m => m = .c := by
    intro m
    cases m <;> decide
  have hcomp := hback.compensation
  rw [HomeCommand.run, processHomeCommand_nothing hnothing] at hcomp
  cases hcomp

end CarveraFirmware.Homing
