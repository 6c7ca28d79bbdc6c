import Mathlib

/-!
# The main button

`button_tick` runs in the timer interrupt and hands a press to `on_idle` through `button_state`,
which the periodic refresh of the LEDs writes as well. A call of `on_idle` resets it at its end only,
so that a call which comes back in while the first one acts finds the press again. The power, the
light and the LED outputs are left out.
-/

namespace CarveraFirmware.Panel

inductive ButtonState where
  | none
  | longPressed
  | shortPressed
  | ledUpdate
  deriving DecidableEq

inductive Press where
  | short
  | long
  deriving DecidableEq

/-- `get_state()`. -/
inductive MachineState where
  | idle | run | hold | home | alarm | sleep | suspend | wait | tool
  deriving DecidableEq

inductive LongPress where
  | repeatJob | sleep | toolChange | nothing
  deriving DecidableEq

inductive HaltReason where
  | manual | coverOpen | eStop
  deriving DecidableEq

inductive Action where
  | halt (reason : HaltReason)
  | resumeFeed
  | systemReset
  | finishToolChange
  | restartJob
  | goToSleep
  | toolChange
  | resumePlay
  | clearHalt
  deriving DecidableEq

/-- `ledTicks` is the whole part of `poll_frequency * 0.2`. -/
structure ButtonConfig where
  longPressTimeMs : UInt32
  ledTicks : Nat
  longPressEnable : LongPress := .nothing
  stopOnCoverOpen : Bool := false

structure MainButton where
  buttonState : ButtonState := .none
  buttonPressed : Bool := false
  buttonPressTime : UInt32 := 0
  ledUpdateTimer : UInt8 := 0

/-- What `on_idle` reads of the rest of the machine. -/
structure IdleEnv where
  state : MachineState
  eStop : Bool := false
  halted : Bool := false
  coverEndstop : Option Bool := none
  spindleOn : Bool := false
  anyMoving : Bool := false
  toolWaiting : Bool := false
  /-- The auto sleep is on and its time has run out. -/
  sleepDue : Bool := false
  haltReason : Nat := 0

namespace MainButton

/-- The kind of a press that ends now. -/
def pressKind (cfg : ButtonConfig) (b : MainButton) (now : UInt32) : Press :=
  if now - b.buttonPressTime > cfg.longPressTimeMs * 1000 then .long else .short

/-- `button_tick` with the level of the pin and the time it reads. -/
def buttonTick (cfg : ButtonConfig) (b : MainButton) (down : Bool) (now : UInt32) : MainButton :=
  if down then
    if !b.buttonPressed then { b with buttonPressed := true, buttonPressTime := now } else b
  else if b.buttonPressed then
    { b with
      buttonState := match b.pressKind cfg now with
        | .long => .longPressed
        | .short => .shortPressed
      buttonPressed := false }
  else if cfg.ledTicks < (b.ledUpdateTimer + 1).toNat then
    { b with buttonState := .ledUpdate, ledUpdateTimer := 0 }
  else { b with ledUpdateTimer := b.ledUpdateTimer + 1 }

/-- The press that is waiting to be handled. -/
def pending (b : MainButton) : Option Press :=
  match b.buttonState with
  | .shortPressed => some .short
  | .longPressed => some .long
  | .none | .ledUpdate => none

end MainButton

def coverHalts (cfg : ButtonConfig) (env : IdleEnv) : List Action :=
  if cfg.stopOnCoverOpen && !env.halted && env.coverEndstop == some false then
    (if env.spindleOn then [.halt .coverOpen] else [])
      ++ (if env.anyMoving then [.halt .coverOpen] else [])
  else []

def shortPress (env : IdleEnv) : List Action :=
  match env.state with
  | .idle | .run | .home | .wait => [.halt .manual]
  | .hold => [.resumeFeed]
  | .alarm => []
  | .sleep => [.systemReset]
  | .tool => [.finishToolChange]
  | .suspend => []

def longPress (cfg : ButtonConfig) (env : IdleEnv) : List Action :=
  match env.state with
  | .idle =>
    match cfg.longPressEnable with
    | .repeatJob => [.restartJob]
    | .sleep => [.goToSleep]
    | .toolChange => if !env.toolWaiting then [.toolChange] else []
    | .nothing => []
  | .run | .home => [.halt .manual]
  | .hold => [.resumeFeed]
  | .suspend => [.resumePlay]
  -- the reasons from 21 on need a reset
  | .alarm => if env.haltReason > 20 then [.systemReset] else [.clearHalt]
  | .sleep => [.systemReset]
  | .wait | .tool => []

def eStopHalts (env : IdleEnv) : List Action :=
  if env.eStop && env.state != .alarm then [.halt .eStop] else []

def autoSleep (env : IdleEnv) : List Action :=
  if env.sleepDue && env.state == .idle then [.goToSleep] else []

def onPress (cfg : ButtonConfig) (env : IdleEnv) : Option Press → List Action
  | none => []
  | some .short => shortPress env
  | some .long => longPress cfg env

/-- A call of `on_idle`, with the calls that come back in while one of its actions runs: turning the
spindle off in a halt dwells and a tool change waits, and both raise ON_IDLE. -/
inductive IdleCall where
  | mk (env : IdleEnv) (inCover inEStop inSleep inPress : List IdleCall)

namespace IdleCall

def env : IdleCall → IdleEnv
  | mk env _ _ _ _ => env

def inPress : IdleCall → List IdleCall
  | mk _ _ _ _ inPress => inPress

/-- A call that no other call comes back into. -/
def plain (env : IdleEnv) : IdleCall := mk env [] [] [] []

end IdleCall

structure IdleResult where
  button : MainButton
  handled : List Press := []
  actions : List Action := []

namespace IdleResult

def andThen (r : IdleResult) (next : MainButton → IdleResult) : IdleResult :=
  { button := (next r.button).button
    handled := r.handled ++ (next r.button).handled
    actions := r.actions ++ (next r.button).actions }

/-- The actions are taken, and only while they run can calls come back in. -/
def acting (actions : List Action) (inner : MainButton → IdleResult) (b : MainButton) :
    IdleResult :=
  if actions.isEmpty then { button := b }
  else { inner b with actions := actions ++ (inner b).actions }

/-- The press is acted on, and `button_state` is only reset afterwards. -/
def handling (cfg : ButtonConfig) (env : IdleEnv) (inner : MainButton → IdleResult)
    (b : MainButton) : IdleResult :=
  let r := acting (onPress cfg env b.pending) inner b
  { r with
    button := { r.button with buttonState := .none }
    handled := b.pending.toList ++ r.handled }

end IdleResult

open IdleResult

mutual

/-- `on_idle`. -/
def onIdle (cfg : ButtonConfig) : IdleCall → MainButton → IdleResult
  | .mk env inCover inEStop inSleep inPress, b =>
    (acting (coverHalts cfg env) (onIdles cfg inCover) b).andThen fun b =>
      if env.eStop || b.buttonState != .none then
        ((acting (eStopHalts env) (onIdles cfg inEStop) b).andThen
          (acting (autoSleep env) (onIdles cfg inSleep))).andThen
            (handling cfg env (onIdles cfg inPress))
      else { button := b }

def onIdles (cfg : ButtonConfig) : List IdleCall → MainButton → IdleResult
  | [], b => { button := b }
  | call :: calls, b => (onIdle cfg call b).andThen (onIdles cfg calls)

end

mutual

/-- The call that gets to the press first. -/
def taker (cfg : ButtonConfig) : IdleCall → IdleCall
  | .mk env inCover inEStop inSleep inPress =>
    ((if (coverHalts cfg env).isEmpty then none else firstTaker cfg inCover).or
      ((if (eStopHalts env).isEmpty then none else firstTaker cfg inEStop).or
        (if (autoSleep env).isEmpty then none else firstTaker cfg inSleep))).getD
          (.mk env inCover inEStop inSleep inPress)

def firstTaker (cfg : ButtonConfig) : List IdleCall → Option IdleCall
  | [] => none
  | call :: _ => some (taker cfg call)

end

/-- The call that takes the press is over before another one comes in. -/
def IdleCall.TakesOnce (cfg : ButtonConfig) (call : IdleCall) (press : Press) : Prop :=
  onPress cfg call.env (some press) = [] ∨ call.inPress = []

instance (cfg : ButtonConfig) (call : IdleCall) (press : Press) :
    Decidable (call.TakesOnce cfg press) :=
  inferInstanceAs (Decidable (_ ∨ _))

/-! ## Runs -/

inductive ButtonEvent where
  | tick (down : Bool) (now : UInt32)
  | idle (call : IdleCall)

namespace MainButton

variable (cfg : ButtonConfig)

def step (b : MainButton) : ButtonEvent → MainButton
  | .tick down now => b.buttonTick cfg down now
  | .idle call => (onIdle cfg call b).button

def run (b : MainButton) (events : List ButtonEvent) : MainButton := events.foldl (step cfg) b

def Reachable (b : MainButton) : Prop := ∃ events, b = ({} : MainButton).run cfg events

/-- The presses that the `on_idle` calls of a run handle. -/
def handledIn : MainButton → List ButtonEvent → List Press
  | _, [] => []
  | b, .tick down now :: events => handledIn (b.buttonTick cfg down now) events
  | b, .idle call :: events =>
    (onIdle cfg call b).handled ++ handledIn (onIdle cfg call b).button events

/-- The event ends a press. -/
def Releases (b : MainButton) : ButtonEvent → Prop
  | .tick down _ => down = false ∧ b.buttonPressed = true
  | .idle _ => False

/-- No press ends in the run. -/
def NoRelease : MainButton → List ButtonEvent → Prop
  | _, [] => True
  | b, event :: events => ¬ b.Releases event ∧ NoRelease (b.step cfg event) events

instance (b : MainButton) : ∀ event, Decidable (b.Releases event)
  | .tick down _ => inferInstanceAs (Decidable (down = false ∧ b.buttonPressed = true))
  | .idle _ => inferInstanceAs (Decidable False)

instance decidableNoRelease (cfg : ButtonConfig) :
    (b : MainButton) → (events : List ButtonEvent) → Decidable (NoRelease cfg b events)
  | _, [] => inferInstanceAs (Decidable True)
  | b, event :: events =>
    have := decidableNoRelease cfg (b.step cfg event) events
    inferInstanceAs (Decidable (¬ b.Releases event ∧ NoRelease cfg (b.step cfg event) events))

end MainButton

def ButtonEvent.isTick : ButtonEvent → Bool
  | .tick .. => true
  | .idle _ => false

/-- How many ticks see the button up. -/
def upTicks (events : List ButtonEvent) : Nat :=
  events.countP fun
    | .tick down _ => !down
    | .idle _ => false

namespace MainButton

variable {cfg : ButtonConfig} {b : MainButton}

/-! ## One call of `on_idle` -/

/-- The button is as before, or `button_state` was reset. -/
def ResetsOnly (b m : MainButton) : Prop := m = b ∨ m = { b with buttonState := .none }

theorem resetsOnly_trans {m n : MainButton} (h : ResetsOnly b m) (h' : ResetsOnly m n) :
    ResetsOnly b n := by
  obtain rfl | rfl := h
  · exact h'
  · right
    obtain rfl | rfl := h' <;> rfl

theorem resetsOnly_pending {m : MainButton} (h : ResetsOnly b m) (hpending : b.pending = none) :
    m.pending = none := by
  obtain rfl | rfl := h
  · exact hpending
  · rfl

/-- What a part of `on_idle` does with a press: `first` is the call in it that takes it, if any. -/
structure Stage (cfg : ButtonConfig) (first : Option IdleCall) (f : MainButton → IdleResult) :
    Prop where
  resets : ∀ b, ResetsOnly b (f b).button
  idle : ∀ b, b.pending = none → (f b).handled = []
  passed : first = none → ∀ b, (f b).button = b ∧ (f b).handled = []
  taken : ∀ call, first = some call → ∀ b press, b.pending = some press →
    (f b).button.pending = none ∧
    (∃ again, (f b).handled = press :: again ∧ (again = [] ↔ call.TakesOnce cfg press)) ∧
    (call.env.state = .run → .halt .manual ∈ (f b).actions)

theorem stage_skip : Stage cfg none fun b => { button := b } where
  resets _ := .inl rfl
  idle _ _ := rfl
  passed _ _ := ⟨rfl, rfl⟩
  taken _ hcall := nomatch hcall

variable {first second : Option IdleCall} {f g : MainButton → IdleResult}

theorem stage_andThen (hf : Stage cfg first f) (hg : Stage cfg second g) :
    Stage cfg (first.or second) fun b => (f b).andThen g where
  resets b := resetsOnly_trans (hf.resets b) (hg.resets _)
  idle b hpending := by
    show (f b).handled ++ (g (f b).button).handled = []
    rw [hf.idle b hpending, hg.idle _ (resetsOnly_pending (hf.resets b) hpending), List.nil_append]
  passed hnone b := by
    obtain ⟨hfirst, hsecond⟩ := Option.or_eq_none_iff.mp hnone
    obtain ⟨hbutton, hhandled⟩ := hf.passed hfirst b
    obtain ⟨hbutton', hhandled'⟩ := hg.passed hsecond b
    show (g (f b).button).button = b ∧ (f b).handled ++ (g (f b).button).handled = []
    rw [hbutton, hhandled, hbutton', hhandled']
    exact ⟨rfl, rfl⟩
  taken call hcall b press hpending := by
    show (g (f b).button).button.pending = none ∧
      (∃ again, (f b).handled ++ (g (f b).button).handled = press :: again ∧
        (again = [] ↔ call.TakesOnce cfg press)) ∧
      (call.env.state = .run → .halt .manual ∈ (f b).actions ++ (g (f b).button).actions)
    cases hfirst : first with
    | none =>
      -- the first part leaves the press to the second
      obtain ⟨hbutton, hhandled⟩ := hf.passed hfirst b
      obtain ⟨hpending', htaken, hhalts⟩ := hg.taken call (by simpa [hfirst] using hcall) b press
        hpending
      rw [hbutton, hhandled]
      exact ⟨hpending', htaken, fun hrun => List.mem_append_right _ (hhalts hrun)⟩
    | some call' =>
      -- the second part finds no press
      obtain rfl : call' = call := by simpa [hfirst] using hcall
      obtain ⟨hpending', ⟨again, hhandled, honce⟩, hhalts⟩ := hf.taken call' hfirst b press hpending
      refine ⟨resetsOnly_pending (hg.resets _) hpending', ⟨again, ?_, honce⟩,
        fun hrun => List.mem_append_left _ (hhalts hrun)⟩
      rw [hhandled, hg.idle _ hpending', List.append_nil]

theorem stage_acting (actions : List Action) (hf : Stage cfg first f) :
    Stage cfg (if actions.isEmpty then none else first) (acting actions f) := by
  cases hempty : actions.isEmpty with
  | true =>
    have hskip : acting actions f = fun b => { button := b } := by
      funext b
      rw [acting, if_pos hempty]
    rw [hskip]
    exact stage_skip
  | false =>
    have hacts : acting actions f
        = fun b => { f b with actions := actions ++ (f b).actions } := by
      funext b
      simp only [acting, hempty, Bool.false_eq_true, if_false]
    rw [hacts]
    exact {
      resets := hf.resets
      idle := hf.idle
      passed := hf.passed
      taken := fun call hcall b press hpending => by
        obtain ⟨hpending', htaken, hhalts⟩ := hf.taken call hcall b press hpending
        exact ⟨hpending', htaken, fun hrun => List.mem_append_right _ (hhalts hrun)⟩ }

/-- The call takes a press that is still pending here. -/
theorem stage_handling (call : IdleCall) (hf : Stage cfg first f)
    (hfirst : first = none ↔ call.inPress = []) :
    Stage cfg (some call) (handling cfg call.env f) where
  resets b := by
    right
    show { (acting (onPress cfg call.env b.pending) f b).button with buttonState := .none }
      = { b with buttonState := .none }
    obtain hsame | hsame := (stage_acting (onPress cfg call.env b.pending) hf).resets b <;> rw [hsame]
  idle b hpending := by
    show b.pending.toList ++ (acting (onPress cfg call.env b.pending) f b).handled = []
    rw [hpending]
    rfl
  passed hnone := nomatch hnone
  taken call' hcall b press hpending := by
    obtain rfl : call = call' := Option.some.inj hcall
    refine ⟨rfl, ⟨(acting (onPress cfg call.env b.pending) f b).handled, ?_, ?_⟩, fun hrun => ?_⟩
    · show b.pending.toList ++ _ = _
      rw [hpending]
      rfl
    · rw [hpending, IdleCall.TakesOnce, ← hfirst, acting]
      split
      · rename_i hempty
        exact iff_of_true rfl (.inl (List.isEmpty_iff.mp hempty))
      · rename_i hacts
        cases hsome : first with
        | none => exact iff_of_true (hf.passed hsome b).2 (.inr rfl)
        | some inner =>
          obtain ⟨-, ⟨again, hhandled, -⟩, -⟩ := hf.taken inner hsome b press hpending
          refine iff_of_false ?_ ?_
          · show (f b).handled ≠ []
            rw [hhandled]
            exact List.cons_ne_nil press again
          · rintro (hempty | hnone)
            · exact hacts (List.isEmpty_iff.mpr hempty)
            · cases hnone
    · show .halt .manual ∈ (acting (onPress cfg call.env b.pending) f b).actions
      have hmanual : onPress cfg call.env b.pending = [.halt .manual] := by
        rw [hpending]
        cases press <;> simp [onPress, shortPress, longPress, hrun]
      rw [hmanual]
      exact List.mem_cons_self ..

/-- Without a press the part may be left out. -/
theorem stage_busy {call : IdleCall} (eStop : Bool) (hf : Stage cfg (some call) f) :
    Stage cfg (some call) fun b =>
      if eStop || b.buttonState != .none then f b else { button := b } where
  resets b := by
    show ResetsOnly b (if eStop || b.buttonState != .none then f b else { button := b }).button
    split
    · exact hf.resets b
    · exact .inl rfl
  idle b hpending := by
    show (if eStop || b.buttonState != .none then f b else { button := b }).handled = []
    split
    · exact hf.idle b hpending
    · rfl
  passed hnone := nomatch hnone
  taken call' hcall b press hpending := by
    have hbusy : (eStop || b.buttonState != .none) = true := by
      have hstate : b.buttonState ≠ .none := by
        intro hnone
        simp [pending, hnone] at hpending
      simp [hstate]
    simp only [hbusy, if_true]
    exact hf.taken call' hcall b press hpending

theorem firstTaker_eq_none {calls : List IdleCall} : firstTaker cfg calls = none ↔ calls = [] := by
  cases calls <;> simp [firstTaker]

mutual

/-- A press is taken in the call, by the first call in it that gets there. -/
theorem stage_onIdle (cfg : ButtonConfig) : ∀ call : IdleCall,
    Stage cfg (some (taker cfg call)) (onIdle cfg call)
  | .mk env inCover inEStop inSleep inPress => by
    have hhalts := stage_andThen
      (stage_acting (eStopHalts env) (stage_onIdles cfg inEStop))
      (stage_acting (autoSleep env) (stage_onIdles cfg inSleep))
    have hpress := stage_andThen hhalts
      (stage_handling (.mk env inCover inEStop inSleep inPress) (stage_onIdles cfg inPress)
        firstTaker_eq_none)
    rw [Option.or_some] at hpress
    have hall := stage_andThen (stage_acting (coverHalts cfg env) (stage_onIdles cfg inCover))
      (stage_busy env.eStop hpress)
    rw [Option.or_some, ← Option.getD_or] at hall
    exact hall

theorem stage_onIdles (cfg : ButtonConfig) : ∀ calls : List IdleCall,
    Stage cfg (firstTaker cfg calls) (onIdles cfg calls)
  | [] => stage_skip
  | call :: calls => stage_andThen (stage_onIdle cfg call) (stage_onIdles cfg calls)

end

/-! ## The refresh of the LEDs -/

/-- The timer of the refresh counts up to `ledTicks`. -/
theorem step_timer (h : b.ledUpdateTimer.toNat ≤ cfg.ledTicks) (event : ButtonEvent) :
    (b.step cfg event).ledUpdateTimer.toNat ≤ cfg.ledTicks := by
  cases event with
  | tick down now =>
    simp only [step, buttonTick]
    split
    · split <;> exact h
    · split
      · exact h
      · split
        · exact Nat.zero_le _
        · rename_i hdue
          exact Nat.not_lt.mp hdue
  | idle call =>
    show (onIdle cfg call b).button.ledUpdateTimer.toNat ≤ cfg.ledTicks
    obtain hsame | hsame := (stage_onIdle cfg call).resets b <;> rwa [hsame]

theorem run_timer (h : b.ledUpdateTimer.toNat ≤ cfg.ledTicks) (events : List ButtonEvent) :
    (b.run cfg events).ledUpdateTimer.toNat ≤ cfg.ledTicks := by
  induction events generalizing b with
  | nil => exact h
  | cons event events ih => exact ih (step_timer h event)

/-- No refresh comes within `n` ticks that see the button up. -/
def Quiet (cfg : ButtonConfig) (b : MainButton) (n : Nat) : Prop :=
  255 ≤ cfg.ledTicks ∨ b.ledUpdateTimer.toNat + n ≤ cfg.ledTicks

instance (b : MainButton) (n : Nat) : Decidable (Quiet cfg b n) :=
  inferInstanceAs (Decidable (_ ∨ _))

/-- A refresh is due after the tick that finds the timer full. -/
theorem due_iff (h : b.ledUpdateTimer.toNat ≤ cfg.ledTicks) :
    cfg.ledTicks < (b.ledUpdateTimer + 1).toNat ↔
      cfg.ledTicks < 255 ∧ b.ledUpdateTimer.toNat = cfg.ledTicks := by
  have hlt := b.ledUpdateTimer.toNat_lt
  have hadd : (b.ledUpdateTimer + 1).toNat = (b.ledUpdateTimer.toNat + 1) % 256 := by
    rw [UInt8.toNat_add]
    rfl
  omega

/-- Ticks that end no press leave what `button_state` holds, unless a refresh comes. -/
theorem run_ticks (events : List ButtonEvent) (hticks : ∀ event ∈ events, event.isTick = true)
    (b : MainButton) (hrelease : NoRelease cfg b events)
    (htimer : b.ledUpdateTimer.toNat ≤ cfg.ledTicks) :
    (Quiet cfg b (upTicks events) ∧ (b.run cfg events).buttonState = b.buttonState) ∨
    (¬ Quiet cfg b (upTicks events) ∧ (b.run cfg events).buttonState = .ledUpdate) := by
  induction events generalizing b with
  | nil =>
    left
    exact ⟨.inr htimer, rfl⟩
  | cons event events ih =>
    obtain ⟨hno, hrest⟩ := hrelease
    have htail := ih (fun e he => hticks e (List.mem_cons_of_mem _ he)) (b.step cfg event) hrest
      (step_timer htimer event)
    have hrun : b.run cfg (event :: events) = (b.step cfg event).run cfg events := rfl
    rw [hrun]
    cases event with
    | idle call => exact absurd (hticks _ (List.mem_cons_self ..)) (by simp [ButtonEvent.isTick])
    | tick down now =>
      cases down with
      | true =>
        have hup : upTicks (.tick true now :: events) = upTicks events := rfl
        have hsame : (b.step cfg (.tick true now)).buttonState = b.buttonState ∧
            (b.step cfg (.tick true now)).ledUpdateTimer = b.ledUpdateTimer := by
          simp only [step, buttonTick, if_true]
          split <;> exact ⟨rfl, rfl⟩
        -- a tick that sees the button down leaves the timer of the LEDs alone
        rwa [hup, ← hsame.1, Quiet, ← hsame.2]
      | false =>
        have hfree : b.buttonPressed = false := by simpa [Releases] using hno
        have hup : upTicks (.tick false now :: events) = upTicks events + 1 := by simp [upTicks]
        rw [hup]
        by_cases hdue : cfg.ledTicks < (b.ledUpdateTimer + 1).toNat
        · -- the refresh comes now, and only another refresh can follow it
          have hstep : b.step cfg (.tick false now)
              = { b with buttonState := .ledUpdate, ledUpdateTimer := 0 } := by
            simp only [step, buttonTick, hfree, Bool.false_eq_true, if_false]
            exact if_pos hdue
          rw [hstep] at htail ⊢
          obtain ⟨hfew, hfull⟩ := (due_iff htimer).mp hdue
          right
          refine ⟨fun hquiet => ?_, ?_⟩
          · obtain hquiet | hquiet := hquiet <;> omega
          · obtain ⟨-, hsame⟩ | ⟨-, hled⟩ := htail
            · exact hsame
            · exact hled
        · have hstep : b.step cfg (.tick false now)
              = { b with ledUpdateTimer := b.ledUpdateTimer + 1 } := by
            simp only [step, buttonTick, hfree, Bool.false_eq_true, if_false]
            exact if_neg hdue
          rw [hstep] at htail ⊢
          have hquiet : Quiet cfg { b with ledUpdateTimer := b.ledUpdateTimer + 1 } (upTicks events)
              ↔ Quiet cfg b (upTicks events + 1) := by
            have hadd : (b.ledUpdateTimer + 1).toNat = (b.ledUpdateTimer.toNat + 1) % 256 := by
              rw [UInt8.toNat_add]
              rfl
            have hlt := b.ledUpdateTimer.toNat_lt
            simp only [Quiet, hadd]
            omega
          rwa [hquiet] at htail

/-! ## Handing a press over -/

theorem handledIn_append (cfg : ButtonConfig) (b : MainButton) (xs ys : List ButtonEvent) :
    b.handledIn cfg (xs ++ ys) = b.handledIn cfg xs ++ (b.run cfg xs).handledIn cfg ys := by
  induction xs generalizing b with
  | nil => rfl
  | cons event xs ih =>
    cases event with
    | tick down now => exact ih (b.buttonTick cfg down now)
    | idle call =>
      simp only [List.cons_append, handledIn, ih, List.append_assoc]
      rfl

theorem handledIn_ticks (cfg : ButtonConfig) (b : MainButton) (events : List ButtonEvent)
    (hticks : ∀ event ∈ events, event.isTick = true) : b.handledIn cfg events = [] := by
  induction events generalizing b with
  | nil => rfl
  | cons event events ih =>
    cases event with
    | tick down now => exact ih _ fun e he => hticks e (List.mem_cons_of_mem _ he)
    | idle call => exact absurd (hticks _ (List.mem_cons_self ..)) (by simp [ButtonEvent.isTick])

/-- Without a press that ends, nothing becomes pending. -/
theorem step_pending (hpending : b.pending = none) {event : ButtonEvent}
    (hno : ¬ b.Releases event) : (b.step cfg event).pending = none := by
  cases event with
  | tick down now =>
    cases down with
    | true =>
      simp only [step, buttonTick, if_true]
      split <;> exact hpending
    | false =>
      have hfree : b.buttonPressed = false := by simpa [Releases] using hno
      simp only [step, buttonTick, hfree, Bool.false_eq_true, if_false]
      split
      · rfl
      · exact hpending
  | idle call => exact resetsOnly_pending ((stage_onIdle cfg call).resets b) hpending

theorem handledIn_none (events : List ButtonEvent) (b : MainButton) (hpending : b.pending = none)
    (hrelease : NoRelease cfg b events) : b.handledIn cfg events = [] := by
  induction events generalizing b with
  | nil => rfl
  | cons event events ih =>
    have htail := ih (b.step cfg event) (step_pending hpending hrelease.1) hrelease.2
    cases event with
    | tick down now => exact htail
    | idle call =>
      rw [handledIn, (stage_onIdle cfg call).idle b hpending]
      exact htail

@[simp] theorem acting_nil (inner : MainButton → IdleResult) (b : MainButton) :
    acting [] inner b = { button := b } := rfl

theorem mem_acting {actions : List Action} {a : Action} (h : a ∈ actions)
    (inner : MainButton → IdleResult) (b : MainButton) : a ∈ (acting actions inner b).actions := by
  have hacts : ¬ actions.isEmpty := by
    rw [List.isEmpty_iff]
    exact List.ne_nil_of_mem h
  rw [acting, if_neg hacts]
  exact List.mem_append_left _ h

/-- A call that finds the machine running raises the halt of the cover, of the e-stop or of the
press, whichever comes first. -/
theorem halts_of_pending {press : Press} (hpending : b.pending = some press) {call : IdleCall}
    (hrun : call.env.state = .run) : ∃ reason, .halt reason ∈ (onIdle cfg call b).actions := by
  obtain ⟨env, inCover, inEStop, inSleep, inPress⟩ := call
  replace hrun : env.state = .run := hrun
  -- An open cover halts before the button is looked at; then the emergency stop; then the press
  -- itself.
  by_cases hcover : .halt .coverOpen ∈ coverHalts cfg env
  · refine ⟨.coverOpen, ?_⟩
    rw [onIdle]
    exact List.mem_append_left _ (mem_acting hcover _ b)
  have hclosed : coverHalts cfg env = [] := by
    revert hcover
    rw [coverHalts]
    split
    · cases env.spindleOn <;> cases env.anyMoving <;> simp
    · simp
  have hbusy : (env.eStop || b.buttonState != .none) = true := by
    have hstate : b.buttonState ≠ .none := by
      intro hnone
      simp [pending, hnone] at hpending
    simp [hstate]
  have hsleep : autoSleep env = [] := by simp [autoSleep, hrun]
  cases heStop : env.eStop with
  | true =>
    refine ⟨.eStop, ?_⟩
    have hhalt : .halt .eStop ∈ eStopHalts env := by simp [eStopHalts, heStop, hrun]
    rw [onIdle, hclosed, acting_nil]
    show .halt .eStop ∈ [] ++ IdleResult.actions (if _ then _ else _)
    rw [if_pos hbusy]
    rw [List.nil_append]
    exact List.mem_append_left _ (List.mem_append_left _ (mem_acting hhalt (onIdles cfg inEStop) b))
  | false =>
    refine ⟨.manual, ?_⟩
    have hnot : eStopHalts env = [] := by simp [eStopHalts, heStop]
    have hpress : .halt .manual ∈ onPress cfg env b.pending := by
      rw [hpending]
      cases press <;> simp [onPress, shortPress, longPress, hrun]
    rw [onIdle, hclosed, hnot, hsleep, acting_nil]
    show .halt .manual ∈ [] ++ IdleResult.actions (if _ then _ else _)
    rw [if_pos hbusy]
    rw [List.nil_append]
    exact List.mem_append_right _ (mem_acting hpress _ b)

end MainButton

open MainButton

theorem noRelease_append {cfg : ButtonConfig} {b : MainButton} {xs ys : List ButtonEvent}
    (h : NoRelease cfg b (xs ++ ys)) : NoRelease cfg b xs ∧ NoRelease cfg (b.run cfg xs) ys := by
  induction xs generalizing b with
  | nil => exact ⟨trivial, h⟩
  | cons event xs ih =>
    obtain ⟨hxs, hys⟩ := ih h.2
    exact ⟨⟨h.1, hxs⟩, hys⟩

/-- A press that ends, with only ticks up to the next `on_idle` call, is handled once, as the kind it
was, exactly if no refresh of the LEDs comes in between and no call comes back in while the press is
acted on. If the machine is running, a halt is then raised. -/
theorem press_handled_iff {cfg : ButtonConfig} {b : MainButton} (hreach : Reachable cfg b)
    (hpressed : b.buttonPressed = true) (now : UInt32) (mid rest : List ButtonEvent)
    (call : IdleCall) (hticks : ∀ event ∈ mid, event.isTick = true)
    (hnext : NoRelease cfg (b.step cfg (.tick false now)) (mid ++ .idle call :: rest)) :
    ((b.step cfg (.tick false now)).handledIn cfg (mid ++ .idle call :: rest)
          = [b.pressKind cfg now] ∧
      ((taker cfg call).env.state = .run → .halt .manual ∈
        (onIdle cfg call ((b.step cfg (.tick false now)).run cfg mid)).actions) ∧
      (call.env.state = .run → ∃ reason, .halt reason ∈
        (onIdle cfg call ((b.step cfg (.tick false now)).run cfg mid)).actions)) ↔
    Quiet cfg b (upTicks mid) ∧ (taker cfg call).TakesOnce cfg (b.pressKind cfg now) := by
  have htimer : b.ledUpdateTimer.toNat ≤ cfg.ledTicks := by
    obtain ⟨events, rfl⟩ := hreach
    exact run_timer (Nat.zero_le _) events
  have hreleased : (b.step cfg (.tick false now)).pending = some (b.pressKind cfg now) ∧
      (b.step cfg (.tick false now)).ledUpdateTimer = b.ledUpdateTimer := by
    simp only [step, buttonTick, hpressed, Bool.false_eq_true, if_false, if_true]
    cases b.pressKind cfg now <;> exact ⟨rfl, trivial⟩
  -- From the release on only the pending press and the timer of the LEDs count.
  generalize b.step cfg (.tick false now) = b' at hnext hreleased ⊢
  obtain ⟨hpending, hsame⟩ := hreleased
  obtain ⟨hmid, hidle⟩ := noRelease_append hnext
  have hquiet : Quiet cfg b' (upTicks mid) ↔ Quiet cfg b (upTicks mid) := by rw [Quiet, Quiet, hsame]
  have hstage := stage_onIdle cfg call
  have hlist : b'.handledIn cfg (mid ++ .idle call :: rest)
      = (onIdle cfg call (b'.run cfg mid)).handled := by
    have hnone : (onIdle cfg call (b'.run cfg mid)).button.pending = none := by
      cases hlast : (b'.run cfg mid).pending with
      | none => exact resetsOnly_pending (hstage.resets _) hlast
      | some press => exact (hstage.taken _ rfl _ press hlast).1
    rw [handledIn_append, handledIn_ticks cfg b' mid hticks, List.nil_append, handledIn,
      handledIn_none rest _ hnone hidle.2, List.append_nil]
  rw [hlist, ← hquiet]
  obtain ⟨hq, hkept⟩ | ⟨hq, hled⟩ := run_ticks mid hticks b' hmid (hsame ▸ htimer)
  · have hkind : (b'.run cfg mid).pending = some (b.pressKind cfg now) := by
      rw [← hpending, pending, hkept, pending]
    obtain ⟨-, ⟨again, hhandled, honce⟩, hmanual⟩ := hstage.taken _ rfl _ _ hkind
    rw [hhandled, ← honce]
    constructor
    · rintro ⟨hone, -, -⟩
      exact ⟨hq, List.tail_eq_of_cons_eq hone⟩
    · rintro ⟨-, rfl⟩
      exact ⟨rfl, hmanual, halts_of_pending hkind⟩
  · have hgone : (b'.run cfg mid).pending = none := by rw [pending, hled]
    refine iff_of_false ?_ fun hboth => hq hboth.1
    rintro ⟨hone, -, -⟩
    rw [hstage.idle _ hgone] at hone
    cases hone

/-! ## A press that is lost, and a press that is handled twice -/

def twentyHz : ButtonConfig := { longPressTimeMs := 3000, ledTicks := 4 }

/-- The cover is opened while the spindle runs. The halt stops the spindle, and a call that comes back
in while the spindle runs down takes the press. -/
def coverOpened : IdleCall :=
  .mk { state := .run, coverEndstop := some false, spindleOn := true }
    [.plain { state := .alarm, halted := true, coverEndstop := some false }] [] [] []

def coverStops : ButtonConfig := { longPressTimeMs := 3000, ledTicks := 4, stopOnCoverOpen := true }

def pressDown : MainButton := ({} : MainButton).run coverStops [.tick false 0, .tick true 50000]

theorem press_handled_iff_cover :
    (pressDown.step coverStops (.tick false 100000)).handledIn coverStops
        ([.tick false 150000, .tick false 200000] ++ .idle coverOpened ::
          [.tick false 250000, .idle (.plain { state := .alarm, halted := true })]) = [.short] ∧
      .halt .coverOpen ∈ (onIdle coverStops coverOpened ((pressDown.step coverStops
        (.tick false 100000)).run coverStops [.tick false 150000, .tick false 200000])).actions := by
  have hreach : Reachable coverStops pressDown := ⟨[.tick false 0, .tick true 50000], rfl⟩
  have hboth := (press_handled_iff hreach rfl 100000 [.tick false 150000, .tick false 200000]
    [.tick false 250000, .idle (.plain { state := .alarm, halted := true })] coverOpened
    (by decide) (by decide)).mpr ⟨by decide, by decide⟩
  exact ⟨hboth.1, by decide⟩

/-- The `on_idle` call comes five ticks after a short press, in a machine that is running. -/
def lateIdle : List ButtonEvent :=
  [.tick true 0, .tick false 50000, .tick false 100000, .tick false 150000, .tick false 200000,
    .tick false 250000, .tick false 300000]

theorem short_press_lost :
    ({} : MainButton).handledIn twentyHz (lateIdle ++ [.idle (.plain { state := .run })]) = [] ∧
    (onIdle twentyHz (.plain { state := .run }) (({} : MainButton).run twentyHz lateIdle)).actions
      = [] := by
  decide

/-- A long press halts, and while the spindle runs down a call that comes back in takes the same press
for the one that clears the halt. -/
theorem long_press_handled_twice :
    ({} : MainButton).handledIn twentyHz [.tick true 0, .tick false 4000000,
      .idle (.mk { state := .run } [] [] [] [.plain { state := .alarm, halted := true }])]
        = [.long, .long] ∧
    (onIdle twentyHz (.mk { state := .run } [] [] [] [.plain { state := .alarm, halted := true }])
        (({} : MainButton).run twentyHz [.tick true 0, .tick false 4000000])).actions
      = [.halt .manual, .clearHalt] := by
  decide

end CarveraFirmware.Panel
