import Mathlib
import CarveraFirmware.Library.Reached

/-!
# The laser

`Laser`: the codes and console commands as the statements they run one after the other, the 1 ms timer
that sets the duty of the PWM output between any two of them, and halts. When laser mode was entered,
and what was asked for since, is kept beside the code's own variables.
-/

namespace CarveraFirmware.Tools

structure LaserConfig where
  laserTestPower : ℚ := 1 / 10
  laserMaximumPower : ℚ := 1
  laserMinimumPower : ℚ := 0
  laserMaximumSValue : ℚ := 1
  ttlUsed : Bool := false
  staticRemovalSupported : Bool := false
  airOrZ1 : Bool := false

/-- What the timer reads of the current block: its `s_value` as a fraction, and its speed as a fraction
of the nominal one. -/
structure RunningBlock where
  isReady : Bool
  isG123 : Bool
  sValue : ℚ
  ratio : ℚ

/-- The statements of the commands. -/
inductive LaserAction where
  | waitForIdle
  | setLaserMode (f : Bool)
  | setLaserOn (f : Bool)
  | setTesting (f : Bool)
  | setHandlingGcode (f : Bool)
  | setLaserPowerZero
  | setLaserPin (f : Bool)
  /-- `if(!static_removal_active) laser_pin->set(false)`. -/
  | releaseLaserPin
  | setStaticRemoval (f : Bool)
  /-- `if(!get_laser_mode()) laser_pin->set(false)`. -/
  | releaseStaticPin
  | setScale (scale : ℚ)
  /-- `laser_on = false` in `on_halt`. -/
  | haltLaserOff
  /-- A call of another module: fans, the PWM period, the tool, the offset, the robot's `S`. -/
  | callOut
  deriving DecidableEq

inductive LaserCode where
  | m3 (s : Option ℚ)
  | m5
  | m321 (subcode : Nat)
  | m322 (subcode : Nat)
  | m323
  | m324
  | m325 (s : Option ℚ)
  | m331_4
  | m332_4

inductive LaserCommand where
  | on | off | test | abort

structure Laser where
  laserMode : Bool := false
  laserOn : Bool := false
  testing : Bool := false
  handlingGcode : Bool := false
  staticRemovalActive : Bool := false
  scale : ℚ := 1
  laserPin : Bool := false
  ttl : Bool := false
  halted : Bool := false
  /-- The last duty that was written to the PWM output, before it is inverted. -/
  duty : ℚ := 0
  /-- What is left of the command in progress, and of the halts that came into it. -/
  todo : List LaserAction := []
  /-- A test was requested since laser mode was last entered. -/
  testSince : Bool := false
  /-- An `M3` was given since laser mode was last entered, and no `M5` or halt came after it. -/
  m3Since : Bool := false

namespace Laser

variable (cfg : LaserConfig)

def setLaserPower (s : Laser) (power : ℚ) : Laser :=
  let power := min (max power 0) 1
  if power > 1 / 10000 then
    { s with duty := power, ttl := s.ttl || (!s.laserOn && cfg.ttlUsed) }
  else { s with duty := 0, ttl := s.ttl && !cfg.ttlUsed }

/-- `get_laser_power(power)`. -/
def getLaserPower (s : Laser) (block : Option RunningBlock) : Option ℚ :=
  match block with
  | some b =>
    if b.isReady && b.isG123 then some (b.sValue / cfg.laserMaximumSValue * b.ratio * s.scale) else none
  | none => none

/-- `set_proportional_power`. -/
def setProportionalPower (s : Laser) (block : Option RunningBlock) : Laser :=
  if !s.laserMode then s
  else if s.testing then s.setLaserPower cfg (cfg.laserTestPower * s.scale)
  else if s.laserOn then
    match s.getLaserPower cfg block with
    | some power =>
      s.setLaserPower cfg ((cfg.laserMaximumPower - cfg.laserMinimumPower) * power + cfg.laserMinimumPower)
    | none => s.setLaserPower cfg 0
  else s.setLaserPower cfg 0

/-- Laser mode is entered where it was off. -/
def setLaserMode (s : Laser) (f : Bool) : Laser :=
  if f && !s.laserMode then { s with laserMode := true, testSince := false, m3Since := false }
  else { s with laserMode := f }

def act (s : Laser) : LaserAction → Laser
  | .waitForIdle => s
  | .setLaserMode f => s.setLaserMode f
  | .setLaserOn f => { s with laserOn := f, m3Since := f }
  | .setTesting f => { s with testing := f, testSince := s.testSince || f }
  | .setHandlingGcode f => { s with handlingGcode := f }
  | .setLaserPowerZero => s.setLaserPower cfg 0
  | .setLaserPin f => { s with laserPin := f }
  | .releaseLaserPin => { s with laserPin := s.laserPin && s.staticRemovalActive }
  | .setStaticRemoval f => { s with staticRemovalActive := f }
  | .releaseStaticPin => { s with laserPin := s.laserPin && s.laserMode }
  | .setScale scale => { s with scale := scale }
  | .haltLaserOff => { s with laserOn := false }
  | .callOut => s

/-- `on_gcode_received`: the statements of the branch that is taken. -/
def codeActions (s : Laser) : LaserCode → List LaserAction
  | .m3 sValue =>
    if s.laserMode then
      if s.handlingGcode then []
      else
        [.setHandlingGcode true, .waitForIdle] ++ (if sValue.isSome then [.callOut] else []) ++
          [.setLaserPin true, .setLaserOn true, .setTesting false, .setHandlingGcode false]
    else []
  | .m5 =>
    if s.laserMode then
      if s.handlingGcode then []
      else
        [.setHandlingGcode true, .waitForIdle, .setLaserOn false, .setTesting false, .releaseLaserPin,
          .setHandlingGcode false]
    else []
  | .m321 subcode =>
    if s.laserMode then []
    else
      [.waitForIdle, .setLaserMode true] ++ (if cfg.airOrZ1 then [.callOut] else []) ++
        (if subcode = 2 then [] else [.callOut])
  | .m322 subcode =>
    [.waitForIdle, .setLaserMode false] ++ (if cfg.airOrZ1 then [.callOut] else []) ++
      [.releaseLaserPin, .setTesting false] ++ (if subcode = 2 then [] else [.callOut])
  | .m323 => [.setTesting true, .setLaserPin true]
  | .m324 => [.setTesting false, .releaseLaserPin]
  | .m325 sValue =>
    match sValue with
    | some v => [.setScale (v / 100)]
    | none => []
  | .m331_4 => if cfg.staticRemovalSupported then [.setStaticRemoval true, .setLaserPin true] else []
  | .m332_4 => if cfg.staticRemovalSupported then [.setStaticRemoval false, .releaseStaticPin] else []

/-- `on_halt(nullptr)` from its second statement on. -/
def haltActions : List LaserAction :=
  [.haltLaserOff, .setLaserMode false] ++ (if cfg.airOrZ1 then [.callOut] else []) ++
    [.setLaserPin false, .setStaticRemoval false, .setTesting false, .callOut]

/-- `on_halt(nullptr)`, its first statement done. -/
def onHalt (s : Laser) : Laser :=
  { s.setLaserPower cfg 0 with m3Since := false, todo := haltActions cfg ++ s.todo }

/-- `on_console_line_received`. -/
def onConsoleLine (s : Laser) (c : LaserCommand) : Laser :=
  if s.halted then s
  else
    match c with
    | .on =>
      { s with
        todo := [.setLaserMode true] ++ (if cfg.airOrZ1 then [.callOut] else []) ++ [.setLaserPin true] }
    | .off =>
      { s with
        todo := [.setLaserMode false] ++ (if cfg.airOrZ1 then [.callOut] else []) ++
          [.releaseLaserPin, .setTesting false, .setLaserPowerZero] }
    | .test => { s with todo := if s.laserMode then [.setTesting true] else [] }
    | .abort => s.onHalt cfg

end Laser

inductive LaserEvent where
  | code (c : LaserCode)
  | console (c : LaserCommand)
  | halt
  | clearHalt
  | tick (block : Option RunningBlock)
  /-- The command in progress goes on by one statement. -/
  | next

namespace Laser

variable (cfg : LaserConfig)

/-- A command is only taken when none is in progress; a halt can come into one. -/
def step (s : Laser) : LaserEvent → Laser
  | .code c => if s.todo = [] then { s with todo := s.codeActions cfg c } else s
  | .console c => if s.todo = [] then s.onConsoleLine cfg c else s
  | .halt => ({ s with halted := true }).onHalt cfg
  | .clearHalt => { s with halted := false }
  | .tick block => s.setProportionalPower cfg block
  | .next =>
    match s.todo with
    | [] => s
    | action :: rest => ({ s with todo := rest }).act cfg action

/-- A tick writes a duty that is not zero. -/
def Fires (s : Laser) (block : Option RunningBlock) : Prop :=
  s.laserMode = true ∧ (s.setProportionalPower cfg block).duty ≠ 0

/-- The block that runs asks for a power that is not cut to zero. -/
def Asks (s : Laser) (block : Option RunningBlock) : Prop :=
  ∃ power, s.getLaserPower cfg block = some power ∧
    1 / 10000 < (cfg.laserMaximumPower - cfg.laserMinimumPower) * power + cfg.laserMinimumPower

/-- A step that lets the beam out of laser mode: the mode is left while the output is not zero and the
command does not go on to clear it; the mode is entered with `laser_on` or `testing` still set from
before; or the timer finds a block that asks for power while `on_halt` has not come to clear
`laser_on`. -/
def Misfires (s : Laser) : LaserEvent → Prop
  | .next =>
    match s.todo with
    | .setLaserMode false :: rest => s.laserMode = true ∧ s.duty ≠ 0 ∧ .setLaserPowerZero ∉ rest
    | .setLaserMode true :: _ => s.laserMode = false ∧ (s.laserOn = true ∨ s.testing = true)
    | _ => False
  | .tick block =>
    .haltLaserOff ∈ s.todo ∧ s.laserMode = true ∧ s.testing = false ∧ s.laserOn = true ∧
      s.Asks cfg block
  | _ => False

/-- Whether the block that runs is a ready `G1`, `G2` or `G3`. -/
def readyG123 (block : Option RunningBlock) : Prop := ∃ b ∈ block, b.isReady = true ∧ b.isG123 = true

/-- A tick that is not one of those above fires only as it may. -/
def FiresLawfully (s : Laser) : Prop :=
  ∀ block, ¬ s.Misfires cfg (.tick block) → s.Fires cfg block →
    s.laserMode = true ∧ (s.testSince = true ∨ (s.m3Since = true ∧ readyG123 block))

/-! ## What holds in every run -/

structure Safe (s : Laser) : Prop where
  dark : s.laserMode = false → s.duty = 0 ∨ .setLaserPowerZero ∈ s.todo
  tested : s.laserMode = true → s.testing = true → s.testSince = true
  lit : s.laserMode = true → s.laserOn = true → s.m3Since = true ∨ .haltLaserOff ∈ s.todo

variable {cfg} {s : Laser}

theorem setLaserPower_eq (cfg : LaserConfig) (s : Laser) (power : ℚ) :
    ∃ duty ttl, s.setLaserPower cfg power = { s with duty := duty, ttl := ttl } := by
  simp only [setLaserPower]
  split
  · exact ⟨_, _, rfl⟩
  · exact ⟨_, _, rfl⟩

/-- A power up to a ten-thousandth is written as zero. -/
theorem setLaserPower_eq_zero {power : ℚ} (h : power ≤ 1 / 10000) :
    (s.setLaserPower cfg power).duty = 0 := by
  have hle : min (max power 0) 1 ≤ 1 / 10000 :=
    (min_le_left _ _).trans (max_le h (by norm_num))
  simp only [setLaserPower]
  rw [if_neg hle.not_gt]

theorem setLaserPower_zero (cfg : LaserConfig) (s : Laser) : (s.setLaserPower cfg 0).duty = 0 :=
  setLaserPower_eq_zero (by norm_num)

theorem setProportionalPower_eq (cfg : LaserConfig) (s : Laser) (block : Option RunningBlock) :
    ∃ duty ttl, s.setProportionalPower cfg block = { s with duty := duty, ttl := ttl } := by
  simp only [setProportionalPower]
  split_ifs
  · exact ⟨_, _, rfl⟩
  · exact setLaserPower_eq ..
  · split
    · exact setLaserPower_eq ..
    · exact setLaserPower_eq ..
  · exact setLaserPower_eq ..

theorem setProportionalPower_of_dark (h : s.laserMode = false) (block : Option RunningBlock) :
    s.setProportionalPower cfg block = s := by
  simp [setProportionalPower, h]

/-- The timer fires for a test, or for a block that the laser is on for. -/
theorem of_fires {block : Option RunningBlock} (h : s.Fires cfg block) :
    s.testing = true ∨ (s.laserOn = true ∧ readyG123 block ∧ s.Asks cfg block) := by
  obtain ⟨hmode, hduty⟩ := h
  simp only [setProportionalPower, hmode, Bool.not_true, Bool.false_eq_true, if_false] at hduty
  by_cases htesting : s.testing = true
  · exact .inl htesting
  rw [if_neg htesting] at hduty
  by_cases hon : s.laserOn = true
  · refine .inr ⟨hon, ?_⟩
    rw [if_pos hon] at hduty
    cases block with
    | none => exact absurd (setLaserPower_zero cfg s) hduty
    | some b =>
      by_cases hready : (b.isReady && b.isG123) = true
      · refine ⟨⟨b, rfl, by simpa using hready⟩, _, if_pos hready, ?_⟩
        simp only [getLaserPower, if_pos hready] at hduty
        by_contra hsmall
        exact hduty (setLaserPower_eq_zero (not_lt.mp hsmall))
      · simp only [getLaserPower, if_neg hready] at hduty
        exact absurd (setLaserPower_zero cfg s) hduty
  · rw [if_neg hon] at hduty
    exact absurd (setLaserPower_zero cfg s) hduty

namespace Safe

/-- With no command in progress, what is to be done next does not matter. -/
theorem begin (h : s.Safe) (hidle : s.todo = []) (todo : List LaserAction) :
    ({ s with todo := todo } : Laser).Safe where
  dark hmode := .inl ((h.dark hmode).resolve_right (by simp [hidle]))
  tested := h.tested
  lit hmode hon := .inl ((h.lit hmode hon).resolve_right (by simp [hidle]))

theorem onHalt (h : s.Safe) : (s.onHalt cfg).Safe := by
  have hzero := setLaserPower_zero cfg s
  obtain ⟨duty, ttl, heq⟩ := setLaserPower_eq cfg s 0
  rw [Laser.onHalt]
  rw [heq] at hzero ⊢
  exact ⟨fun _ => .inl hzero, h.tested, fun _ _ => .inr (by simp [haltActions])⟩

theorem tick (h : s.Safe) (block : Option RunningBlock) : (s.setProportionalPower cfg block).Safe := by
  cases hmode : s.laserMode with
  | false =>
    rw [setProportionalPower_of_dark hmode]
    exact h
  | true =>
    obtain ⟨duty, ttl, heq⟩ := setProportionalPower_eq cfg s block
    rw [heq]
    exact ⟨fun hoff => absurd (hmode.symm.trans hoff) nofun, h.tested, h.lit⟩

/-- One statement of the command in progress. -/
theorem act (h : s.Safe) {action : LaserAction} {rest : List LaserAction} (htodo : s.todo = action :: rest)
    (hok : ¬ s.Misfires cfg .next) : (({ s with todo := rest } : Laser).act cfg action).Safe := by
  obtain ⟨hdark, htested, hlit⟩ := h
  rw [htodo] at hdark hlit
  -- What is still to be done keeps its promise, unless it is this very action.
  have hdark (hne : action ≠ .setLaserPowerZero) (hmode : s.laserMode = false) :
      s.duty = 0 ∨ .setLaserPowerZero ∈ rest :=
    (hdark hmode).imp_right fun hmem => (List.mem_cons.mp hmem).resolve_left hne.symm
  have hlit (hne : action ≠ .haltLaserOff) (hmode : s.laserMode = true) (hon : s.laserOn = true) :
      s.m3Since = true ∨ .haltLaserOff ∈ rest :=
    (hlit hmode hon).imp_right fun hmem => (List.mem_cons.mp hmem).resolve_left hne.symm
  cases action with
  | setLaserMode f =>
    cases f with
    | false =>
      refine ⟨fun _ => ?_, nofun, nofun⟩
      cases hmode : s.laserMode with
      | false => exact hdark nofun hmode
      | true =>
        by_contra hlost
        rw [Misfires, htodo] at hok
        exact hok ⟨hmode, not_or.mp hlost⟩
    | true =>
      cases hmode : s.laserMode with
      | false =>
        rw [Misfires, htodo] at hok
        have hstale : ¬ (s.laserOn = true ∨ s.testing = true) := fun h => hok ⟨hmode, h⟩
        rw [not_or] at hstale
        simp only [Laser.act, Laser.setLaserMode, Bool.not_false, Bool.and_self, if_true]
        exact ⟨nofun, fun _ ht => absurd ht hstale.2, fun _ ho => absurd ho hstale.1⟩
      | true =>
        simp only [Laser.act, Laser.setLaserMode, Bool.not_true, Bool.and_false, Bool.false_eq_true, if_false]
        exact ⟨nofun, fun _ => htested hmode, fun _ => hlit nofun hmode⟩
  | setLaserPowerZero =>
    have hzero := setLaserPower_zero cfg { s with todo := rest }
    obtain ⟨duty, ttl, heq⟩ := setLaserPower_eq cfg { s with todo := rest } 0
    rw [Laser.act]
    rw [heq] at hzero ⊢
    exact ⟨fun _ => .inl hzero, htested, hlit nofun⟩
  | setLaserOn f => exact ⟨hdark nofun, htested, fun _ hon => .inl hon⟩
  | haltLaserOff => exact ⟨hdark nofun, htested, nofun⟩
  | setTesting f =>
    refine ⟨hdark nofun, fun _ hset => ?_, hlit nofun⟩
    rw [show f = true from hset]
    exact Bool.or_true _
  | _ => exact ⟨hdark nofun, htested, hlit nofun⟩

theorem step (h : s.Safe) {e : LaserEvent} (hok : ¬ s.Misfires cfg e) : (s.step cfg e).Safe := by
  cases e with
  | code c =>
    rw [Laser.step]
    split
    · exact h.begin ‹_› _
    · exact h
  | console c =>
    rw [Laser.step]
    split
    · rename_i hidle
      rw [onConsoleLine.eq_def]
      split
      · exact h
      · cases c with
        | abort => exact h.onHalt
        | _ => exact h.begin hidle _
    · exact h
  | halt => exact onHalt (s := { s with halted := true }) ⟨h.dark, h.tested, h.lit⟩
  | clearHalt => exact ⟨h.dark, h.tested, h.lit⟩
  | tick block => exact h.tick block
  | next =>
    rw [Laser.step]
    split
    · exact h
    · exact h.act ‹_› hok

theorem firesLawfully (h : s.Safe) : s.FiresLawfully cfg := by
  intro block hok hfires
  refine ⟨hfires.1, ?_⟩
  by_cases htesting : s.testing = true
  · exact .inl (h.tested hfires.1 htesting)
  have htesting : s.testing = false := by simpa using htesting
  obtain htest | ⟨hon, hready, hasks⟩ := of_fires hfires
  · exact absurd (htesting.symm.trans htest) nofun
  · obtain hm3 | hhalt := h.lit hfires.1 hon
    · exact .inr ⟨hm3, hready⟩
    · exact absurd ⟨hhalt, hfires.1, htesting, hon, hasks⟩ hok

end Safe

end Laser

open Laser

/-- With no command in progress the output is dark outside laser mode, and the timer fires only as it
may, in every run in which no step lets the beam out. -/
theorem laser_dark (cfg : LaserConfig) {s : Laser}
    (h : Reached (Laser.step cfg) (fun s e => ¬ s.Misfires cfg e) {} s) :
    (s.todo = [] → s.laserMode = false → s.duty = 0) ∧ s.FiresLawfully cfg := by
  have hsafe : s.Safe := h.invariant ⟨fun _ => .inl rfl, nofun, nofun⟩
    fun _ _ hsafe hok => Safe.step hsafe hok
  exact ⟨fun hidle hmode => (hsafe.dark hmode).resolve_right (by simp [hidle]), hsafe.firesLawfully⟩

/-- Laser mode is entered, and a test requested. -/
def testRequest : List LaserEvent := [.code (.m321 2), .next, .next, .code .m323, .next, .next]

theorem laser_dark_test :
    (testRequest.foldl (Laser.step {}) {}).FiresLawfully {} := by
  have hok : AllOk (Laser.step {}) (fun s e => ¬ s.Misfires {} e) {} testRequest :=
    ⟨id, id, fun h => h.2.elim Bool.false_ne_true Bool.false_ne_true, id, id, id, trivial⟩
  exact (laser_dark {} (Reached.start.run hok)).2

/-- The timer fires, and laser mode is left. -/
def fireThenM322 : List LaserEvent := [.tick none, .code (.m322 2), .next, .next, .next, .next]

theorem beam_left_on :
    ((testRequest ++ fireThenM322).foldl (Laser.step {}) {}).todo = [] ∧
    ((testRequest ++ fireThenM322).foldl (Laser.step {}) {}).laserMode = false ∧
    ((testRequest ++ fireThenM322).foldl (Laser.step {}) {}).duty ≠ 0 := by
  decide +kernel

end CarveraFirmware.Tools
