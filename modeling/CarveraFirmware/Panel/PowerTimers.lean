import Mathlib
import CarveraFirmware.Library.WrapClock
import CarveraFirmware.Panel.MainButton

/-!
# Power timers

The part of `MainButton::on_idle` that switches off the power supply, the light and the machine:
three countdowns in microseconds of 32 bits. The minutes and seconds of the configuration are scaled
in 32 bits as well.
-/

namespace CarveraFirmware.Panel

open WrapClock

structure PowerConfig where
  autoSleep : Bool := true
  autoSleepMin : UInt8 := 30
  enableLight : Bool := false
  turnOffLightMin : UInt8 := 10
  powerFanDelayS : UInt16 := 30
  /-- `MachineModel` is `CARVERA`. -/
  isCarvera : Bool := true

structure PowerTimers where
  powerFanCountdownUs : UInt32
  sleepCountdownUs : UInt32
  lightCountdownUs : UInt32

/-- A call of `on_idle` at a true time. `looks` if the emergency stop or the button's state makes it
look at the machine. -/
structure IdleCheck where
  time : Nat
  looks : Bool
  state : MachineState
  using12v : Bool
  lightOn : Option Bool := none

inductive PowerAction where
  | power12 (on : Bool)
  | power24 (on : Bool)
  | light (on : Bool)
  | goToSleep
  deriving DecidableEq

/-- `(uint32_t)min * 60 * 1000000`. -/
def minutesUs (min : UInt8) : UInt32 := min.toUInt32 * 60 * 1000000

/-- `(uint32_t)s * 1000000`. -/
def secondsUs (s : UInt16) : UInt32 := s.toUInt32 * 1000000

/-- Nothing uses the 12 V supply. -/
def IdleCheck.spares12v (c : IdleCheck) : Bool :=
  (c.state = .idle || c.state = .sleep) && !c.using12v

namespace PowerTimers

variable (cfg : PowerConfig) (s : PowerTimers) (c : IdleCheck)

/-- The supply that also drives the fan. -/
def powerFan : PowerTimers × List PowerAction :=
  if c.spares12v then
    if stamp c.time - s.powerFanCountdownUs > secondsUs cfg.powerFanDelayS then
      (s, if cfg.isCarvera then [.power12 false] else [])
    else (s, [])
  else ({ s with powerFanCountdownUs := stamp c.time }, [.power12 true])

def autoSleep : PowerTimers × List PowerAction :=
  if cfg.autoSleep && cfg.autoSleepMin > 0 then
    if c.state = .idle then
      if stamp c.time - s.sleepCountdownUs > minutesUs cfg.autoSleepMin then
        (s, [.power12 false, .power24 false, .light false, .goToSleep])
      else (s, [])
    else ({ s with sleepCountdownUs := stamp c.time }, [])
  else (s, [])

def turnOffLight : PowerTimers × List PowerAction :=
  if cfg.enableLight && cfg.turnOffLightMin > 0 then
    if c.state = .idle then
      if stamp c.time - s.lightCountdownUs > minutesUs cfg.turnOffLightMin then
        ({ s with lightCountdownUs := stamp c.time }, [.light false])
      else (s, [])
    else if c.state ≠ .sleep then
      ({ s with lightCountdownUs := stamp c.time },
        if c.lightOn = some false then [.light true] else [])
    else (s, [])
  else (s, [])

/-- The three parts, in the order in which `on_idle` goes through them. -/
def onIdle : PowerTimers :=
  if c.looks then ((((s.powerFan cfg c).1).autoSleep cfg c).1.turnOffLight cfg c).1 else s

/-- `MainButton::MainButton` reads the counter for all of them. -/
def atBoot (boot : Nat) : PowerTimers := ⟨stamp boot, stamp boot, stamp boot⟩

def after (boot : Nat) (checks : List IdleCheck) : PowerTimers :=
  checks.foldl (fun s c => s.onIdle cfg c) (atBoot boot)

end PowerTimers

/-! ## What the configuration promises -/

/-- The machine was found so at every check for at least so many microseconds. -/
def FoundFor (found : IdleCheck → Prop) (us boot : Nat) (before : List IdleCheck) (c : IdleCheck) :
    Prop :=
  boot + us ≤ c.time ∧ ∀ b ∈ before ++ [c], b.looks = true → c.time ≤ b.time + us → found b

/-- What is switched off by a check has been asked for since long enough. -/
structure KeepsTimes (cfg : PowerConfig) (boot : Nat) (before : List IdleCheck) (c : IdleCheck) :
    Prop where
  sleep : .goToSleep ∈ ((PowerTimers.after cfg boot before).autoSleep cfg c).2 →
    FoundFor (·.state = .idle) (cfg.autoSleepMin.toNat * (60 * 1000000)) boot before c
  light : .light false ∈ ((PowerTimers.after cfg boot before).turnOffLight cfg c).2 →
    FoundFor (·.state = .idle) (cfg.turnOffLightMin.toNat * (60 * 1000000)) boot before c
  power12 : .power12 false ∈ ((PowerTimers.after cfg boot before).powerFan cfg c).2 →
    FoundFor (·.spares12v = true) (cfg.powerFanDelayS.toNat * 1000000) boot before c

/-- Each check comes less than a minute after the one before it. -/
def Spaced : Nat → List IdleCheck → Prop
  | _, [] => True
  | time, c :: checks => time ≤ c.time ∧ c.time < time + 60 * 1000000 ∧ Spaced c.time checks

/-- A machine that has been asleep is not found idle until it has been found in another state. -/
def StaysAsleep (checks : List IdleCheck) : Prop :=
  ∀ before b mid c later, checks = before ++ b :: (mid ++ c :: later) →
    b.looks = true → b.state = .sleep → c.looks = true → c.state = .idle →
      ∃ d ∈ mid, d.looks = true ∧ d.state ≠ .idle ∧ d.state ≠ .sleep

/-- A countdown from a true time `m` that has run out. -/
theorem elapsed_of_due {m t : Nat} {limit : UInt32} (hmt : m ≤ t) (hdue : stamp t - stamp m > limit) :
    m + limit.toNat < t := by
  have hlt : limit.toNat < (stamp t - stamp m).toNat := hdue
  rw [stamp_sub_toNat hmt] at hlt
  have hmod := Nat.mod_le (t - m) (2 ^ 32)
  omega

theorem minutesUs_toNat (min : UInt8) :
    (minutesUs min).toNat = min.toNat * (60 * 1000000) % 2 ^ 32 := by
  have hlt := min.toNat_lt
  unfold minutesUs
  rw [UInt32.toNat_mul, UInt32.toNat_mul, UInt8.toNat_toUInt32]
  show min.toNat * 60 % 2 ^ 32 * 1000000 % 2 ^ 32 = _
  omega

theorem secondsUs_toNat (s : UInt16) : (secondsUs s).toNat = s.toNat * 1000000 % 2 ^ 32 := by
  unfold secondsUs
  rw [UInt32.toNat_mul, UInt16.toNat_toUInt32]
  rfl

/-! ## The countdowns -/

/-- The time of the last check before now, or of the boot. -/
def lastTime (boot : Nat) (checks : List IdleCheck) : Nat := checks.foldl (fun _ c => c.time) boot

theorem lastTime_concat (boot : Nat) (checks : List IdleCheck) (c : IdleCheck) :
    lastTime boot (checks ++ [c]) = c.time := by
  rw [lastTime, List.foldl_append]
  rfl

theorem spaced_append {boot : Nat} {checks later : List IdleCheck} :
    Spaced boot (checks ++ later) ↔ Spaced boot checks ∧ Spaced (lastTime boot checks) later := by
  induction checks generalizing boot with
  | nil => exact ⟨fun h => ⟨trivial, h⟩, fun h => h.2⟩
  | cons c checks ih =>
    show _ ∧ _ ∧ Spaced c.time (checks ++ later) ↔
      (_ ∧ _ ∧ _) ∧ Spaced (lastTime c.time checks) later
    rw [ih, and_assoc, and_assoc]

/-- The checks come one after the other. -/
theorem Spaced.times {boot : Nat} {checks : List IdleCheck} (h : Spaced boot checks) :
    boot ≤ lastTime boot checks ∧
      ∀ b ∈ checks, boot ≤ b.time ∧ b.time ≤ lastTime boot checks := by
  induction checks generalizing boot with
  | nil => exact ⟨le_rfl, fun _ hb => absurd hb List.not_mem_nil⟩
  | cons c checks ih =>
    obtain ⟨hle, -, hrest⟩ := h
    obtain ⟨hlast, hall⟩ := ih hrest
    refine ⟨hle.trans hlast, ?_⟩
    intro b hb
    obtain rfl | hb := List.mem_cons.mp hb
    · exact ⟨hle, hlast⟩
    · exact ⟨hle.trans (hall b hb).1, (hall b hb).2⟩

/-- A countdown from a true time, since when every check has found what it waits for. -/
def CountsFrom (found : IdleCheck → Prop) (boot : Nat) (checks : List IdleCheck)
    (countdown : UInt32) : Prop :=
  ∃ m, countdown = stamp m ∧ boot ≤ m ∧ m ≤ lastTime boot checks ∧
    ∀ b ∈ checks, b.looks = true → found b ∨ b.time ≤ m

section

variable {found : IdleCheck → Prop} {boot : Nat} {checks : List IdleCheck} {countdown : UInt32}
  {c : IdleCheck}

theorem CountsFrom.start : CountsFrom found boot [] (stamp boot) :=
  ⟨boot, rfl, le_rfl, le_rfl, fun _ hb => absurd hb List.not_mem_nil⟩

/-- A check that is not looked at, or finds what the countdown waits for. -/
theorem CountsFrom.keep (h : CountsFrom found boot checks countdown)
    (hle : lastTime boot checks ≤ c.time) (hfound : c.looks = true → found c) :
    CountsFrom found boot (checks ++ [c]) countdown := by
  obtain ⟨m, hm, hboot, hlast, hall⟩ := h
  refine ⟨m, hm, hboot, ?_, ?_⟩
  · rw [lastTime_concat]
    exact hlast.trans hle
  · intro b hb hlooks
    obtain hb | hb := List.mem_append.mp hb
    · exact hall b hb hlooks
    · rw [List.mem_singleton.mp hb] at hlooks ⊢
      exact .inl (hfound hlooks)

/-- A check that starts the countdown anew. -/
theorem CountsFrom.restart (hboot : boot ≤ lastTime boot checks) (hle : lastTime boot checks ≤ c.time)
    (htimes : ∀ b ∈ checks, b.time ≤ c.time) :
    CountsFrom found boot (checks ++ [c]) (stamp c.time) := by
  refine ⟨c.time, rfl, hboot.trans hle, (lastTime_concat boot checks c).ge, ?_⟩
  intro b hb _
  obtain hb | hb := List.mem_append.mp hb
  · exact .inr (htimes b hb)
  · rw [List.mem_singleton.mp hb]
    exact .inr le_rfl

/-- What a countdown that has run out says of the checks. -/
theorem CountsFrom.foundFor (h : CountsFrom found boot checks countdown)
    (hle : lastTime boot checks ≤ c.time) (hfound : found c) {limit : UInt32} {us : Nat}
    (hlimit : limit.toNat = us) (hdue : stamp c.time - countdown > limit) :
    FoundFor found us boot checks c := by
  obtain ⟨m, rfl, hboot, hlast, hall⟩ := h
  have helapsed := elapsed_of_due (hlast.trans hle) hdue
  refine ⟨by omega, ?_⟩
  intro b hb hlooks hlate
  obtain hb | hb := List.mem_append.mp hb
  · obtain hb | hb := hall b hb hlooks
    · exact hb
    · omega
  · rw [List.mem_singleton.mp hb]
    exact hfound

end

/-! ## The timers of a run -/

namespace PowerTimers

variable {cfg : PowerConfig} {s : PowerTimers} {c : IdleCheck} {boot : Nat}
  {checks : List IdleCheck}

theorem after_concat (cfg : PowerConfig) (boot : Nat) (checks : List IdleCheck) (c : IdleCheck) :
    after cfg boot (checks ++ [c]) = (after cfg boot checks).onIdle cfg c := by
  rw [after, List.foldl_append]
  rfl

theorem onIdle_powerFan : (s.onIdle cfg c).powerFanCountdownUs =
    if c.looks = true ∧ c.spares12v = false then stamp c.time else s.powerFanCountdownUs := by
  unfold onIdle
  cases c.looks with
  | false => rfl
  | true =>
    have hlight (t : PowerTimers) :
        (t.turnOffLight cfg c).1.powerFanCountdownUs = t.powerFanCountdownUs := by
      unfold turnOffLight
      split_ifs <;> rfl
    have hsleep (t : PowerTimers) :
        (t.autoSleep cfg c).1.powerFanCountdownUs = t.powerFanCountdownUs := by
      unfold autoSleep
      split_ifs <;> rfl
    rw [if_pos rfl, hlight, hsleep, powerFan]
    cases c.spares12v with
    | false => rfl
    | true =>
      have hkept : (if true = true ∧ true = false then stamp c.time else s.powerFanCountdownUs) =
          s.powerFanCountdownUs := if_neg fun h => Bool.noConfusion h.2
      rw [if_pos rfl, hkept]
      split <;> rfl

theorem onIdle_sleep (hon : (cfg.autoSleep && cfg.autoSleepMin > 0) = true) :
    (s.onIdle cfg c).sleepCountdownUs =
      if c.looks = true ∧ c.state ≠ .idle then stamp c.time else s.sleepCountdownUs := by
  unfold onIdle
  cases c.looks with
  | false => rfl
  | true =>
    have hlight (t : PowerTimers) :
        (t.turnOffLight cfg c).1.sleepCountdownUs = t.sleepCountdownUs := by
      unfold turnOffLight
      split_ifs <;> rfl
    have hfan : (s.powerFan cfg c).1.sleepCountdownUs = s.sleepCountdownUs := by
      unfold powerFan
      split_ifs <;> rfl
    rw [if_pos rfl, hlight, autoSleep, if_pos hon]
    by_cases hidle : c.state = .idle
    · have hkept : (if true = true ∧ c.state ≠ .idle then stamp c.time else s.sleepCountdownUs) =
          s.sleepCountdownUs := if_neg fun h => h.2 hidle
      rw [if_pos hidle, hkept]
      split <;> exact hfan
    · rw [if_neg hidle, if_pos ⟨rfl, hidle⟩]

/-- The light is due to be turned off. -/
def LightDue (cfg : PowerConfig) (s : PowerTimers) (c : IdleCheck) : Prop :=
  c.state = .idle ∧ stamp c.time - s.lightCountdownUs > minutesUs cfg.turnOffLightMin

theorem onIdle_light (hon : (cfg.enableLight && cfg.turnOffLightMin > 0) = true) :
    (s.onIdle cfg c).lightCountdownUs = s.lightCountdownUs ∧
        (c.looks = true → c.state = .idle ∨ c.state = .sleep) ∨
      (s.onIdle cfg c).lightCountdownUs = stamp c.time ∧ (c.state = .idle → LightDue cfg s c) := by
  unfold onIdle
  cases hlooks : c.looks with
  | false => exact .inl ⟨rfl, fun h => Bool.noConfusion h⟩
  | true =>
    have hfan : (s.powerFan cfg c).1.lightCountdownUs = s.lightCountdownUs := by
      unfold powerFan
      split_ifs <;> rfl
    have hsleep (t : PowerTimers) :
        (t.autoSleep cfg c).1.lightCountdownUs = t.lightCountdownUs := by
      unfold autoSleep
      split_ifs <;> rfl
    rw [if_pos rfl, turnOffLight, if_pos hon]
    -- the fan and the sleep before it leave the countdown of the light
    have hsame := (hsleep (s.powerFan cfg c).1).trans hfan
    by_cases hidle : c.state = .idle
    · rw [if_pos hidle]
      split
      · rename_i hdue
        exact .inr ⟨rfl, fun _ => ⟨hidle, hsame ▸ hdue⟩⟩
      · exact .inl ⟨hsame, fun _ => .inl hidle⟩
    · rw [if_neg hidle]
      by_cases hasleep : c.state = .sleep
      · rw [if_neg (not_not_intro hasleep)]
        exact .inl ⟨hsame, fun _ => .inr hasleep⟩
      · rw [if_pos hasleep]
        exact .inr ⟨rfl, fun h => absurd h hidle⟩

/-- The countdowns of a run count from the last check that did not find what they wait for. -/
theorem counts_after (cfg : PowerConfig) (hspaced : Spaced boot checks) :
    CountsFrom (·.spares12v = true) boot checks (after cfg boot checks).powerFanCountdownUs ∧
      ((cfg.autoSleep && cfg.autoSleepMin > 0) = true →
        CountsFrom (·.state = .idle) boot checks (after cfg boot checks).sleepCountdownUs) ∧
      ((cfg.enableLight && cfg.turnOffLightMin > 0) = true →
        CountsFrom (fun b => b.state = .idle ∨ b.state = .sleep) boot checks
          (after cfg boot checks).lightCountdownUs) := by
  -- Each countdown is set again by a check that finds the machine busy, and kept by every other.
  induction checks using List.reverseRecOn with
  | nil => exact ⟨.start, fun _ => .start, fun _ => .start⟩
  | append_singleton checks c ih =>
    obtain ⟨hbefore, hle, -⟩ := spaced_append.mp hspaced
    obtain ⟨hfan, hsleep, hlight⟩ := ih hbefore
    obtain ⟨hboot, htimes⟩ := hbefore.times
    have hpast : ∀ b ∈ checks, b.time ≤ c.time := fun b hb => (htimes b hb).2.trans hle
    rw [after_concat]
    refine ⟨?_, ?_, ?_⟩
    · rw [onIdle_powerFan]
      split
      · exact .restart hboot hle hpast
      · rename_i hkept
        refine hfan.keep hle ?_
        intro hlooks
        cases hspares : c.spares12v with
        | false => exact absurd ⟨hlooks, hspares⟩ hkept
        | true => rfl
    · intro hon
      rw [onIdle_sleep hon]
      split
      · exact .restart hboot hle hpast
      · rename_i hkept
        refine (hsleep hon).keep hle ?_
        intro hlooks
        by_contra hidle
        exact hkept ⟨hlooks, hidle⟩
    · intro hon
      obtain ⟨hsame, hfound⟩ | ⟨hnow, -⟩ := @onIdle_light cfg (after cfg boot checks) c hon
      · rw [hsame]
        exact (hlight hon).keep hle hfound
      · rw [hnow]
        exact .restart hboot hle hpast

end PowerTimers

/-! ## The condition -/

/-- Minutes that 32 bits hold in microseconds. -/
theorem minutesUs_of_le {min : UInt8} (h : min.toNat ≤ 71) :
    (minutesUs min).toNat = min.toNat * (60 * 1000000) := by
  rw [minutesUs_toNat]
  omega

theorem secondsUs_of_le {s : UInt16} (h : s.toNat ≤ 4294) :
    (secondsUs s).toNat = s.toNat * 1000000 := by
  rw [secondsUs_toNat]
  omega

section

variable {cfg : PowerConfig} {boot : Nat} {before later : List IdleCheck} {c : IdleCheck}

/-- While the machine stays asleep, checks that found it idle or asleep found it idle. -/
theorem foundFor_idle {us : Nat} (hspaced : Spaced boot (before ++ c :: later))
    (hasleep : StaysAsleep (before ++ c :: later)) (hlooks : c.looks = true) (hidle : c.state = .idle)
    (h : FoundFor (fun b => b.state = .idle ∨ b.state = .sleep) us boot before c) :
    FoundFor (·.state = .idle) us boot before c := by
  refine ⟨h.1, ?_⟩
  intro b hb hblooks hlate
  obtain hfound | hfound := h.2 b hb hblooks hlate
  · exact hfound
  obtain hb | hb := List.mem_append.mp hb
  · -- somebody found it awake in between, at a time that is late enough to count
    exfalso
    obtain ⟨earlier, mid, rfl⟩ := List.append_of_mem hb
    obtain ⟨d, hd, hdlooks, hnotIdle, hnotAsleep⟩ :=
      hasleep earlier b mid c later (by simp) hblooks hfound hlooks hidle
    have horder : b.time ≤ d.time := by
      have hrest := (spaced_append.mp hspaced).1
      have htail := (spaced_append.mp hrest).2
      exact (htail.2.2.times.2 d hd).1
    obtain hd' | hd' := h.2 d (by simp [hd]) hdlooks (hlate.trans (by omega))
    · exact hnotIdle hd'
    · exact hnotAsleep hd'
  · rw [List.mem_singleton.mp hb]
    exact hidle

theorem keepsTimes_of_le (hsleep : cfg.autoSleep = true → cfg.autoSleepMin.toNat ≤ 71)
    (hlight : cfg.enableLight = true → cfg.turnOffLightMin.toNat ≤ 71)
    (hfan : cfg.isCarvera = true → cfg.powerFanDelayS.toNat ≤ 4294)
    (hspaced : Spaced boot (before ++ c :: later)) (hasleep : StaysAsleep (before ++ c :: later))
    (hlooks : c.looks = true) : KeepsTimes cfg boot before c := by
  obtain ⟨hbefore, hle, -⟩ := spaced_append.mp hspaced
  obtain ⟨hcountsFan, hcountsSleep, hcountsLight⟩ := PowerTimers.counts_after cfg hbefore
  -- Each action is behind a comparison of 32-bit times, which its bound keeps true to the real
  -- ones.
  constructor
  · intro hacts
    unfold PowerTimers.autoSleep at hacts
    split at hacts
    · rename_i hon
      split at hacts
      · rename_i hidle
        split at hacts
        · rename_i hdue
          simp only [Bool.and_eq_true] at hon
          exact (hcountsSleep (by simpa using hon)).foundFor hle hidle
            (minutesUs_of_le (hsleep hon.1)) hdue
        · exact absurd hacts List.not_mem_nil
      · exact absurd hacts List.not_mem_nil
    · exact absurd hacts List.not_mem_nil
  · intro hacts
    unfold PowerTimers.turnOffLight at hacts
    split at hacts
    · rename_i hon
      split at hacts
      · rename_i hidle
        split at hacts
        · rename_i hdue
          simp only [Bool.and_eq_true] at hon
          have hfound := (hcountsLight (by simpa using hon)).foundFor hle (.inl hidle)
            (minutesUs_of_le (hlight hon.1)) hdue
          exact foundFor_idle hspaced hasleep hlooks hidle hfound
        · exact absurd hacts List.not_mem_nil
      · split at hacts
        · split at hacts
          · cases List.mem_singleton.mp hacts
          · exact absurd hacts List.not_mem_nil
        · exact absurd hacts List.not_mem_nil
    · exact absurd hacts List.not_mem_nil
  · intro hacts
    unfold PowerTimers.powerFan at hacts
    split at hacts
    · rename_i hspares
      split at hacts
      · rename_i hdue
        split at hacts
        · rename_i hcarvera
          exact hcountsFan.foundFor hle hspares (secondsUs_of_le (hfan hcarvera)) hdue
        · exact absurd hacts List.not_mem_nil
      · exact absurd hacts List.not_mem_nil
    · cases List.mem_singleton.mp hacts

end

/-! ## Runs that find the machine idle -/

/-- The `i`th check, a microsecond after the one before it. -/
def idleAt (i : Nat) : IdleCheck :=
  { time := i + 1, looks := true, state := .idle, using12v := false }

theorem idleAt_state (i : Nat) : (idleAt i).state = .idle := rfl

theorem idleAt_spares12v (i : Nat) : (idleAt i).spares12v = true := rfl

def idleRun (n : Nat) : List IdleCheck := (List.range n).map idleAt

theorem idleRun_succ (n : Nat) : idleRun (n + 1) = idleRun n ++ [idleAt n] := by
  rw [idleRun, List.range_succ, List.map_append]
  rfl

theorem lastTime_idleRun (n : Nat) : lastTime 0 (idleRun n) = n := by
  cases n with
  | zero => rfl
  | succ n =>
    rw [idleRun_succ, lastTime_concat]
    rfl

theorem spaced_idleRun (n : Nat) : Spaced 0 (idleRun n) := by
  induction n with
  | zero => trivial
  | succ n ih =>
    rw [idleRun_succ]
    refine spaced_append.mpr ⟨ih, ?_⟩
    rw [lastTime_idleRun]
    refine ⟨Nat.le_succ n, ?_, trivial⟩
    show n + 1 < n + 60 * 1000000
    omega

theorem staysAsleep_idleRun (n : Nat) : StaysAsleep (idleRun n) := by
  intro before b mid c later hrun _ hasleep
  have hmem : b ∈ idleRun n := by
    rw [hrun]
    exact List.mem_append_right _ (List.mem_cons_self ..)
  obtain ⟨i, -, rfl⟩ := List.mem_map.mp hmem
  cases hasleep

section

variable (cfg : PowerConfig) (n : Nat)

theorem sleep_idleRun (hon : (cfg.autoSleep && cfg.autoSleepMin > 0) = true) :
    (PowerTimers.after cfg 0 (idleRun n)).sleepCountdownUs = stamp 0 := by
  induction n with
  | zero => rfl
  | succ n ih =>
    rw [idleRun_succ, PowerTimers.after_concat, PowerTimers.onIdle_sleep hon]
    rw [if_neg fun h => h.2 rfl]
    exact ih

theorem powerFan_idleRun : (PowerTimers.after cfg 0 (idleRun n)).powerFanCountdownUs = stamp 0 := by
  induction n with
  | zero => rfl
  | succ n ih =>
    rw [idleRun_succ, PowerTimers.after_concat, PowerTimers.onIdle_powerFan]
    rw [if_neg fun h => Bool.noConfusion h.2]
    exact ih

/-- A stamp within the first turn of the counter. -/
theorem stamp_sub_zero {t : Nat} (ht : t < 2 ^ 32) : (stamp t - stamp 0).toNat = t :=
  stamp_sub_of_lt (Nat.zero_le t) ht

/-- The light is left alone as long as its countdown has not run out. -/
theorem light_idleRun (hon : (cfg.enableLight && cfg.turnOffLightMin > 0) = true)
    (hn : n ≤ (minutesUs cfg.turnOffLightMin).toNat) :
    (PowerTimers.after cfg 0 (idleRun n)).lightCountdownUs = stamp 0 := by
  have hlimit := (minutesUs cfg.turnOffLightMin).toNat_lt
  induction n with
  | zero => rfl
  | succ n ih =>
    rw [idleRun_succ, PowerTimers.after_concat]
    have hkept := ih (by omega)
    obtain ⟨hsame, -⟩ | ⟨-, hdue⟩ := @PowerTimers.onIdle_light cfg
      (PowerTimers.after cfg 0 (idleRun n)) (idleAt n) hon
    · rw [hsame]
      exact hkept
    · obtain ⟨-, hlate⟩ := hdue rfl
      rw [hkept] at hlate
      have hlt : (minutesUs cfg.turnOffLightMin).toNat < (stamp (n + 1) - stamp 0).toNat := hlate
      rw [stamp_sub_zero (by omega)] at hlt
      omega

variable {cfg} {n}

/-- A limit that 32 bits have cut off is over before the time that was asked for. -/
theorem not_foundFor_idleRun {found : IdleCheck → Prop} {us : Nat} (hwraps : 2 ^ 32 ≤ us) :
    ¬ FoundFor found us 0 (idleRun (us % 2 ^ 32)) (idleAt (us % 2 ^ 32)) := by
  intro h
  have hlong : 0 + us ≤ us % 2 ^ 32 + 1 := h.1
  omega

theorem due_idleRun {limit : UInt32} {us : Nat} (hlimit : limit.toNat = us % 2 ^ 32)
    (heven : us % 2 = 0) : stamp (idleAt (us % 2 ^ 32)).time - stamp 0 > limit := by
  show limit.toNat < (stamp (us % 2 ^ 32 + 1) - stamp 0).toNat
  rw [stamp_sub_zero (by omega), hlimit]
  exact Nat.lt_succ_self _

end

/-- Every run keeps the times exactly if the configured minutes and seconds fit in 32 bits as
microseconds, as long as a machine that is asleep stays so until it is found in another state. -/
theorem power_timers_keep_iff (cfg : PowerConfig) :
    (∀ boot checks, Spaced boot checks → StaysAsleep checks →
      ∀ before c later, checks = before ++ c :: later → c.looks = true →
        KeepsTimes cfg boot before c) ↔
      (cfg.autoSleep = true → cfg.autoSleepMin.toNat ≤ 71) ∧
        (cfg.enableLight = true → cfg.turnOffLightMin.toNat ≤ 71) ∧
        (cfg.isCarvera = true → cfg.powerFanDelayS.toNat ≤ 4294) := by
  constructor
  · intro h
    have hkeeps (n : Nat) : KeepsTimes cfg 0 (idleRun n) (idleAt n) :=
      h 0 (idleRun (n + 1)) (spaced_idleRun _) (staysAsleep_idleRun _) (idleRun n) (idleAt n) []
        (idleRun_succ n) rfl
    -- With a longer time the product wraps, and a machine that only idles is switched off too
    -- early.
    refine ⟨?_, ?_, ?_⟩
    · intro hsleep
      by_contra hlong
      have hpos : cfg.autoSleepMin > 0 := by
        show (0 : UInt8).toNat < cfg.autoSleepMin.toNat
        exact (Nat.zero_le 71).trans_lt (not_le.mp hlong)
      have hon : (cfg.autoSleep && cfg.autoSleepMin > 0) = true := by simp [hsleep, hpos]
      refine not_foundFor_idleRun (by omega) ((hkeeps _).sleep ?_)
      unfold PowerTimers.autoSleep
      rw [if_pos hon, sleep_idleRun cfg _ hon]
      rw [if_pos (idleAt_state _), if_pos (due_idleRun (minutesUs_toNat _) (by omega))]
      show PowerAction.goToSleep ∈
        [PowerAction.power12 false, .power24 false, .light false, .goToSleep]
      decide
    · intro hlight
      by_contra hlong
      have hpos : cfg.turnOffLightMin > 0 := by
        show (0 : UInt8).toNat < cfg.turnOffLightMin.toNat
        exact (Nat.zero_le 71).trans_lt (not_le.mp hlong)
      have hon : (cfg.enableLight && cfg.turnOffLightMin > 0) = true := by simp [hlight, hpos]
      refine not_foundFor_idleRun (by omega) ((hkeeps _).light ?_)
      unfold PowerTimers.turnOffLight
      rw [if_pos hon, light_idleRun cfg _ hon (minutesUs_toNat _).ge]
      rw [if_pos (idleAt_state _), if_pos (due_idleRun (minutesUs_toNat _) (by omega))]
      exact List.mem_singleton_self _
    · intro hcarvera
      by_contra hlong
      refine not_foundFor_idleRun (by omega) ((hkeeps _).power12 ?_)
      unfold PowerTimers.powerFan
      rw [powerFan_idleRun]
      rw [if_pos (idleAt_spares12v _), if_pos (due_idleRun (secondsUs_toNat _) (by omega)),
        if_pos hcarvera]
      exact List.mem_singleton_self _
  · rintro ⟨hsleep, hlight, hfan⟩ boot checks hspaced hasleep before c later rfl hlooks
    exact keepsTimes_of_le hsleep hlight hfan hspaced hasleep hlooks

/-- With 72 minutes the machine goes to sleep 26 seconds after it has come up. -/
theorem sleeps_at_once :
    ¬ ∀ (cfg : PowerConfig) (boot : Nat) (before : List IdleCheck) (c : IdleCheck),
      0 < cfg.autoSleepMin → 0 < cfg.turnOffLightMin → 0 < cfg.powerFanDelayS →
        Spaced boot (before ++ [c]) → c.looks = true → KeepsTimes cfg boot before c := by
  intro h
  have hkeeps := h { autoSleepMin := 72 } 0 []
    { time := 26000000, looks := true, state := .idle, using12v := false } (by decide) (by decide)
    (by decide) ⟨by decide, by decide, trivial⟩ rfl
  have hfound := hkeeps.sleep (by decide)
  have hlong : 0 + 72 * (60 * 1000000) ≤ 26000000 := hfound.1
  omega

end CarveraFirmware.Panel
