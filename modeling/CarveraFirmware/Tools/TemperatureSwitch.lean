import Mathlib

/-!
# The fan that a temperature switches

`TemperatureSwitch::on_second_tick`, with what it reads at each tick. Temperatures and powers are
exact numbers; what is sent to the switch is the output of the step.
-/

namespace CarveraFirmware.Tools

inductive MachineModel where
  | carvera | carveraAir | other
  deriving DecidableEq

inductive FanMode where
  | idle | accessory | laser | thermal | cooldown
  deriving DecidableEq

inductive TemperatureSource where
  | none | module | highest
  deriving DecidableEq

structure TemperatureSwitchConfig where
  machineModel : MachineModel
  temperatureSource : TemperatureSource
  moduleChecksum : ℕ := 0
  thresholdTemp : ℚ := 35
  cooldownPowerInit : ℚ := 50
  cooldownPowerStep : ℚ := 10
  cooldownPowerLaser : ℚ := 80
  cooldownDelay : ℕ := 180

structure TemperatureSwitch where
  fanMode : FanMode := .idle
  cooldownElapsed : ℕ := 0
  deriving DecidableEq

/-- What is set on the switch of the fan. -/
inductive FanCommand where
  | stateValue (value : ℚ)
  | off
  deriving DecidableEq

structure PadTemperature where
  id : ℕ
  currentTemperature : ℚ

/-- What one tick reads. -/
structure SecondTick where
  laserMode : Bool := false
  /-- None where the controllers cannot be polled. -/
  controllers : Option (List PadTemperature) := some []
  manualValue : ℚ := 0
  bedCleaningPower : Option ℚ := none
  spindleAccessoriesPower : Option ℚ := none

variable (cfg : TemperatureSwitchConfig)

def getTemperature (tick : SecondTick) : ℚ :=
  match tick.controllers.bind (List.find? fun c => c.id = cfg.moduleChecksum) with
  | some c => c.currentTemperature
  | none => 50

def getHighestTemperature (tick : SecondTick) : ℚ :=
  (tick.controllers.getD []).foldl
    (fun highTemp c => if highTemp < c.currentTemperature then c.currentTemperature else highTemp) 0

def currentTemp (tick : SecondTick) : ℚ :=
  match cfg.temperatureSource with
  | .highest => getHighestTemperature tick
  | .module => getTemperature cfg tick
  | .none => 0

/-- The power an accessory asks for; the bed is asked first. -/
def requestedFanPower (tick : SecondTick) : Option ℚ :=
  tick.bedCleaningPower <|> tick.spindleAccessoriesPower

def powerRequested (tick : SecondTick) : Bool :=
  0 < tick.manualValue || (requestedFanPower tick).isSome

def accessoryPower (tick : SecondTick) : ℚ :=
  (requestedFanPower tick).elim tick.manualValue (max tick.manualValue)

/-- The temperature is at or above the threshold. -/
def hot (tick : SecondTick) : Bool := cfg.thresholdTemp ≤ currentTemp cfg tick

def thermalPower (tick : SecondTick) : ℚ :=
  cfg.cooldownPowerInit + (currentTemp cfg tick - cfg.thresholdTemp) * cfg.cooldownPowerStep

/-- The part of a tick for a temperature below the threshold. -/
def coolTick (s : TemperatureSwitch) : TemperatureSwitch × List FanCommand :=
  match s.fanMode with
  | .accessory => ({ fanMode := .idle, cooldownElapsed := 0 }, [.off])
  | .laser | .thermal => ({ fanMode := .cooldown, cooldownElapsed := 0 }, [])
  | .cooldown =>
    if cfg.cooldownDelay < s.cooldownElapsed + 1 then
      ({ fanMode := .idle, cooldownElapsed := 0 }, [.off])
    else ({ s with cooldownElapsed := s.cooldownElapsed + 1 }, [])
  | .idle => (s, [])

/-- `TemperatureSwitch::on_second_tick`. -/
def onSecondTick (s : TemperatureSwitch) (tick : SecondTick) :
    TemperatureSwitch × List FanCommand :=
  if tick.laserMode then
    if cfg.machineModel = .carvera then
      ({ fanMode := .laser, cooldownElapsed := 0 }, [.stateValue cfg.cooldownPowerLaser])
    else (s, [])
  else if powerRequested tick then
    let power :=
      if hot cfg tick then max (accessoryPower tick) (thermalPower cfg tick) else accessoryPower tick
    ({ fanMode := .accessory, cooldownElapsed := 0 }, [.stateValue (min power 100)])
  else if hot cfg tick then
    ({ fanMode := .thermal, cooldownElapsed := 0 }, [.stateValue (thermalPower cfg tick)])
  else coolTick cfg s

/-- The state after a tick. -/
def afterTick (s : TemperatureSwitch) (tick : SecondTick) : TemperatureSwitch :=
  (onSecondTick cfg s tick).1

def switchesOff (s : TemperatureSwitch) (tick : SecondTick) : Bool :=
  .off ∈ (onSecondTick cfg s tick).2

/-- A tick after which the fan has to cool. -/
def heats (tick : SecondTick) : Bool :=
  hot cfg tick || (tick.laserMode && cfg.machineModel = .carvera)

/-- A tick that asks for no fan. -/
def quiet (tick : SecondTick) : Bool :=
  !tick.laserMode && !powerRequested tick && !hot cfg tick

/-- A tick at which the code looks at the temperature, or at laser mode. -/
def looksAt (tick : SecondTick) : Bool :=
  if tick.laserMode then cfg.machineModel = .carvera else !powerRequested tick

def onForHeat (s : TemperatureSwitch) : Bool := s.fanMode = .laser || s.fanMode = .thermal

/-- A tick that loses heat: a request takes over a fan that is on for heat, cools, or has to, or heat
is not looked at in laser mode by a fan that is not on for it. -/
def LosesHeat (s : TemperatureSwitch) (tick : SecondTick) : Prop :=
  if tick.laserMode then cfg.machineModel ≠ .carvera ∧ hot cfg tick ∧ ¬ onForHeat s
  else powerRequested tick ∧ (hot cfg tick ∨ onForHeat s ∨ s.fanMode = .cooldown)

/-- The next tick that is looked at, if there is one, brings heat again. -/
def Regained (later : List SecondTick) : Prop :=
  ∀ tick, later.find? (looksAt cfg) = some tick → heats cfg tick

/-- A run in which no heat stays lost. -/
def Undisturbed : TemperatureSwitch → List SecondTick → Prop
  | _, [] => True
  | s, tick :: later =>
    (LosesHeat cfg s tick → Regained cfg later) ∧ Undisturbed (afterTick cfg s tick) later

variable {cfg} {s : TemperatureSwitch} {tick : SecondTick}

theorem onSecondTick_quiet (h : quiet cfg tick) : onSecondTick cfg s tick = coolTick cfg s := by
  simp only [quiet, Bool.and_eq_true, Bool.not_eq_true'] at h
  simp [onSecondTick, h]

theorem quiet_of_switchesOff (h : switchesOff cfg s tick) : quiet cfg tick := by
  by_contra hnot
  revert h
  simp only [quiet] at hnot
  rw [switchesOff, onSecondTick]
  split
  · split <;> simp
  · split
    · simp
    · split
      · simp
      · simp_all

/-- The fan is on for heat since a tick that `k` quiet ticks have followed, or it has cooled. -/
inductive Cooling (cfg : TemperatureSwitchConfig) (s : TemperatureSwitch) (k : ℕ) : Prop
  | on (h : s.fanMode = .laser ∨ s.fanMode = .thermal)
  | cooldown (h : s.fanMode = .cooldown) (hlt : s.cooldownElapsed < k)
  | cooled (h : cfg.cooldownDelay < k)

theorem quiet_iff : quiet cfg tick ↔ looksAt cfg tick ∧ heats cfg tick = false := by
  rw [quiet, looksAt, heats]
  by_cases hlaser : tick.laserMode = true
  · simp [hlaser]
    tauto
  · simp [hlaser]

/-- A fan that heat is seen by is on for it. -/
theorem onForHeat_of_heats (hlooks : looksAt cfg tick) (hheat : heats cfg tick) :
    onForHeat (afterTick cfg s tick) := by
  simp only [looksAt, heats, Bool.or_eq_true, Bool.and_eq_true, decide_eq_true_eq] at hlooks hheat
  rw [afterTick, onSecondTick]
  split
  · rename_i hlaser
    rw [if_pos hlaser, decide_eq_true_eq] at hlooks
    rw [if_pos hlooks]
    rfl
  · rename_i hlaser
    rw [if_neg hlaser, Bool.not_eq_true'] at hlooks
    rw [if_neg (by simp [hlooks]), if_pos (hheat.resolve_right fun h => hlaser h.1)]
    rfl

theorem cooling_of_onForHeat {k : ℕ} (h : onForHeat s) : Cooling cfg s k := by
  rw [onForHeat, Bool.or_eq_true, decide_eq_true_eq, decide_eq_true_eq] at h
  exact .on h

theorem regained_cons_of_looksAt {later : List SecondTick} (hlooks : looksAt cfg tick) :
    Regained cfg (tick :: later) ↔ heats cfg tick := by
  rw [Regained, List.find?_cons_of_pos hlooks]
  simp

theorem regained_cons_of_not {later : List SecondTick} (hlooks : ¬ looksAt cfg tick) :
    Regained cfg (tick :: later) ↔ Regained cfg later := by
  rw [Regained, List.find?_cons_of_neg hlooks, Regained]

theorem cooling_coolTick {k : ℕ} (h : Cooling cfg s k) : Cooling cfg (coolTick cfg s).1 (k + 1) := by
  cases h with
  | on h => obtain h | h := h <;> simp only [coolTick, h] <;> exact .cooldown rfl (Nat.succ_pos k)
  | cooldown h hlt =>
    simp only [coolTick, h]
    split
    · rename_i hdelay
      exact .cooled (by omega)
    · exact .cooldown rfl (Nat.succ_lt_succ hlt)
  | cooled h => exact .cooled (Nat.lt_succ_of_lt h)

/-- A tick that is not looked at and loses no heat leaves a fan on that is on for heat or cools. -/
theorem cooling_unseen {k : ℕ} (h : Cooling cfg s k) (hlooks : ¬ looksAt cfg tick)
    (hkept : ¬ LosesHeat cfg s tick) : Cooling cfg (afterTick cfg s tick) k := by
  rw [looksAt] at hlooks
  rw [LosesHeat] at hkept
  rw [afterTick, onSecondTick]
  split
  · rename_i hlaser
    rw [if_pos hlaser, decide_eq_true_eq] at hlooks
    rw [if_neg hlooks]
    exact h
  · rename_i hlaser
    rw [if_neg hlaser, Bool.not_eq_true', Bool.not_eq_false] at hlooks
    rw [if_neg hlaser] at hkept
    rw [if_pos hlooks]
    -- a request comes only when the fan is not on for heat
    cases h with
    | on h => exact absurd ⟨hlooks, .inr (.inl (by simpa [onForHeat] using h))⟩ hkept
    | cooldown h => exact absurd ⟨hlooks, .inr (.inr h)⟩ hkept
    | cooled h => exact .cooled h

/-- Heat that is not lost keeps the fan cooling, and heat that is lost comes again. -/
theorem cooling_step {k : ℕ} {later : List SecondTick}
    (h : Cooling cfg s k ∨ Regained cfg (tick :: later))
    (hok : LosesHeat cfg s tick → Regained cfg later) :
    Cooling cfg (afterTick cfg s tick) (k + if quiet cfg tick then 1 else 0) ∨
      Regained cfg later := by
  by_cases hlooks : looksAt cfg tick
  · cases hheat : heats cfg tick with
    | true => exact .inl (cooling_of_onForHeat (onForHeat_of_heats hlooks hheat))
    | false =>
      have hquiet : quiet cfg tick := quiet_iff.mpr ⟨hlooks, hheat⟩
      rw [regained_cons_of_looksAt hlooks, hheat, or_iff_left Bool.false_ne_true] at h
      rw [if_pos hquiet, afterTick, onSecondTick_quiet hquiet]
      exact .inl (cooling_coolTick h)
  · rw [regained_cons_of_not hlooks] at h
    rw [if_neg fun hquiet => hlooks (quiet_iff.mp hquiet).1, Nat.add_zero]
    by_cases hlost : LosesHeat cfg s tick
    · exact .inr (hok hlost)
    · exact h.imp_left fun h => cooling_unseen h hlooks hlost

/-- After a tick with heat the fan is on for it, or the heat is lost and comes again. -/
theorem cooling_heats {later : List SecondTick} (hheat : heats cfg tick)
    (hok : LosesHeat cfg s tick → Regained cfg later) :
    onForHeat (afterTick cfg s tick) ∨ Regained cfg later := by
  by_cases hlooks : looksAt cfg tick
  · exact .inl (onForHeat_of_heats hlooks hheat)
  by_cases hlost : LosesHeat cfg s tick
  · exact .inr (hok hlost)
  simp only [heats, Bool.or_eq_true, Bool.and_eq_true, decide_eq_true_eq] at hheat
  rw [looksAt] at hlooks
  rw [LosesHeat] at hlost
  left
  rw [afterTick, onSecondTick]
  split
  · rename_i hlaser
    rw [if_pos hlaser, decide_eq_true_eq] at hlooks
    rw [if_pos hlaser] at hlost
    rw [if_neg hlooks]
    by_contra hon
    exact hlost ⟨hlooks, hheat.resolve_right fun h => hlooks h.2, hon⟩
  · rename_i hlaser
    rw [if_neg hlaser, Bool.not_eq_true', Bool.not_eq_false] at hlooks
    rw [if_neg hlaser] at hlost
    exact absurd ⟨hlooks, .inl (hheat.resolve_right fun h => hlaser h.1)⟩ hlost

/-- A fan that is on for heat goes off only when it has cooled. -/
theorem cooling_off {k : ℕ} (h : Cooling cfg s k) (hoff : switchesOff cfg s tick) :
    cfg.cooldownDelay < k := by
  have hquiet := quiet_of_switchesOff hoff
  rw [switchesOff, onSecondTick_quiet hquiet] at hoff
  cases h with
  | on h => obtain h | h := h <;> simp [coolTick, h] at hoff
  | cooldown h hlt =>
    simp only [coolTick, h] at hoff
    split at hoff
    · omega
    · simp at hoff
  | cooled h => exact h

theorem cooling_run {k : ℕ} {ticks later : List SecondTick}
    (h : Cooling cfg s k ∨ Regained cfg (ticks ++ later)) (hok : Undisturbed cfg s (ticks ++ later)) :
    Cooling cfg (ticks.foldl (afterTick cfg) s) (k + ticks.countP (quiet cfg)) ∨
      Regained cfg later := by
  induction ticks generalizing s k with
  | nil => exact h
  | cons tick ticks ih =>
    have hrest := ih (cooling_step h hok.1) hok.2
    rw [Nat.add_assoc, Nat.add_comm (ite ..), ← List.countP_cons] at hrest
    exact hrest

/-- The fan goes off in one of these ticks. -/
def GoesOff (cfg : TemperatureSwitchConfig) : TemperatureSwitch → List SecondTick → Prop
  | _, [] => False
  | s, tick :: ticks => switchesOff cfg s tick ∨ GoesOff cfg (afterTick cfg s tick) ticks

theorem goesOff_of_cooldown {ticks : List SecondTick} (hmode : s.fanMode = .cooldown)
    (hquiet : ∀ tick ∈ ticks, quiet cfg tick)
    (hlong : cfg.cooldownDelay < s.cooldownElapsed + ticks.length)
    (hle : s.cooldownElapsed ≤ cfg.cooldownDelay) : GoesOff cfg s ticks := by
  induction ticks generalizing s with
  | nil =>
    rw [List.length_nil] at hlong
    omega
  | cons tick ticks ih =>
    have hstep := onSecondTick_quiet (s := s) (hquiet tick (List.mem_cons_self ..))
    simp only [coolTick, hmode] at hstep
    split at hstep
    · exact .inl (by simp [switchesOff, hstep])
    · right
      rw [List.length_cons] at hlong
      rw [afterTick, hstep]
      refine ih rfl (fun t ht => hquiet t (List.mem_cons_of_mem _ ht)) ?_ ?_
      · change cfg.cooldownDelay < s.cooldownElapsed + 1 + ticks.length
        omega
      · change s.cooldownElapsed + 1 ≤ cfg.cooldownDelay
        omega

theorem goesOff_of_on {ticks : List SecondTick}
    (hon : onForHeat s) (hquiet : ∀ tick ∈ ticks, quiet cfg tick)
    (hlong : cfg.cooldownDelay + 1 < ticks.length) : GoesOff cfg s ticks := by
  have hmode : s.fanMode = .laser ∨ s.fanMode = .thermal := by simpa [onForHeat] using hon
  cases ticks with
  | nil => simp at hlong
  | cons tick ticks =>
    have hstep : afterTick cfg s tick = { fanMode := .cooldown, cooldownElapsed := 0 } := by
      rw [afterTick, onSecondTick_quiet (hquiet tick (List.mem_cons_self ..))]
      obtain h | h := hmode <;> simp only [coolTick, h]
    right
    rw [hstep]
    rw [List.length_cons] at hlong
    exact goesOff_of_cooldown rfl (fun t ht => hquiet t (List.mem_cons_of_mem _ ht))
      (by simpa using Nat.lt_of_succ_lt_succ hlong) (Nat.zero_le _)

/-- After a tick with heat, where no heat stays lost, the fan goes off only after more than
`cooldown_delay` quiet ticks, and with only quiet ticks it does. -/
theorem fan_keeps_cooling {later : List SecondTick} (hheat : heats cfg tick)
    (hok : Undisturbed cfg s (tick :: later)) :
    (∀ between last rest, later = between ++ last :: rest →
        switchesOff cfg (between.foldl (afterTick cfg) (afterTick cfg s tick)) last →
        cfg.cooldownDelay < between.countP (quiet cfg)) ∧
      ((∀ t ∈ later, quiet cfg t) → cfg.cooldownDelay + 1 < later.length →
        GoesOff cfg (afterTick cfg s tick) later) := by
  have hstart := cooling_heats hheat hok.1
  refine ⟨fun between last rest hlater hoff => ?_, fun hquiet hlong => ?_⟩
  · have hbetween := hok.2
    rw [hlater] at hstart hbetween
    obtain ⟨hlooks, hcold⟩ := quiet_iff.mp (quiet_of_switchesOff hoff)
    have hrun := cooling_run (hstart.imp_left (cooling_of_onForHeat (k := 0))) hbetween
    rw [regained_cons_of_looksAt hlooks, hcold, or_iff_left Bool.false_ne_true] at hrun
    have hlast := cooling_off hrun hoff
    rwa [Nat.zero_add] at hlast
  · obtain hon | hregained := hstart
    · exact goesOff_of_on hon hquiet hlong
    · cases later with
      | nil => exact absurd hlong (Nat.not_lt_zero _)
      | cons t later =>
        obtain ⟨hlooks, hcold⟩ := quiet_iff.mp (hquiet t (List.mem_cons_self ..))
        rw [regained_cons_of_looksAt hlooks, hcold] at hregained
        exact absurd hregained Bool.false_ne_true

/-- A tick with the sensor at this temperature, and this value set by hand. -/
def fanAt (temperature manualValue : ℚ) : SecondTick where
  controllers := some [{ id := 0, currentTemperature := temperature }]
  manualValue := manualValue

def spindleFan : TemperatureSwitchConfig where
  machineModel := .carvera
  temperatureSource := .highest
  cooldownDelay := 1

theorem kept_without_request {s : TemperatureSwitch} {temperature : ℚ} {later : List SecondTick} :
    LosesHeat spindleFan s (fanAt temperature 0) → Regained spindleFan later := by
  intro hlost
  rw [LosesHeat, if_neg (by simp [fanAt])] at hlost
  exact absurd hlost.1 (by simp [powerRequested, requestedFanPower, fanAt])

/-- A value set by hand takes the fan over for one tick while it is hot, and the fan goes off after
two quiet ticks; it goes off as well with quiet ticks only. -/
theorem fan_keeps_cooling_spindle :
    spindleFan.cooldownDelay < [fanAt 40 50, fanAt 40 0, fanAt 20 0, fanAt 20 0].countP
        (quiet spindleFan) ∧
      GoesOff spindleFan (afterTick spindleFan {} (fanAt 40 0)) (List.replicate 3 (fanAt 20 0)) := by
  have hregained : Regained spindleFan (fanAt 40 0 :: List.replicate 3 (fanAt 20 0)) :=
    (regained_cons_of_looksAt (by decide +kernel)).mpr (by decide +kernel)
  constructor
  · refine (@fan_keeps_cooling spindleFan {} (fanAt 40 0)
      (fanAt 40 50 :: fanAt 40 0 :: List.replicate 3 (fanAt 20 0)) (by decide +kernel) ?_).1
      [fanAt 40 50, fanAt 40 0, fanAt 20 0, fanAt 20 0] (fanAt 20 0) [] rfl (by decide +kernel)
    exact ⟨kept_without_request, fun _ => hregained, kept_without_request, kept_without_request,
      kept_without_request, kept_without_request, trivial⟩
  · refine (@fan_keeps_cooling spindleFan {} (fanAt 40 0) (List.replicate 3 (fanAt 20 0))
      (by decide +kernel) ?_).2 ?_ (by decide +kernel)
    · exact ⟨kept_without_request, kept_without_request, kept_without_request, kept_without_request,
        trivial⟩
    · intro t ht
      rw [List.eq_of_mem_replicate ht]
      decide +kernel

/-- The fan is on for heat, a value set by hand takes it over for one tick, and in the next it goes
off with no quiet tick before. -/
theorem fan_goes_off_after_request :
    heats spindleFan (fanAt 40 0) = true ∧
      switchesOff spindleFan
        ([fanAt 20 50].foldl (afterTick spindleFan) (afterTick spindleFan {} (fanAt 40 0)))
        (fanAt 20 0) = true ∧
      ¬ spindleFan.cooldownDelay < [fanAt 20 50].countP (quiet spindleFan) := by
  decide +kernel

end CarveraFirmware.Tools
