import Mathlib
import CarveraFirmware.Library.Debounce
import CarveraFirmware.Probe.ProbeFlags

/-!
# Where a probing move stops

A probing move is a list of ticks, up to where it ends if nothing stops it. The pin is noticed at its
first debounced tick, and stops the motors only at a later one.
-/

namespace CarveraFirmware.Probe

open Debounce

/-- What `read_probe` reads of the probe pin while the machine moves. -/
def probeReadings (invert : Bool) (ticks : List Sample) : List Bool :=
  (ticks.filter Sample.moving).map fun t => t.pin != invert

/-- What `read_calibrate` reads of the calibrate pin while the Z axis moves. -/
def calibrateReadings (ticks : List Sample) : List Bool :=
  (ticks.filter Sample.zMoving).map Sample.calibratePin

/-- A hit that a command reports was a stop by the timers, and it records the place of that stop. -/
def HitIsStop (result : ZProbe × Bool) (recorded : Position → Position) : Prop :=
  result.2 = true →
    ∃ p, result.1.stoppedAt = some p ∧ result.1.lastProbe = some (recorded p, true)

section Readings

variable {invert : Bool} {ticks : List Sample} {t : Sample}

theorem probeReadings_concat (h : t.moving = true) :
    probeReadings invert (ticks ++ [t]) = probeReadings invert ticks ++ [t.pin != invert] := by
  simp [probeReadings, h]

theorem probeReadings_concat_still (h : t.moving = false) :
    probeReadings invert (ticks ++ [t]) = probeReadings invert ticks := by
  simp [probeReadings, h]

theorem calibrateReadings_concat (h : t.zMoving = true) :
    calibrateReadings (ticks ++ [t]) = calibrateReadings ticks ++ [t.calibratePin] := by
  simp [calibrateReadings, h]

theorem calibrateReadings_concat_still (h : t.zMoving = false) :
    calibrateReadings (ticks ++ [t]) = calibrateReadings ticks := by
  simp [calibrateReadings, h]

end Readings

namespace ZProbe

variable {cfg : ProbeConfig} {s : ZProbe} {ticks : List Sample} {t : Sample}

theorem detectCrash_eq (s : ZProbe) (t : Sample) : ∃ triggered halted pending count,
    s.detectCrash t = { s with
      probeTriggered := triggered, halted := halted, haltPending := pending, probeCrashCount := count } := by
  simp only [detectCrash]
  split_ifs <;> exact ⟨_, _, _, _, rfl⟩

theorem seen_of_running (h : s.stoppedAt = none) (t : Sample) : s.seen t = t := by
  rw [seen, h]

theorem wait_ticks_concat (s : ZProbe) (ticks : List Sample) (t : Sample) :
    s.wait cfg ((ticks ++ [t]).map .tick) = (s.wait cfg (ticks.map .tick)).tick cfg t := by
  simp [wait, Interrupt.apply]

/-! ## One tick of `read_probe` -/

theorem watchProbe_still (h : t.moving = false) : s.watchProbe cfg t = s := by
  simp [watchProbe, h]

theorem watchProbe_idle (h : s.probing = false) : s.watchProbe cfg t = s := by
  simp [watchProbe, h]

theorem watchProbe_off (hprobing : s.probing = true) (hmoving : t.moving = true)
    (hoff : (t.pin != s.invertProbe) = false) : s.watchProbe cfg t = { s with debounce := 0 } := by
  simp [watchProbe, hprobing, hmoving, hoff]

theorem watchProbe_bounce (hprobing : s.probing = true) (hmoving : t.moving = true)
    (hon : (t.pin != s.invertProbe) = true) (hlt : s.debounce < cfg.debounceMs) :
    s.watchProbe cfg t = { s with debounce := s.debounce + 1 } := by
  simp [watchProbe, hprobing, hmoving, hon, hlt]

theorem watchProbe_detect (hprobing : s.probing = true) (hmoving : t.moving = true)
    (hon : (t.pin != s.invertProbe) = true) (hge : ¬ s.debounce < cfg.debounceMs)
    (hnew : s.probeDetected = false) :
    s.watchProbe cfg t = { s with probeDetected := true, probePinPosition := t.position.z } := by
  simp [watchProbe, hprobing, hmoving, hon, hge, hnew]

theorem watchProbe_stop (hprobing : s.probing = true) (hmoving : t.moving = true)
    (hon : (t.pin != s.invertProbe) = true) (hge : ¬ s.debounce < cfg.debounceMs)
    (hdetected : s.probeDetected = true) (hcalibrating : s.calibrating = false) :
    s.watchProbe cfg t = { s.stopMoving t with debounce := 0 } := by
  simp [watchProbe, hprobing, hmoving, hon, hge, hdetected, hcalibrating]

theorem watchProbe_leave (hprobing : s.probing = true) (hmoving : t.moving = true)
    (hon : (t.pin != s.invertProbe) = true) (hge : ¬ s.debounce < cfg.debounceMs)
    (hdetected : s.probeDetected = true) (hcalibrating : s.calibrating = true) :
    s.watchProbe cfg t = s := by
  simp [watchProbe, hprobing, hmoving, hon, hge, hdetected, hcalibrating]

/-! ## A move that watches the probe pin -/

/-- Where a move stands that watches the probe pin alone, after the readings. -/
structure Watching (cfg : ProbeConfig) (invert : Bool) (readings : List Bool) (s : ZProbe) : Prop where
  probing : s.probing = true
  calibrating : s.calibrating = false
  invertProbe : s.invertProbe = invert
  detected : s.probeDetected = decide (0 < hits cfg.debounceMs readings)
  running : s.stoppedAt = none →
    hits cfg.debounceMs readings ≤ 1 ∧ s.debounce = min (trailing readings) cfg.debounceMs
  stopped : s.stoppedAt ≠ none → 2 ≤ hits cfg.debounceMs readings

namespace Watching

variable {invert : Bool} {readings : List Bool}

theorem detectCrash (h : Watching cfg invert readings s) (t : Sample) :
    Watching cfg invert readings (s.detectCrash t) := by
  obtain ⟨_, _, _, _, heq⟩ := detectCrash_eq s t
  rw [heq]
  exact ⟨h.probing, h.calibrating, h.invertProbe, h.detected, h.running, h.stopped⟩

/-- A reading while the machine moves. -/
theorem watchProbe (h : Watching cfg invert readings s) (hrunning : s.stoppedAt = none)
    (hmoving : t.moving = true) :
    Watching cfg invert (readings ++ [t.pin != invert]) (s.watchProbe cfg t) := by
  obtain ⟨hprobing, hcalibrating, rfl, hdetected, hrun, -⟩ := h
  obtain ⟨hone, hdebounce⟩ := hrun hrunning
  cases hon : t.pin != s.invertProbe with
  | false =>
    rw [watchProbe_off hprobing hmoving hon]
    refine ⟨hprobing, hcalibrating, rfl, ?_, fun _ => ⟨?_, ?_⟩, absurd hrunning⟩
    · rw [hits_concat_false]
      exact hdetected
    · rwa [hits_concat_false]
    · rw [trailing_concat_false, Nat.zero_min]
  | true =>
    by_cases hlt : s.debounce < cfg.debounceMs
    · obtain ⟨hhits, hcounter⟩ := counter_concat_of_lt (hdebounce ▸ hlt)
      rw [watchProbe_bounce hprobing hmoving hon hlt]
      refine ⟨hprobing, hcalibrating, rfl, ?_, fun _ => ⟨?_, ?_⟩, absurd hrunning⟩
      · rw [hhits]
        exact hdetected
      · rwa [hhits]
      · rw [hcounter, ← hdebounce]
    · obtain ⟨hhits, hcounter⟩ := counter_concat_of_ge (hdebounce ▸ hlt)
      cases hnew : s.probeDetected with
      | false =>
        have hzero : hits cfg.debounceMs readings = 0 := by
          rw [hnew] at hdetected
          simpa using hdetected.symm
        rw [watchProbe_detect hprobing hmoving hon hlt hnew]
        refine ⟨hprobing, hcalibrating, rfl, ?_, fun _ => ⟨?_, ?_⟩, absurd hrunning⟩
        · simp [hhits]
        · rw [hhits, hzero]
        · rw [hcounter]
          exact hdebounce
      | true =>
        have hpos : 0 < hits cfg.debounceMs readings := by
          rw [hnew] at hdetected
          simpa using hdetected.symm
        rw [watchProbe_stop hprobing hmoving hon hlt hnew hcalibrating]
        refine ⟨hprobing, hcalibrating, rfl, ?_, nofun, fun _ => ?_⟩
        · rw [hhits]
          exact hnew.trans (by simp)
        · rw [hhits]
          omega

/-- Later readings change nothing once the machine has been stopped. -/
theorem later (h : Watching cfg invert readings s) (hstopped : s.stoppedAt ≠ none) (b : Bool) :
    Watching cfg invert (readings ++ [b]) s := by
  have htwo := h.stopped hstopped
  have hmono : hits cfg.debounceMs readings ≤ hits cfg.debounceMs (readings ++ [b]) := hits_le_concat
  refine ⟨h.probing, h.calibrating, h.invertProbe, ?_, fun hnone => absurd hnone hstopped,
    fun _ => htwo.trans hmono⟩
  rw [h.detected, decide_eq_decide]
  omega

theorem tick (h : Watching cfg invert (probeReadings invert ticks) s) (t : Sample) :
    Watching cfg invert (probeReadings invert (ticks ++ [t])) (s.tick cfg t) := by
  have hcrash := h.detectCrash (s.seen t)
  have hcalibrating : (s.readProbe cfg (s.seen t)).calibrating = false :=
    (congrArg (fun f : Bool × Bool × Bool × Bool => f.2.1) (flags_readProbe _)).trans h.calibrating
  have htick : s.tick cfg t = (s.detectCrash (s.seen t)).watchProbe cfg (s.seen t) := by
    rw [ZProbe.tick, readCalibrate, hcalibrating]
    rfl
  have hplace : (s.detectCrash (s.seen t)).stoppedAt = s.stoppedAt := by
    obtain ⟨_, _, _, _, heq⟩ := detectCrash_eq s (s.seen t)
    rw [heq]
  rw [htick]
  -- Before the stop the tick is read as it is; after it the motors stand.
  cases hat : s.stoppedAt with
  | none =>
    rw [hat] at hplace
    rw [seen_of_running hat] at hcrash hplace ⊢
    cases hmoving : t.moving with
    | false =>
      rw [watchProbe_still hmoving, probeReadings_concat_still hmoving]
      exact hcrash
    | true =>
      rw [probeReadings_concat hmoving]
      exact hcrash.watchProbe hplace hmoving
  | some p =>
    have hstill : (s.seen t).moving = false := by
      rw [seen, hat]
      rfl
    rw [watchProbe_still hstill]
    cases hmoving : t.moving with
    | false => rwa [probeReadings_concat_still hmoving]
    | true =>
      rw [probeReadings_concat hmoving]
      exact hcrash.later (by simp [hplace, hat]) _

theorem wait (h : Watching cfg invert [] s) (ticks : List Sample) :
    Watching cfg invert (probeReadings invert ticks) (s.wait cfg (ticks.map .tick)) := by
  induction ticks using List.reverseRecOn with
  | nil => exact h
  | append_singleton ticks t ih =>
    rw [wait_ticks_concat]
    exact ih.tick t

/-- What a command reports that watched the probe pin. -/
theorem hitIsStop_iff (h : Watching cfg invert readings s) {result : ZProbe × Bool}
    {recorded : Position → Position} (hsuccess : result.2 = s.probeDetected)
    (hplace : result.1.stoppedAt = s.stoppedAt)
    (hrecorded : ∀ p, s.stoppedAt = some p → s.probeDetected = true →
      result.1.lastProbe = some (recorded p, true)) :
    HitIsStop result recorded ↔ hits cfg.debounceMs readings ≠ 1 := by
  rw [HitIsStop, hsuccess, hplace]
  constructor
  · intro hstop hone
    obtain ⟨p, hp, -⟩ := hstop (by rw [h.detected, hone]; rfl)
    have htwo := h.stopped (by simp [hp])
    omega
  · intro hne hdetected
    have hpos : 0 < hits cfg.debounceMs readings := by simpa [h.detected] using hdetected
    cases hat : s.stoppedAt with
    | none =>
      have hone := (h.running hat).1
      omega
    | some p => exact ⟨p, rfl, hrecorded p hat hdetected⟩

end Watching

end ZProbe

/-! ## A move that watches the calibrate pin -/

/-- The last of the ticks is one at which the calibrate pin counts as on. -/
def hitAt (n : Nat) (upTo : List Sample) : Bool :=
  upTo.getLast?.any Sample.zMoving && decide (n < trailing (calibrateReadings upTo))

def lastZ (upTo : List Sample) : ℚ := upTo.getLast?.elim 0 fun t => t.position.z

/-- Whether the calibrate pin counts as on at any of the ticks. -/
def calibrateHits (n : Nat) (ticks : List Sample) : Bool := ticks.inits.any (hitAt n)

/-- Where it did so first. -/
def hitZ (n : Nat) (ticks : List Sample) : ℚ := (ticks.inits.find? (hitAt n)).elim 0 lastZ

/-- At the last of the ticks the calibrate pin counts as on, and either the probe pin is not needed, or
it has counted as on too, or the machine has come too far since the first hit. -/
def stopsAt (cfg : ProbeConfig) (watch invert : Bool) (upTo : List Sample) : Bool :=
  hitAt cfg.debounceMs upTo &&
    (!watch || decide (0 < hits cfg.debounceMs (probeReadings invert upTo)) ||
      decide (cfg.probeCalibrationSafetyMargin < |lastZ upTo - hitZ cfg.debounceMs upTo|))

def calibrateStops (cfg : ProbeConfig) (watch invert : Bool) (ticks : List Sample) : Bool :=
  ticks.inits.any (stopsAt cfg watch invert)

section Prefixes

variable {n : Nat} {cfg : ProbeConfig} {watch invert : Bool} {ticks : List Sample} {t : Sample}

theorem inits_concat (ticks : List Sample) (t : Sample) :
    (ticks ++ [t]).inits = ticks.inits ++ [ticks ++ [t]] := by
  simp [List.inits_append]

theorem calibrateHits_concat :
    calibrateHits n (ticks ++ [t]) = (calibrateHits n ticks || hitAt n (ticks ++ [t])) := by
  simp only [calibrateHits, inits_concat, List.any_append, List.any_cons, List.any_nil, Bool.or_false]

theorem calibrateStops_concat :
    calibrateStops cfg watch invert (ticks ++ [t]) =
      (calibrateStops cfg watch invert ticks || stopsAt cfg watch invert (ticks ++ [t])) := by
  simp only [calibrateStops, inits_concat, List.any_append, List.any_cons, List.any_nil, Bool.or_false]

theorem lastZ_concat : lastZ (ticks ++ [t]) = t.position.z := by
  simp [lastZ]

theorem hitZ_concat_of_hits (h : calibrateHits n ticks = true) : hitZ n (ticks ++ [t]) = hitZ n ticks := by
  obtain ⟨upTo, hmem, hhit⟩ := List.any_eq_true.mp h
  have hsome : (ticks.inits.find? (hitAt n)).isSome = true := List.find?_isSome.mpr ⟨upTo, hmem, hhit⟩
  rw [hitZ, inits_concat, List.find?_append, Option.or_of_isSome hsome]
  rfl

theorem hitZ_concat_of_first (h : calibrateHits n ticks = false) (hhit : hitAt n (ticks ++ [t]) = true) :
    hitZ n (ticks ++ [t]) = t.position.z := by
  have hnone : ticks.inits.find? (hitAt n) = none := by
    rw [List.find?_eq_none]
    intro upTo hmem hhit
    have hany : calibrateHits n ticks = true := List.any_eq_true.mpr ⟨upTo, hmem, hhit⟩
    rw [h] at hany
    exact absurd hany nofun
  rw [hitZ, inits_concat, List.find?_append, hnone]
  simp [hhit, lastZ]

theorem hitAt_concat_still (h : t.zMoving = false) : hitAt n (ticks ++ [t]) = false := by
  simp [hitAt, h]

theorem hitAt_concat (n : Nat) (ticks : List Sample) (h : t.zMoving = true) :
    hitAt n (ticks ++ [t]) = decide (n < trailing (calibrateReadings ticks ++ [t.calibratePin])) := by
  simp [hitAt, h, calibrateReadings_concat h]

theorem stopsAt_of_not_hitAt (h : hitAt cfg.debounceMs ticks = false) :
    stopsAt cfg watch invert ticks = false := by
  simp [stopsAt, h]

end Prefixes

namespace ZProbe

variable {cfg : ProbeConfig} {s : ZProbe} {ticks : List Sample} {t : Sample}

/-! ## One tick of `read_calibrate` -/

theorem readCalibrate_still (h : t.zMoving = false) : s.readCalibrate cfg t = s := by
  simp [readCalibrate, h]

theorem readCalibrate_off (hcalibrating : s.calibrating = true) (hmoving : t.zMoving = true)
    (hoff : t.calibratePin = false) : s.readCalibrate cfg t = { s with caliDebounce := 0 } := by
  simp [readCalibrate, hcalibrating, hmoving, hoff]

theorem readCalibrate_bounce (hcalibrating : s.calibrating = true) (hmoving : t.zMoving = true)
    (hon : t.calibratePin = true) (hlt : s.caliDebounce < cfg.debounceMs) :
    s.readCalibrate cfg t = { s with caliDebounce := s.caliDebounce + 1 } := by
  simp [readCalibrate, hcalibrating, hmoving, hon, hlt]

theorem readCalibrate_hit (hcalibrating : s.calibrating = true) (hmoving : t.zMoving = true)
    (hon : t.calibratePin = true) (hge : ¬ s.caliDebounce < cfg.debounceMs) :
    s.readCalibrate cfg t = s.calibrateHit cfg t := by
  simp [readCalibrate, hcalibrating, hmoving, hon, hge]

/-- A move of `calibrate_Z` that still runs, and what `read_probe` has made of the readings where
`watch` is set. -/
structure Armed (cfg : ProbeConfig) (watch invert : Bool) (readings : List Bool) (s : ZProbe) : Prop where
  probing : s.probing = watch
  calibrating : s.calibrating = true
  invertProbe : s.invertProbe = invert
  stoppedAt : s.stoppedAt = none
  debounce : watch = true → s.debounce = min (trailing readings) cfg.debounceMs
  probeDetected : s.probeDetected = (watch && decide (0 < hits cfg.debounceMs readings))

/-- What `read_calibrate` has made of the ticks of a move that still runs. -/
structure Tracked (cfg : ProbeConfig) (watch invert : Bool) (ticks : List Sample) (s : ZProbe) : Prop where
  detected : s.calibrateDetected = calibrateHits cfg.debounceMs ticks
  pinPosition : calibrateHits cfg.debounceMs ticks = true →
    s.calibratePinPosition = hitZ cfg.debounceMs ticks
  caliDebounce : s.caliDebounce = min (trailing (calibrateReadings ticks)) cfg.debounceMs
  marginExceeded : s.safetyMarginExceeded = false
  unstopped : calibrateStops cfg watch invert ticks = false

/-- Where a move of `calibrate_Z` stands after the ticks. -/
def Calibrating (cfg : ProbeConfig) (watch invert : Bool) (ticks : List Sample) (s : ZProbe) : Prop :=
  (Armed cfg watch invert (probeReadings invert ticks) s ∧ Tracked cfg watch invert ticks s) ∨
    (s.stoppedAt ≠ none ∧ calibrateStops cfg watch invert ticks = true)

section Calibrate

variable {watch invert : Bool} {readings : List Bool}

theorem Armed.detectCrash (h : Armed cfg watch invert readings s) (t : Sample) :
    Armed cfg watch invert readings (s.detectCrash t) := by
  obtain ⟨_, _, _, _, heq⟩ := detectCrash_eq s t
  rw [heq]
  exact ⟨h.probing, h.calibrating, h.invertProbe, h.stoppedAt, h.debounce, h.probeDetected⟩

theorem Armed.watchProbe (h : Armed cfg watch invert readings s) (hmoving : t.moving = true) :
    Armed cfg watch invert (readings ++ [t.pin != invert]) (s.watchProbe cfg t) := by
  obtain ⟨rfl, hcalibrating, rfl, hrunning, hdebounce, hdetected⟩ := h
  cases hprobing : s.probing with
  | false =>
    rw [watchProbe_idle hprobing]
    exact ⟨hprobing, hcalibrating, rfl, hrunning, nofun, by simpa [hprobing] using hdetected⟩
  | true =>
    have hdebounce := hdebounce hprobing
    rw [hprobing, Bool.true_and] at hdetected
    cases hon : t.pin != s.invertProbe with
    | false =>
      rw [watchProbe_off hprobing hmoving hon]
      refine ⟨hprobing, hcalibrating, rfl, hrunning, fun _ => ?_, ?_⟩
      · rw [trailing_concat_false, Nat.zero_min]
      · rwa [hits_concat_false, Bool.true_and]
    | true =>
      by_cases hlt : s.debounce < cfg.debounceMs
      · obtain ⟨hhits, hcounter⟩ := counter_concat_of_lt (hdebounce ▸ hlt)
        rw [watchProbe_bounce hprobing hmoving hon hlt]
        refine ⟨hprobing, hcalibrating, rfl, hrunning, fun _ => ?_, ?_⟩
        · rw [hcounter, ← hdebounce]
        · rwa [hhits, Bool.true_and]
      · obtain ⟨hhits, hcounter⟩ := counter_concat_of_ge (hdebounce ▸ hlt)
        cases hnew : s.probeDetected with
        | false =>
          rw [watchProbe_detect hprobing hmoving hon hlt hnew]
          exact ⟨hprobing, hcalibrating, rfl, hrunning, fun _ => hdebounce.trans hcounter.symm,
            by simp [hhits]⟩
        | true =>
          rw [watchProbe_leave hprobing hmoving hon hlt hnew hcalibrating]
          exact ⟨hprobing, hcalibrating, rfl, hrunning, fun _ => hdebounce.trans hcounter.symm,
            by simp [hhits, hnew]⟩

/-- `read_probe` while the move runs. -/
theorem Armed.readProbe (h : Armed cfg watch invert (probeReadings invert ticks) s) (t : Sample) :
    Armed cfg watch invert (probeReadings invert (ticks ++ [t])) (s.readProbe cfg t) := by
  have hcrash := h.detectCrash t
  cases hmoving : t.moving with
  | false =>
    rw [ZProbe.readProbe, watchProbe_still hmoving, probeReadings_concat_still hmoving]
    exact hcrash
  | true =>
    rw [probeReadings_concat hmoving]
    exact hcrash.watchProbe hmoving

theorem Tracked.readProbe (h : Tracked cfg watch invert ticks s) (t : Sample) :
    Tracked cfg watch invert ticks (s.readProbe cfg t) := by
  obtain ⟨_, _, _, _, heq⟩ := detectCrash_eq s t
  rw [ZProbe.readProbe, heq]
  simp only [ZProbe.watchProbe]
  split_ifs <;>
    exact ⟨h.detected, h.pinPosition, h.caliDebounce, h.marginExceeded, h.unstopped⟩

/-- A tick at which the calibrate pin does not count as on. -/
theorem Tracked.miss (h : Tracked cfg watch invert ticks s)
    (hmiss : hitAt cfg.debounceMs (ticks ++ [t]) = false) {n : Nat}
    (hn : n = min (trailing (calibrateReadings (ticks ++ [t]))) cfg.debounceMs) :
    Tracked cfg watch invert (ticks ++ [t]) { s with caliDebounce := n } := by
  have hhits : calibrateHits cfg.debounceMs (ticks ++ [t]) = calibrateHits cfg.debounceMs ticks := by
    rw [calibrateHits_concat, hmiss, Bool.or_false]
  refine ⟨h.detected.trans hhits.symm, fun hany => ?_, hn, h.marginExceeded, ?_⟩
  · rw [hhits] at hany
    exact (h.pinPosition hany).trans (hitZ_concat_of_hits hany).symm
  · rw [calibrateStops_concat, h.unstopped, stopsAt_of_not_hitAt hmiss]
    rfl

/-- What the first lines of `calibrateHit` leave, at the first hit and later. -/
theorem Tracked.record (h : Tracked cfg watch invert ticks s)
    (hhit : hitAt cfg.debounceMs (ticks ++ [t]) = true) :
    (if !s.calibrateDetected then
      { s with calibrateDetected := true, calibratePinPosition := t.position.z } else s) =
    { s with
      calibrateDetected := true, calibratePinPosition := hitZ cfg.debounceMs (ticks ++ [t]) } := by
  have hdetected := h.detected
  cases hfirst : calibrateHits cfg.debounceMs ticks with
  | false =>
    rw [hfirst] at hdetected
    rw [hitZ_concat_of_first hfirst hhit, hdetected]
    rfl
  | true =>
    rw [hfirst] at hdetected
    have hpin := h.pinPosition hfirst
    rw [hitZ_concat_of_hits hfirst, ← hpin, if_neg (by simp [hdetected])]
    cases s
    simp_all

/-- A hit: the move is stopped, or goes on because the probe pin has not been hit. -/
theorem Armed.calibrateHit (harmed : Armed cfg watch invert (probeReadings invert (ticks ++ [t])) s)
    (h : Tracked cfg watch invert ticks s) (hhit : hitAt cfg.debounceMs (ticks ++ [t]) = true)
    (hcount : s.caliDebounce = min (trailing (calibrateReadings (ticks ++ [t]))) cfg.debounceMs) :
    Calibrating cfg watch invert (ticks ++ [t]) (s.calibrateHit cfg t) := by
  obtain ⟨hprobing, hcalibrating, hinvert, hrunning, hdebounce, hdetected⟩ := harmed
  simp only [ZProbe.calibrateHit]
  rw [h.record hhit]
  dsimp only
  -- Without the probe to wait for, or with the probe on as well, the move stops.
  by_cases hstop : (!s.probing || s.probeDetected) = true
  · rw [if_pos hstop]
    refine .inr ⟨Option.some_ne_none _, ?_⟩
    rw [calibrateStops_concat, stopsAt, hhit]
    rw [hprobing, hdetected] at hstop
    cases watch <;> simp_all
  rw [if_neg hstop]
  simp only [Bool.or_eq_true, Bool.not_eq_true', not_or, Bool.not_eq_false, Bool.not_eq_true] at hstop
  obtain ⟨hset, hnot⟩ := hstop
  rw [hprobing] at hset
  rw [hdetected, hset, Bool.true_and] at hnot
  -- it goes on for the probe, up to the safety margin past the hit
  by_cases hfar : |t.position.z - hitZ cfg.debounceMs (ticks ++ [t])| > cfg.probeCalibrationSafetyMargin
  · rw [if_pos hfar]
    refine .inr ⟨Option.some_ne_none _, ?_⟩
    rw [calibrateStops_concat, stopsAt, hhit, lastZ_concat, decide_eq_true hfar]
    simp
  · rw [if_neg hfar]
    refine .inl ⟨⟨hprobing, hcalibrating, hinvert, hrunning, hdebounce, hdetected⟩,
      ⟨?_, fun _ => rfl, hcount, h.marginExceeded, ?_⟩⟩
    · rw [calibrateHits_concat, hhit, Bool.or_true]
    · rw [calibrateStops_concat, h.unstopped, stopsAt, lastZ_concat, hset, hnot, decide_eq_false hfar]
      simp

/-- `read_calibrate` while the move runs. -/
theorem Armed.readCalibrate (harmed : Armed cfg watch invert (probeReadings invert (ticks ++ [t])) s)
    (h : Tracked cfg watch invert ticks s) :
    Calibrating cfg watch invert (ticks ++ [t]) (s.readCalibrate cfg t) := by
  obtain ⟨hprobing, hcalibrating, hinvert, hrunning, hdebounce, hdetected⟩ := harmed
  -- The pin is read while Z moves only, and a hit is recorded when the count is full.
  cases hmoving : t.zMoving with
  | false =>
    rw [readCalibrate_still hmoving]
    refine .inl ⟨⟨hprobing, hcalibrating, hinvert, hrunning, hdebounce, hdetected⟩, ?_⟩
    have hsame := h.caliDebounce
    rw [← calibrateReadings_concat_still hmoving] at hsame
    exact h.miss (hitAt_concat_still hmoving) hsame
  | true =>
    have hat := hitAt_concat cfg.debounceMs ticks hmoving
    cases hon : t.calibratePin with
    | false =>
      rw [readCalibrate_off hcalibrating hmoving hon]
      rw [hon, trailing_concat_false] at hat
      refine .inl ⟨⟨hprobing, hcalibrating, hinvert, hrunning, hdebounce, hdetected⟩,
        h.miss (by simpa using hat) ?_⟩
      rw [calibrateReadings_concat hmoving, hon, trailing_concat_false, Nat.zero_min]
    | true =>
      rw [hon, trailing_concat_true] at hat
      have hcount := h.caliDebounce
      by_cases hlt : s.caliDebounce < cfg.debounceMs
      · rw [readCalibrate_bounce hcalibrating hmoving hon hlt]
        obtain ⟨-, hcounter⟩ := counter_concat_of_lt (hcount ▸ hlt)
        refine .inl ⟨⟨hprobing, hcalibrating, hinvert, hrunning, hdebounce, hdetected⟩,
          h.miss (hat.trans (by simp; omega)) ?_⟩
        rw [calibrateReadings_concat hmoving, hon, hcounter, ← hcount]
      · rw [readCalibrate_hit hcalibrating hmoving hon hlt]
        obtain ⟨-, hcounter⟩ := counter_concat_of_ge (hcount ▸ hlt)
        have hhit : hitAt cfg.debounceMs (ticks ++ [t]) = true := hat.trans (by simp; omega)
        refine Armed.calibrateHit ⟨hprobing, hcalibrating, hinvert, hrunning, hdebounce, hdetected⟩ h hhit ?_
        rw [calibrateReadings_concat hmoving, hon, hcounter, hcount]

theorem Calibrating.tick (h : Calibrating cfg watch invert ticks s) (t : Sample) :
    Calibrating cfg watch invert (ticks ++ [t]) (s.tick cfg t) := by
  obtain ⟨harmed, htracked⟩ | ⟨hstopped, hstops⟩ := h
  · have hprobe := harmed.readProbe t
    have htick : s.tick cfg t = (s.readProbe cfg t).readCalibrate cfg t := by
      rw [ZProbe.tick, seen_of_running harmed.stoppedAt, seen_of_running hprobe.stoppedAt]
    rw [htick]
    exact hprobe.readCalibrate (htracked.readProbe t)
  · refine .inr ⟨?_, by rw [calibrateStops_concat, hstops, Bool.true_or]⟩
    obtain ⟨p, hp⟩ := Option.ne_none_iff_exists'.mp hstopped
    have hstill : ∀ e : ZProbe, e.stoppedAt = some p → (e.seen t).moving = false ∧ (e.seen t).zMoving = false := by
      intro e he
      rw [seen, he]
      exact ⟨rfl, rfl⟩
    have hprobe : (s.readProbe cfg (s.seen t)).stoppedAt = some p := by
      obtain ⟨_, _, _, _, heq⟩ := detectCrash_eq s (s.seen t)
      rw [ZProbe.readProbe, watchProbe_still (hstill s hp).1, heq]
      exact hp
    rw [ZProbe.tick, readCalibrate_still (hstill _ hprobe).2, hprobe]
    exact Option.some_ne_none p

theorem Calibrating.wait (h : Calibrating cfg watch invert [] s) (ticks : List Sample) :
    Calibrating cfg watch invert ticks (s.wait cfg (ticks.map .tick)) := by
  induction ticks using List.reverseRecOn with
  | nil => exact h
  | append_singleton ticks t ih =>
    rw [wait_ticks_concat]
    exact ih.tick t

end Calibrate

/-! ## What the commands report -/

theorem haltedAfter_ticks (halted : Bool) (ticks : List Sample) :
    haltedAfter halted (ticks.map .tick) = halted := by
  induction ticks with
  | nil => rfl
  | cons t ticks ih => exact ih

theorem position_moveAndWait (cfg : ProbeConfig) (s : ZProbe) (m : ProbeMove) :
    (s.moveAndWait cfg m).position = (s.moveAndWait cfg m).stoppedAt.getD m.target := rfl

/-- A move of `run_probe` or `probe_XYZ`. -/
theorem watching_moveAndWait (cfg : ProbeConfig) (s : ZProbe) {m : ProbeMove}
    (hduring : m.during = ticks.map .tick) :
    Watching cfg s.invertProbe (probeReadings s.invertProbe ticks)
      (((s.startProbing.setZprobing true).setZprobing false).moveAndWait cfg m) := by
  have hstart : Watching cfg s.invertProbe []
      { (s.startProbing.setZprobing true).setZprobing false with stoppedAt := none } := by
    refine ⟨rfl, rfl, rfl, ?_, fun _ => ⟨?_, ?_⟩, absurd rfl⟩
    · rw [hits_nil]
      rfl
    · rw [hits_nil]
      exact Nat.zero_le _
    · rw [trailing_nil, Nat.zero_min]
      rfl
  have hend := hstart.wait ticks
  rw [moveAndWait, hduring]
  exact ⟨hend.probing, hend.calibrating, hend.invertProbe, hend.detected, hend.running, hend.stopped⟩

/-- A move of `calibrate_Z`. -/
theorem calibrating_moveAndWait (cfg : ProbeConfig) (s : ZProbe) (probeTool : Bool) {m : ProbeMove}
    (hduring : m.during = ticks.map .tick) :
    Calibrating cfg (cfg.requireProbeTriggerForCalibration && probeTool) s.invertProbe ticks
      ((((s.startCalibrating cfg probeTool).setZprobing true).setZprobing false).moveAndWait cfg m) := by
  have hstart : Calibrating cfg (cfg.requireProbeTriggerForCalibration && probeTool) s.invertProbe []
      { ((s.startCalibrating cfg probeTool).setZprobing true).setZprobing false with stoppedAt := none } := by
    refine .inl ?_
    simp only [startCalibrating]
    split
    · rename_i hwatch
      rw [hwatch]
      exact ⟨⟨rfl, rfl, rfl, rfl, fun _ => (Nat.zero_min _).symm, by simp [probeReadings]; rfl⟩,
        ⟨by simp [calibrateHits, hitAt]; rfl, by simp [calibrateHits, hitAt],
          (Nat.zero_min _).symm, rfl, by simp [calibrateStops, stopsAt, hitAt]⟩⟩
    · rename_i hwatch
      rw [Bool.not_eq_true] at hwatch
      rw [hwatch]
      exact ⟨⟨rfl, rfl, rfl, rfl, fun h => absurd h Bool.false_ne_true, rfl⟩,
        ⟨by simp [calibrateHits, hitAt]; rfl, by simp [calibrateHits, hitAt],
          (Nat.zero_min _).symm, rfl, by simp [calibrateStops, stopsAt, hitAt]⟩⟩
  have hend := hstart.wait ticks
  rw [moveAndWait, hduring]
  obtain ⟨harmed, htracked⟩ | hstopped := hend
  · exact .inl ⟨⟨harmed.probing, harmed.calibrating, harmed.invertProbe, harmed.stoppedAt, harmed.debounce,
      harmed.probeDetected⟩, ⟨htracked.detected, htracked.pinPosition, htracked.caliDebounce,
      htracked.marginExceeded, htracked.unstopped⟩⟩
  · exact .inr hstopped

/-- A move that `delta_move` queues and no halt comes into, as the list of its ticks. -/
structure Clean (cfg : ProbeConfig) (s : ZProbe) (m : ProbeMove) (ticks : List Sample) : Prop where
  triggered : m.triggered = false
  halted : (s.wait cfg m.before).halted = false
  queues : m.queues = true
  during : m.during = ticks.map .tick

variable {m : ProbeMove}

theorem invertProbe_wait (interrupts : List Interrupt) :
    (s.wait cfg interrupts).invertProbe = s.invertProbe :=
  congrArg (fun f : Bool × Bool × Bool × Bool => f.2.2.1) (flags_wait interrupts)

theorem hitIsStop_runProbe (h : Clean cfg s m ticks) :
    HitIsStop (s.runProbe cfg m) (fun p => ⟨0, 0, (s.wait cfg m.before).position.z - p.z⟩) ↔
      hits cfg.debounceMs (probeReadings s.invertProbe ticks) ≠ 1 := by
  have hwatching := watching_moveAndWait cfg (s.wait cfg m.before) h.during
  rw [invertProbe_wait] at hwatching
  have hqueued : ((s.wait cfg m.before).startProbing.setZprobing true).queued m = true := by
    simp [queued, startProbing, setZprobing, resetProbeTracking, h.halted, h.queues]
  have hhalted : ((((s.wait cfg m.before).startProbing.setZprobing true).setZprobing false).moveAndWait
      cfg m).halted = false := by
    rw [halted_moveAndWait rfl, h.during, haltedAfter_ticks]
    exact h.halted
  have hplace := position_moveAndWait cfg
    (((s.wait cfg m.before).startProbing.setZprobing true).setZprobing false) m
  simp only [runProbe]
  rw [if_neg (by simp [h.triggered]), if_pos hqueued]
  -- only what is known of the machine at the end of the move is needed from here on
  generalize (((s.wait cfg m.before).startProbing.setZprobing true).setZprobing false).moveAndWait
    cfg m = e at hwatching hhalted hplace ⊢
  rw [runProbeResult, if_neg (by simp [hhalted])]
  refine hwatching.hitIsStop_iff rfl rfl fun p hp hdetected => ?_
  rw [hp] at hplace
  simp only [hplace, hdetected, Option.getD_some]

theorem hitIsStop_probeXYZ (h : Clean cfg s m ticks) (subcode : Nat) :
    HitIsStop (s.probeXYZ cfg false subcode m) id ↔
      hits cfg.debounceMs (probeReadings s.invertProbe ticks) ≠ 1 := by
  have hwatching := watching_moveAndWait cfg (s.wait cfg m.before) h.during
  rw [invertProbe_wait] at hwatching
  have hqueued : ((s.wait cfg m.before).startProbing.setZprobing true).queued m = true := by
    simp [queued, startProbing, setZprobing, resetProbeTracking, h.halted, h.queues]
  have hplace := position_moveAndWait cfg
    (((s.wait cfg m.before).startProbing.setZprobing true).setZprobing false) m
  simp only [probeXYZ]
  rw [if_neg Bool.false_ne_true, if_neg (by simp [h.triggered]), if_neg (by simp [hqueued])]
  generalize (((s.wait cfg m.before).startProbing.setZprobing true).setZprobing false).moveAndWait
    cfg m = e at hwatching hplace ⊢
  simp only [probeXYZResult]
  split
  · rename_i hmissed
    have hnot : e.probeDetected = false := by
      simp only [Bool.and_eq_true, Bool.not_eq_true'] at hmissed
      exact hmissed.1
    refine hwatching.hitIsStop_iff hnot.symm rfl fun p hp hdetected => ?_
    rw [hnot] at hdetected
    exact absurd hdetected Bool.false_ne_true
  · refine hwatching.hitIsStop_iff rfl rfl fun p hp hdetected => ?_
    rw [hp] at hplace
    simp only [hplace, hdetected, Option.getD_some, id_eq]

theorem hitIsStop_calibrateZ (h : Clean cfg s m ticks) (probeTool : Bool) :
    HitIsStop (s.calibrateZ cfg false probeTool m) id ↔
      calibrateHits cfg.debounceMs ticks = false ∨
        calibrateStops cfg (cfg.requireProbeTriggerForCalibration && probeTool) s.invertProbe ticks = true := by
  have hcalibrating := calibrating_moveAndWait cfg (s.wait cfg m.before) probeTool h.during
  rw [invertProbe_wait] at hcalibrating
  have hqueued : (((s.wait cfg m.before).startCalibrating cfg probeTool).setZprobing true).queued m = true := by
    simp only [startCalibrating]
    split <;> simp [queued, setZprobing, resetProbeTracking, h.halted, h.queues]
  have hplace := position_moveAndWait cfg
    ((((s.wait cfg m.before).startCalibrating cfg probeTool).setZprobing true).setZprobing false) m
  simp only [calibrateZ]
  rw [if_neg Bool.false_ne_true, if_neg (by simp [h.triggered]), if_neg (by simp [hqueued])]
  generalize ((((s.wait cfg m.before).startCalibrating cfg probeTool).setZprobing true).setZprobing
    false).moveAndWait cfg m = e at hcalibrating hplace ⊢
  simp only [calibrateZResult]
  -- Either the move ran to its end, and a hit was only seen in passing, or it stopped.
  obtain ⟨harmed, htracked⟩ | ⟨hstopped, hstops⟩ := hcalibrating
  · rw [if_neg (by simp [htracked.marginExceeded]), htracked.unstopped, ← htracked.detected,
      or_iff_left Bool.false_ne_true]
    cases hdetected : e.calibrateDetected with
    | false => exact iff_of_true (fun hsuccess => absurd hsuccess Bool.false_ne_true) rfl
    | true =>
      refine iff_of_false (fun hstop => ?_) Bool.noConfusion
      obtain ⟨p, hp, -⟩ := hstop rfl
      exact absurd (hp.symm.trans harmed.stoppedAt) (Option.some_ne_none p)
  · refine iff_of_true ?_ (.inr hstops)
    obtain ⟨p, hp⟩ := Option.ne_none_iff_exists'.mp hstopped
    rw [hp] at hplace
    split
    · exact fun hsuccess => absurd hsuccess Bool.false_ne_true
    · cases hdetected : e.calibrateDetected with
      | false => exact fun hsuccess => absurd hsuccess Bool.false_ne_true
      | true => exact fun _ => ⟨p, hp, by simp only [hplace, Option.getD_some, id_eq]; rfl⟩

end ZProbe

/-- A hit that is reported is where the timers stopped the machine exactly where the probe pin, if it
counts as on at a tick of the move, does so at another before the move's end; and with the calibrate
pin, where a tick at which it counts as on stops the machine. -/
theorem hit_is_stop_iff {cfg : ProbeConfig} {s : ZProbe} {m : ProbeMove} {ticks : List Sample}
    (h : ZProbe.Clean cfg s m ticks) :
    (HitIsStop (s.runProbe cfg m) (fun p => ⟨0, 0, (s.wait cfg m.before).position.z - p.z⟩) ↔
      hits cfg.debounceMs (probeReadings s.invertProbe ticks) ≠ 1) ∧
    (∀ subcode, HitIsStop (s.probeXYZ cfg false subcode m) id ↔
      hits cfg.debounceMs (probeReadings s.invertProbe ticks) ≠ 1) ∧
    (∀ probeTool, HitIsStop (s.calibrateZ cfg false probeTool m) id ↔
      calibrateHits cfg.debounceMs ticks = false ∨
        calibrateStops cfg (cfg.requireProbeTriggerForCalibration && probeTool) s.invertProbe ticks = true) :=
  ⟨ZProbe.hitIsStop_runProbe h, ZProbe.hitIsStop_probeXYZ h, ZProbe.hitIsStop_calibrateZ h⟩

/-- The pin is on at the last `n` ticks of a move down. -/
def lateHit (n : Nat) : ProbeMove where
  during := (List.replicate n ({ pin := true, zMoving := true } : Sample)).map .tick
  target := ⟨0, 0, -5⟩

theorem clean_lateHit (n : Nat) :
    ZProbe.Clean {} {} (lateHit n) (List.replicate n { pin := true, zMoving := true }) :=
  ⟨rfl, rfl, rfl, rfl⟩

theorem hit_is_stop_twice : HitIsStop (ZProbe.probeXYZ {} {} false 2 (lateHit 2)) id :=
  ((hit_is_stop_iff (clean_lateHit 2)).2.1 2).mpr (by decide)

/-- A pin that comes on at the last tick of the move is a hit, though nothing stopped the machine. -/
theorem unstopped_hit_reported : ¬ HitIsStop (ZProbe.probeXYZ {} {} false 2 (lateHit 1)) id := by
  intro h
  obtain ⟨p, hp, -⟩ := h (by decide)
  exact absurd hp nofun

end CarveraFirmware.Probe
