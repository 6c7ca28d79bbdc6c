import Mathlib
import CarveraFirmware.Library.Debounce
import CarveraFirmware.Homing.Kept

/-!
# One axis of a Cartesian machine

Each motor is stopped by its own switch only, so what an axis goes through in a wait depends on
nothing but its own switch and motor. An approach counts how long its switch is on, and stops the
motor at the first reading that finds the counter full.
-/

namespace CarveraFirmware.Homing

open Debounce

/-- The counter of a switch after these readings, from `c` on. -/
def counted (debounceMs c : ℕ) (readings : List Bool) : ℕ :=
  readings.foldl
    (fun c on => if on then (if c < debounceMs then (c + 1) % 2 ^ 16 else c) else 0) c

section counted

variable {dms c : ℕ} {readings : List Bool}

theorem counted_concat_true :
    counted dms c (readings ++ [true]) =
      if counted dms c readings < dms then (counted dms c readings + 1) % 2 ^ 16
      else counted dms c readings := by
  rw [counted, List.foldl_append]
  rfl

theorem counted_concat_false : counted dms c (readings ++ [false]) = 0 := by
  rw [counted, List.foldl_append]
  rfl

theorem counted_lt (hc : c < 2 ^ 16) : counted dms c readings < 2 ^ 16 := by
  induction readings using List.reverseRecOn with
  | nil => exact hc
  | append_singleton readings b ih =>
    cases b with
    | false =>
      rw [counted_concat_false]
      exact Nat.two_pow_pos 16
    | true =>
      rw [counted_concat_true]
      split
      · exact Nat.mod_lt _ (Nat.two_pow_pos 16)
      · exact ih

/-- From zero, or once the switch was off, the counter tells how long it has been on. -/
theorem counted_le_trailing (h : c = 0 ∨ false ∈ readings) :
    counted dms c readings ≤ trailing readings := by
  induction readings using List.reverseRecOn with
  | nil =>
    obtain rfl : c = 0 := h.resolve_right List.not_mem_nil
    exact Nat.zero_le _
  | append_singleton readings b ih =>
    cases b with
    | false =>
      rw [counted_concat_false]
      exact Nat.zero_le _
    | true =>
      have hle := ih (h.imp_right fun hmem => by simpa using hmem)
      rw [counted_concat_true, trailing_concat_true]
      have hmod := Nat.mod_le (counted dms c readings + 1) (2 ^ 16)
      split <;> omega

theorem min_trailing_le_counted (hdms : dms < 2 ^ 16) :
    min (trailing readings) dms ≤ counted dms c readings := by
  induction readings using List.reverseRecOn with
  | nil => exact Nat.zero_le _
  | append_singleton readings b ih =>
    cases b with
    | false =>
      rw [trailing_concat_false]
      exact Nat.zero_le _
    | true =>
      rw [counted_concat_true, trailing_concat_true]
      split
      · rename_i hlt
        have hmod : (counted dms c readings + 1) % 2 ^ 16 = counted dms c readings + 1 :=
          Nat.mod_eq_of_lt (by omega)
        omega
      · omega

end counted

/-- What a switch and its motor are at. -/
structure AxisView where
  switch : EndstopInfo
  queued : Bool
  stopped : Bool
  position : ℤ
  readings : List Bool
  stops : List Stop

def Motion.view (motion : Motion) (m : AxisLetter) : AxisView where
  switch := motion.switch m
  queued := motion.queued m
  stopped := motion.stopped m
  position := motion.position m
  readings := motion.readings m
  stops := motion.stops.filter fun stop => stop.axis = m

namespace AxisView

def queue (v : AxisView) : AxisView := { v with queued := true, stopped := false, readings := [] }

def isMoving (m : AxisLetter) (v : AxisView) (t : Tick) : Bool :=
  t.driven m && v.queued && !v.stopped

/-- The switch is read, for one axis. -/
def check (debounceMs : ℕ) (status : Status) (m : AxisLetter) (v : AxisView) (t : Tick) : AxisView :=
  if v.isMoving m t then
    let v := { v with readings := v.readings ++ [t.level m] }
    if t.level m then
      if v.switch.debounce < debounceMs then
        { v with switch := { v.switch with debounce := (v.switch.debounce + 1) % 2 ^ 16 } }
      else
        { v with
          switch := { v.switch with triggered := true }
          stopped := true
          stops := v.stops ++ [⟨m, status, v.readings, v.position⟩] }
    else { v with switch := { v.switch with debounce := 0, nontriggered := true } }
  else v

def makeSteps (m : AxisLetter) (v : AxisView) (t : Tick) : AxisView :=
  { v with position := v.position + if v.isMoving m t then t.steps m else 0 }

/-- A tick of an approach, for one axis. -/
def tick (debounceMs : ℕ) (status : Status) (m : AxisLetter) (v : AxisView) (t : Tick) : AxisView :=
  (v.check debounceMs status m t).makeSteps m t

end AxisView

structure Cartesian (cfg : HomingConfig) : Prop where
  corexy : cfg.isCorexy = false
  delta : cfg.isDelta = false
  rdelta : cfg.isRdelta = false
  scara : cfg.isScara = false
  motors : cfg.motors = id

variable {T M : Type} {cfg : HomingConfig} {world : ℕ → Wait M} {s s' : Machine T M}
variable {m m' : AxisLetter} {motion : Motion} {t : Tick} {a : AxisLetter → Bool}

section view

variable {status : Status}

theorem view_readSwitch_other (hcart : Cartesian cfg) (h : m ≠ m') :
    (readSwitch cfg status t m' motion).view m = motion.view m := by
  have hne : m' ≠ m := h.symm
  have hstops : stopsMotor cfg m' m = false := by simp [stopsMotor, hcart.corexy, h]
  rw [readSwitch]
  dsimp only
  split
  · split
    · simp [Motion.view, h]
    · split
      · simp [Motion.view, setSwitch, h]
      · simp [Motion.view, setSwitch, h, hne, hstops]
  · simp [Motion.view, setSwitch, h]

theorem view_checkEndstop_other (hcart : Cartesian cfg) (h : m ≠ m') :
    (checkEndstop cfg status a t motion m').view m = motion.view m := by
  rw [checkEndstop]
  split
  · rfl
  · split
    · rfl
    · split
      · exact view_readSwitch_other hcart h
      · rfl

theorem view_foldl_other (hcart : Cartesian cfg) {axes : List AxisLetter} (h : m ∉ axes) :
    (axes.foldl (checkEndstop cfg status a t) motion).view m = motion.view m := by
  induction axes generalizing motion with
  | nil => rfl
  | cons m' axes ih =>
    rw [List.mem_cons, not_or] at h
    rw [List.foldl_cons, ih h.2, view_checkEndstop_other hcart h.1]

theorem view_readSwitch_self (hcart : Cartesian cfg) (hstatus : status ≠ .aLimiteCheck)
    (hmoving : isMoving motion t m) :
    (readSwitch cfg status t m motion).view m =
      (motion.view m).check cfg.debounceMs status m t := by
  have hmoving' : (motion.view m).isMoving m t = true := hmoving
  have hstops : stopsMotor cfg m m = true := by simp [stopsMotor, hcart.corexy]
  rw [AxisView.check, if_pos hmoving', readSwitch]
  dsimp only
  split
  · have hdebounce : (motion.view m).switch.debounce = (motion.switch m).debounce := rfl
    rw [hdebounce]
    split
    · simp [Motion.view, setSwitch]
    · simp [Motion.view, setSwitch, hstops]
  · simp [Motion.view, setSwitch]

theorem view_checkEndstop_self (hcart : Cartesian cfg) (hswitch : cfg.hasSwitch m = true)
    (hstatus : status ≠ .aLimiteCheck) :
    (checkEndstop cfg status a t motion m).view m =
      (motion.view m).check cfg.debounceMs status m t := by
  rw [checkEndstop, if_neg (by simp [hswitch]), if_neg (by simp [hcart.corexy])]
  split
  · rename_i hmoving
    exact view_readSwitch_self hcart hstatus hmoving
  · rename_i hmoving
    rw [AxisView.check, if_neg]
    exact hmoving

theorem axes_nodup : cfg.axes.Nodup := by
  have hspec := cfg.rotary_spec
  have hprimary : ([.x, .y, .z] : List AxisLetter).Nodup := by decide
  refine hprimary.append cfg.rotary_nodup ?_
  intro m hm hrotary
  obtain ⟨hx, hy, hz⟩ := hspec m hrotary
  simp [hx, hy, hz] at hm

/-- The interrupt and the steps, for one axis. -/
theorem view_makeSteps (hcart : Cartesian cfg) (hswitch : cfg.hasSwitch m = true)
    (hm : m ∈ cfg.axes)
    (hstatus : status = .movingToEndstopSlow ∨ status = .movingToEndstopFast) :
    (makeSteps t (readEndstops cfg status a t motion)).view m =
      (motion.view m).tick cfg.debounceMs status m t := by
  obtain ⟨before, after, haxes⟩ := List.append_of_mem hm
  have hnodup := haxes ▸ @axes_nodup cfg
  rw [List.nodup_append, List.nodup_cons] at hnodup
  have hbefore : m ∉ before := fun h => hnodup.2.2 m h m (List.mem_cons_self ..) rfl
  have hread : (readEndstops cfg status a t motion).view m =
      (motion.view m).check cfg.debounceMs status m t := by
    have hne : status ≠ .aLimiteCheck := by
      rintro rfl
      simp at hstatus
    rw [readEndstops, if_pos (or_assoc.1 (.inl hstatus)), haxes, List.foldl_append, List.foldl_cons,
      view_foldl_other hcart hnodup.2.1.1, view_checkEndstop_self hcart hswitch hne,
      view_foldl_other hcart hbefore]
  rw [AxisView.tick, ← hread]
  rfl

end view

section approach

variable {status : Status} {v : AxisView} {dms c : ℕ}

/-- How the switch is read at the ticks that drive the motor. -/
def drivenLevels (m : AxisLetter) (ticks : List Tick) : List Bool :=
  (ticks.filter fun t => t.driven m).map fun t => t.level m

/-- What an approach that has read `L` ends with: the motor ran on, or was stopped at the first
reading that found the counter full. -/
inductive Ends (dms c : ℕ) (status : Status) (m : AxisLetter) (before after : AxisView)
    (L : List Bool) : Prop
  | ran (hstopped : after.stopped = false) (hreadings : after.readings = L)
      (hswitch : after.switch.debounce = counted dms c L)
      (htriggered : after.switch.triggered = before.switch.triggered)
      (hstops : after.stops = before.stops)
      (hfree : ∀ P rest, L = P ++ true :: rest → counted dms c P < dms)
  | stopped (P rest : List Bool) (hL : L = P ++ true :: rest) (hstopped : after.stopped = true)
      (hswitch : after.switch.debounce = counted dms c P)
      (htriggered : after.switch.triggered = true)
      (hstops : after.stops = before.stops ++ [⟨m, status, P ++ [true], after.position⟩])
      (hfull : dms ≤ counted dms c P)
      (hfree : ∀ P' rest', P = P' ++ true :: rest' → counted dms c P' < dms)

/-- A tick at which the motor does not move changes nothing. -/
theorem tick_of_rest {t : Tick} (h : v.isMoving m t = false) : v.tick dms status m t = v := by
  rw [AxisView.tick, AxisView.check, if_neg (by simp [h]), AxisView.makeSteps, if_neg (by simp [h]),
    add_zero]

theorem free_concat {L : List Bool} {b : Bool}
    (hfree : ∀ P rest, L = P ++ true :: rest → counted dms c P < dms)
    (hlast : b = true → counted dms c L < dms) (P rest : List Bool)
    (h : L ++ [b] = P ++ true :: rest) : counted dms c P < dms := by
  obtain rfl | ⟨rest, b', rfl⟩ := List.eq_nil_or_concat' rest
  · obtain ⟨rfl, hb⟩ := List.append_inj' h rfl
    exact hlast (by simpa using hb)
  · rw [← List.cons_append, ← List.append_assoc] at h
    exact hfree P rest (List.append_inj' h rfl).1

theorem ends_tick {before : AxisView} {t : Tick} {L : List Bool} (hqueued : v.queued = true)
    (h : Ends dms c status m before v L) :
    Ends dms c status m before (v.tick dms status m t)
      (L ++ if t.driven m then [t.level m] else []) := by
  cases h with
  | ran hstopped hreadings hswitch htriggered hstops hfree =>
    by_cases hdriven : t.driven m
    · have hmoving : v.isMoving m t = true := by
        simp [AxisView.isMoving, hdriven, hqueued, hstopped]
      rw [if_pos hdriven, AxisView.tick, AxisView.check, if_pos hmoving]
      cases hlevel : t.level m with
      | false =>
        refine .ran hstopped (by rw [← hreadings]; rfl) counted_concat_false.symm htriggered hstops
          (free_concat hfree nofun)
      | true =>
        -- the count goes on to the debounce time, and then the motors stop
        by_cases hfull : counted dms c L < dms
        · rw [if_pos rfl]
          dsimp only
          rw [hswitch, if_pos hfull]
          refine .ran hstopped (by rw [← hreadings]; rfl) ?_ htriggered hstops
            (free_concat hfree fun _ => hfull)
          rw [counted_concat_true, if_pos hfull]
          rfl
        · rw [if_pos rfl]
          dsimp only
          rw [hswitch, if_neg hfull]
          refine .stopped L [] rfl rfl rfl rfl ?_ (by omega) hfree
          simp [AxisView.makeSteps, AxisView.isMoving, hstops, hreadings]
    · have hmoving : v.isMoving m t = false := by simp [AxisView.isMoving, hdriven]
      rw [tick_of_rest hmoving, if_neg hdriven, List.append_nil]
      exact .ran hstopped hreadings hswitch htriggered hstops hfree
  | stopped P rest hL hstopped hswitch htriggered hstops hfull hfree =>
    have hmoving : v.isMoving m t = false := by simp [AxisView.isMoving, hstopped]
    rw [tick_of_rest hmoving]
    exact .stopped P _ (by rw [hL, List.append_assoc, List.cons_append]) hstopped hswitch htriggered
      hstops hfull hfree

theorem tick_queued {t : Tick} : (v.tick dms status m t).queued = v.queued := by
  rw [AxisView.tick, AxisView.check]
  split
  · dsimp only
    split
    · split <;> rfl
    · rfl
  · rfl

theorem ends_ticks {before : AxisView} {ticks : List Tick} {L : List Bool}
    (hqueued : v.queued = true) (h : Ends dms c status m before v L) :
    Ends dms c status m before (ticks.foldl (AxisView.tick dms status m) v)
      (L ++ drivenLevels m ticks) := by
  induction ticks generalizing v L with
  | nil => simpa [drivenLevels] using h
  | cons t ticks ih =>
    have hrest := ih (tick_queued.trans hqueued) (ends_tick (t := t) hqueued h)
    have hlevels : drivenLevels m (t :: ticks) =
        (if t.driven m then [t.level m] else []) ++ drivenLevels m ticks := by
      rw [drivenLevels, List.filter_cons]
      split <;> simp [drivenLevels]
    rw [hlevels, ← List.append_assoc]
    exact hrest

end approach

section waits

variable {delta : AxisLetter → ℚ} {rate : ℚ}

theorem onHalt_motion : s.onHalt.motion = s.motion := by
  rw [Machine.onHalt, Machine.popState]
  split
  · split <;> rfl
  · rfl

/-- The axis does not move, so it is not looked at. -/
theorem view_checkEndstop_rest {status : Status} (hcart : Cartesian cfg)
    (h : isMoving motion t m = false) :
    (checkEndstop cfg status a t motion m').view m = motion.view m := by
  by_cases hm : m = m'
  · subst hm
    rw [checkEndstop]
    split
    · rfl
    · split
      · rfl
      · rw [if_neg (by simp [h])]
  · exact view_checkEndstop_other hcart hm

theorem isMoving_of_not_queued (h : (motion.view m).queued = false) : isMoving motion t m = false := by
  have hqueued : motion.queued m = false := h
  simp [isMoving, hqueued]

theorem view_readEndstops_rest {status : Status} (hcart : Cartesian cfg)
    (h : (motion.view m).queued = false) :
    (readEndstops cfg status a t motion).view m = motion.view m := by
  rw [readEndstops]
  split
  · generalize cfg.axes = axes
    induction axes generalizing motion with
    | nil => rfl
    | cons m' axes ih =>
      have hstep : (checkEndstop cfg status a t motion m').view m = motion.view m :=
        view_checkEndstop_rest hcart (isMoving_of_not_queued h)
      rw [List.foldl_cons, ih (hstep ▸ h), hstep]
  · rfl

theorem view_tick_rest (hcart : Cartesian cfg) (h : (s.motion.view m).queued = false) :
    (s.tick cfg t).motion.view m = s.motion.view m := by
  have hhalt : (if t.halt then s.onHalt else s).motion = s.motion := by
    split
    · exact onHalt_motion
    · rfl
  rw [Machine.tick]
  generalize (if t.halt then s.onHalt else s) = s' at hhalt
  rw [← hhalt] at h ⊢
  split
  · rfl
  · have hread : (readEndstops cfg s'.status s'.axisToHome t s'.motion).view m = s'.motion.view m :=
      view_readEndstops_rest hcart h
    have hmoving := isMoving_of_not_queued (t := t) (hread ▸ h)
    rw [← hread]
    simp [Motion.view, makeSteps, hmoving]

theorem view_waitForIdle_rest (hcart : Cartesian cfg) (h : (s.motion.view m).queued = false) :
    (s.waitForIdle cfg world).motion.view m = s.motion.view m := by
  have hticks (ticks : List Tick) : (ticks.foldl (Machine.tick cfg) s).motion.view m =
      s.motion.view m := by
    induction ticks generalizing s with
    | nil => rfl
    | cons t ticks ih =>
      have hstep := view_tick_rest (t := t) hcart h
      rw [List.foldl_cons, ih (hstep ▸ h), hstep]
  have hview := hticks (world s.clock).ticks
  rw [← hview] at h ⊢
  have hqueued : ((world s.clock).ticks.foldl (Machine.tick cfg) s).motion.queued m = false := h
  simp [Motion.view, Machine.waitForIdle, hqueued]

/-- A move that does not drive the axis. -/
theorem view_deltaMove_rest (hcart : Cartesian cfg) (h : delta m = 0) :
    (s.deltaMove cfg world delta rate).motion.view m = s.motion.view m := by
  rw [Machine.deltaMove]
  split
  · rfl
  · split
    · rfl
    · simp [Motion.view, Motion.queue, hcart.motors, h]

/-- A move that drives the axis, unless it is refused. -/
theorem view_deltaMove (hcart : Cartesian cfg) :
    (s.deltaMove cfg world delta rate).motion.view m = s.motion.view m ∨
      (s.deltaMove cfg world delta rate).motion.view m = (s.motion.view m).queue := by
  by_cases hdelta : delta m = 0
  · exact .inl (view_deltaMove_rest hcart hdelta)
  · rw [Machine.deltaMove]
    split
    · exact .inl rfl
    · split
      · exact .inl rfl
      · exact .inr (by simp [Motion.view, Motion.queue, AxisView.queue, hcart.motors, hdelta])

theorem view_tick_approach (hcart : Cartesian cfg) (hswitch : cfg.hasSwitch m = true)
    (hm : m ∈ cfg.axes)
    (hstatus : s.status = .movingToEndstopSlow ∨ s.status = .movingToEndstopFast)
    (hhalt : (s.tick cfg t).halted = false) :
    (s.tick cfg t).motion.view m = (s.motion.view m).tick cfg.debounceMs s.status m t := by
  rw [Machine.tick] at hhalt ⊢
  cases ht : t.halt with
  | true => simp [ht, onHalt_halted] at hhalt
  | false =>
    cases hs : s.halted with
    | true => simp [ht, hs] at hhalt
    | false =>
      simp only [hs, Bool.false_eq_true, if_false]
      exact view_makeSteps hcart hswitch hm hstatus

/-- A wait in an approach that is not halted. -/
theorem view_waitForIdle_approach (hcart : Cartesian cfg) (hswitch : cfg.hasSwitch m = true)
    (hm : m ∈ cfg.axes)
    (hstatus : s.status = .movingToEndstopSlow ∨ s.status = .movingToEndstopFast)
    (hhalt : (s.waitForIdle cfg world).halted = false) :
    (s.waitForIdle cfg world).motion.view m =
      { (world s.clock).ticks.foldl (AxisView.tick cfg.debounceMs s.status m) (s.motion.view m) with
        queued := false } := by
  have hticks (ticks : List Tick) (h : (ticks.foldl (Machine.tick cfg) s).halted = false) :
      (ticks.foldl (Machine.tick cfg) s).motion.view m =
        ticks.foldl (AxisView.tick cfg.debounceMs s.status m) (s.motion.view m) := by
    clear hhalt
    induction ticks generalizing s with
    | nil => rfl
    | cons t ticks ih =>
      have hstill : Still (s.tick cfg t) (ticks.foldl (Machine.tick cfg) (s.tick cfg t)) :=
        still_foldl (fun _ _ => still_tick) ticks _
      have hon : (s.tick cfg t).halted = false := hstill.running h
      have hkept : (s.tick cfg t).status = s.status := still_tick.status
      rw [List.foldl_cons, List.foldl_cons, ih (hkept ▸ hstatus) h, hkept,
        view_tick_approach hcart hswitch hm hstatus hon]
  rw [← hticks _ hhalt]
  rfl

end waits

end CarveraFirmware.Homing
