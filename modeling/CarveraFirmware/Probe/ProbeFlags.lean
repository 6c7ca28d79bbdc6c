import Mathlib
import CarveraFirmware.Library.Reached
import CarveraFirmware.Probe.ZProbe

/-!
# Probing mode

Four flags put the machine into probing mode, and the timers read them during every move. A command
that probes leaves them clear on every way out but two.
-/

namespace CarveraFirmware.Probe

inductive ProbeEvent where
  | interrupt (i : Interrupt)
  | command (c : ProbeCommand)
  | mainLoop (threeAxisProbe : Bool)
  | setTloCalibrating (state : Bool)

namespace ZProbe

variable (cfg : ProbeConfig)

def step (s : ZProbe) : ProbeEvent → ZProbe
  | .interrupt i => i.apply cfg s
  | .command c => s.onGcodeReceived cfg c
  | .mainLoop threeAxisProbe => s.onMainLoop threeAxisProbe
  | .setTloCalibrating state => { s with tloCalibrating := state }

/-- The machine is not in probing mode. -/
def Quiet (s : ZProbe) : Prop :=
  s.probing = false ∧ s.calibrating = false ∧ s.invertProbe = false ∧ s.zprobing = false

/-- Whether the machine is halted after the interrupts of a probing move. -/
def haltedAfter (halted : Bool) : List Interrupt → Bool
  | [] => halted
  | .halt :: interrupts => haltedAfter true interrupts
  | .clearHalt :: interrupts => haltedAfter false interrupts
  | .tick _ :: interrupts => haltedAfter halted interrupts
  | .moveStarts :: interrupts => haltedAfter halted interrupts

/-- The two ways out that keep a flag: `run_probe` finds the machine halted after its move, and
`calibrate_Z` is refused its move where the probe pin was to be watched too. -/
def KeepsProbing (s : ZProbe) : ProbeEvent → Prop
  | .command (.g30 before triggered _ m _) =>
    cfg.pinConnected = true ∧ triggered = false ∧ m.triggered = false ∧
      haltedAfter ((s.wait cfg before).wait cfg m.before).halted m.during = true
  | .command (.g38 subcode nothingGiven probeTool m) =>
    subcode = 6 ∧ cfg.pinConnected = true ∧ nothingGiven = false ∧ m.triggered = false ∧
      cfg.requireProbeTriggerForCalibration = true ∧ probeTool = true ∧
      (s.wait cfg m.before).queued m = false
  | _ => False

variable {cfg} {s : ZProbe}

/-! ## What the timers leave alone -/

/-- The flags of probing mode. -/
def flags (s : ZProbe) : Bool × Bool × Bool × Bool := (s.probing, s.calibrating, s.invertProbe, s.zprobing)

theorem quiet_iff : s.Quiet ↔ s.flags = (false, false, false, false) := by
  simp [Quiet, flags]

theorem flags_detectCrash (t : Sample) : (s.detectCrash t).flags = s.flags := by
  simp only [detectCrash, flags]
  split_ifs <;> rfl

theorem flags_watchProbe (t : Sample) : (s.watchProbe cfg t).flags = s.flags := by
  simp only [watchProbe]
  split_ifs <;> rfl

theorem flags_readProbe (t : Sample) : (s.readProbe cfg t).flags = s.flags :=
  (flags_watchProbe t).trans (flags_detectCrash t)

theorem flags_readCalibrate (t : Sample) : (s.readCalibrate cfg t).flags = s.flags := by
  simp only [readCalibrate, calibrateHit]
  split_ifs <;> rfl

theorem flags_apply (i : Interrupt) : (i.apply cfg s).flags = s.flags := by
  cases i with
  | tick t => exact (flags_readCalibrate _).trans (flags_readProbe _)
  | _ => rfl

theorem flags_wait (interrupts : List Interrupt) : (s.wait cfg interrupts).flags = s.flags := by
  induction interrupts generalizing s with
  | nil => rfl
  | cons i interrupts ih => exact ih.trans (flags_apply i)

/-! ## Halts during a probing move -/

theorem halted_watchProbe (t : Sample) : (s.watchProbe cfg t).halted = s.halted := by
  simp only [watchProbe]
  split_ifs <;> rfl

theorem halted_readCalibrate (t : Sample) : (s.readCalibrate cfg t).halted = s.halted := by
  simp only [readCalibrate, calibrateHit]
  split_ifs <;> rfl

/-- While the machine probes, the timers do not halt it. -/
theorem halted_tick_of_probing (hprobing : s.probing = true) (t : Sample) :
    (s.tick cfg t).halted = s.halted := by
  have hcrash : (s.detectCrash (s.seen t)).halted = s.halted := by
    simp only [detectCrash]
    split_ifs <;> simp_all
  exact (halted_readCalibrate _).trans ((halted_watchProbe _).trans hcrash)

theorem halted_wait_of_probing (hprobing : s.probing = true) (interrupts : List Interrupt) :
    (s.wait cfg interrupts).halted = haltedAfter s.halted interrupts := by
  induction interrupts generalizing s with
  | nil => rfl
  | cons i interrupts ih =>
    have hkept : (i.apply cfg s).probing = true := (congrArg Prod.fst (flags_apply i)).trans hprobing
    have hrun : (s.wait cfg (i :: interrupts)).halted = haltedAfter (i.apply cfg s).halted interrupts :=
      ih hkept
    rw [hrun]
    cases i with
    | tick t => rw [haltedAfter, Interrupt.apply, halted_tick_of_probing hprobing]
    | _ => rfl

/-! ## What a command leaves -/

theorem flags_moveAndWait (m : ProbeMove) : (s.moveAndWait cfg m).flags = s.flags := by
  exact flags_wait (s := { s with stoppedAt := none }) m.during

theorem halted_moveAndWait (hprobing : s.probing = true) (m : ProbeMove) :
    (s.moveAndWait cfg m).halted = haltedAfter s.halted m.during :=
  halted_wait_of_probing (s := { s with stoppedAt := none }) hprobing m.during

/-- `run_probe` leaves probing mode unless it finds the machine halted after its move. -/
theorem quiet_runProbe (h : s.Quiet) (m : ProbeMove) :
    (s.runProbe cfg m).1.Quiet ↔
      ¬ (m.triggered = false ∧ haltedAfter (s.wait cfg m.before).halted m.during = true) := by
  have hbefore : (s.wait cfg m.before).flags = (false, false, false, false) :=
    (flags_wait m.before).trans (quiet_iff.mp h)
  rw [quiet_iff]
  simp only [runProbe]
  by_cases htriggered : m.triggered = true
  · rw [if_pos htriggered]
    simp [hbefore, htriggered]
  rw [if_neg htriggered]
  have htriggered : m.triggered = false := by simpa using htriggered
  -- the machine as its move begins
  generalize hstart : (s.wait cfg m.before).startProbing.setZprobing true = start
  have hflags : (start.setZprobing false).flags = (true, false, false, false) := by
    obtain ⟨-, -, hinvert, -⟩ := quiet_iff.mpr hbefore
    rw [← hstart]
    exact congrArg (fun i => (true, false, i, false)) hinvert
  have hhalted : (start.setZprobing false).halted = (s.wait cfg m.before).halted := by rw [← hstart]; rfl
  have hprobing : (start.setZprobing false).probing = true := congrArg Prod.fst hflags
  -- and as it ends
  have hend : ∀ e : ZProbe, e.flags = (true, false, false, false) →
      e.halted = haltedAfter (s.wait cfg m.before).halted m.during →
      ((e.runProbeResult (s.wait cfg m.before).position.z).1.flags = (false, false, false, false) ↔
        ¬ (m.triggered = false ∧ haltedAfter (s.wait cfg m.before).halted m.during = true)) := by
    intro e heflags hehalted
    rw [runProbeResult, ← hehalted]
    by_cases hh : e.halted = true
    · rw [if_pos hh]
      simp [heflags, hh, htriggered]
    · rw [if_neg hh]
      refine iff_of_true ?_ (fun hboth => hh hboth.2)
      exact congrArg (fun f : Bool × Bool × Bool × Bool => (false, f.2)) heflags
  split
  · exact hend _ ((flags_moveAndWait m).trans hflags)
      ((halted_moveAndWait hprobing m).trans (congrArg (haltedAfter · m.during) hhalted))
  · exact hend _ ((flags_wait m.during).trans hflags)
      ((halted_wait_of_probing hprobing m.during).trans (congrArg (haltedAfter · m.during) hhalted))

/-- `probe_XYZ` leaves probing mode on every way out. -/
theorem flags_probeXYZ (h : s.probing = false ∧ s.calibrating = false ∧ s.zprobing = false)
    (nothingGiven : Bool) (subcode : Nat) (m : ProbeMove) :
    (s.probeXYZ cfg nothingGiven subcode m).1.flags = (false, false, s.invertProbe, false) := by
  have hs : s.flags = (false, false, s.invertProbe, false) := by simp [flags, h]
  have hbefore : (s.wait cfg m.before).flags = (false, false, s.invertProbe, false) :=
    (flags_wait m.before).trans hs
  simp only [probeXYZ]
  split
  · exact hs
  split
  · exact hbefore
  have hinvert : (s.wait cfg m.before).invertProbe = s.invertProbe :=
    congrArg (fun f : Bool × Bool × Bool × Bool => f.2.2.1) hbefore
  split
  · exact congrArg (fun i => (false, false, i, false)) hinvert
  · have hstart : (((s.wait cfg m.before).startProbing.setZprobing true).setZprobing false).flags =
        (true, false, s.invertProbe, false) :=
      congrArg (fun i => (true, false, i, false)) hinvert
    have hend : ((((s.wait cfg m.before).startProbing.setZprobing true).setZprobing false).moveAndWait
        cfg m).flags = (true, false, s.invertProbe, false) := (flags_moveAndWait m).trans hstart
    simp only [probeXYZResult]
    split
    all_goals exact congrArg (fun f : Bool × Bool × Bool × Bool => (false, f.2)) hend

/-- `calibrate_Z` leaves probing mode unless it is refused its move while it watches the probe pin. -/
theorem flags_calibrateZ (h : s.probing = false ∧ s.calibrating = false ∧ s.zprobing = false)
    (noZ probeTool : Bool) (m : ProbeMove) :
    (s.calibrateZ cfg noZ probeTool m).1.flags =
      (!noZ && !m.triggered && cfg.requireProbeTriggerForCalibration && probeTool &&
        !(s.wait cfg m.before).queued m, false, s.invertProbe, false) := by
  have hs : s.flags = (false, false, s.invertProbe, false) := by simp [flags, h]
  have hbefore : (s.wait cfg m.before).flags = (false, false, s.invertProbe, false) :=
    (flags_wait m.before).trans hs
  have hinvert : (s.wait cfg m.before).invertProbe = s.invertProbe :=
    congrArg (fun f : Bool × Bool × Bool × Bool => f.2.2.1) hbefore
  have hstart : ((s.wait cfg m.before).startCalibrating cfg probeTool).flags =
      (cfg.requireProbeTriggerForCalibration && probeTool, true, s.invertProbe,
        (s.wait cfg m.before).zprobing) := by
    rw [← hinvert]
    simp only [startCalibrating]
    split
    · rename_i hboth
      rw [hboth]
      rfl
    · rename_i hboth
      rw [Bool.not_eq_true] at hboth
      rw [hboth]
      rfl
  have hqueued : (((s.wait cfg m.before).startCalibrating cfg probeTool).setZprobing true).queued m =
      (s.wait cfg m.before).queued m := by
    simp only [startCalibrating]
    split <;> rfl
  simp only [calibrateZ]
  rw [hqueued]
  -- The returns of `calibrate_Z`: no Z, already triggered, the move not queued, and the probing
  -- itself.
  by_cases hno : noZ = true
  · rw [if_pos hno]
    simpa [hno] using hs
  by_cases htriggered : m.triggered = true
  · rw [if_neg hno, if_pos htriggered]
    simpa [htriggered] using hbefore
  rw [if_neg hno, if_neg htriggered]
  by_cases hrefused : (s.wait cfg m.before).queued m = true
  · rw [if_neg (by simp [hrefused])]
    have hend : ((((s.wait cfg m.before).startCalibrating cfg probeTool).setZprobing true).setZprobing
        false |>.moveAndWait cfg m).flags.2.2 = (s.invertProbe, false) := by
      rw [flags_moveAndWait]
      exact congrArg (fun f : Bool × Bool × Bool × Bool => (f.2.2.1, false)) hstart
    have hresult := congrArg (fun f : Bool × Bool => (false, false, f)) hend
    simp only [hrefused, Bool.not_true, Bool.and_false]
    rw [← hresult]
    simp only [calibrateZResult]
    split_ifs <;> rfl
  · rw [if_pos (by simp [hrefused])]
    have hresult := congrArg (fun f : Bool × Bool × Bool × Bool => (f.1, false, f.2.2.1, false)) hstart
    simp only [Bool.not_eq_true] at hno htriggered hrefused
    simp only [hno, htriggered, hrefused, Bool.not_false, Bool.and_true, Bool.true_and]
    exact hresult

/-! ## Runs -/

/-- An event leaves probing mode exactly where it does not keep a flag. -/
theorem quiet_step_iff (h : s.Quiet) (e : ProbeEvent) : (s.step cfg e).Quiet ↔ ¬ s.KeepsProbing cfg e := by
  have hflags := quiet_iff.mp h
  have hclear : s.setInvertProbe false = s := by
    rw [← h.2.2.1]
    rfl
  -- Only a G30 that is halted and a G38.6 whose move is refused can leave a flag set.
  cases e with
  | interrupt i => exact iff_of_true (quiet_iff.mpr ((flags_apply i).trans hflags)) id
  | setTloCalibrating state => exact iff_of_true h id
  | mainLoop threeAxisProbe =>
    refine iff_of_true (quiet_iff.mpr ?_) id
    rw [← hflags]
    simp only [step, onMainLoop]
    split <;> rfl
  | command c =>
    cases c with
    | g30 before triggered setZ m back =>
      simp only [step, onGcodeReceived, KeepsProbing, hclear]
      by_cases hconnected : cfg.pinConnected = true
      · rw [if_neg (by simp [hconnected])]
        by_cases htriggered : triggered = true
        · rw [if_pos htriggered]
          refine iff_of_true (quiet_iff.mpr ((flags_wait before).trans hflags)) fun hkeeps => ?_
          exact absurd (hkeeps.2.1.symm.trans htriggered) nofun
        · rw [if_neg htriggered]
          have hwait : (s.wait cfg before).Quiet := quiet_iff.mpr ((flags_wait before).trans hflags)
          have hback : (if setZ = true then ((s.wait cfg before).runProbe cfg m).1
              else (((s.wait cfg before).runProbe cfg m).1).wait cfg back).flags
              = ((s.wait cfg before).runProbe cfg m).1.flags := by
            split
            · rfl
            · exact flags_wait back
          have htriggered : triggered = false := by simpa using htriggered
          rw [quiet_iff, hback, ← quiet_iff, quiet_runProbe hwait, and_iff_right hconnected,
            and_iff_right htriggered]
      · rw [if_pos (by simp [hconnected])]
        exact iff_of_true h fun hkeeps => hconnected hkeeps.1
    | g38 subcode nothingGiven probeTool m =>
      simp only [step, onGcodeReceived, KeepsProbing]
      by_cases hsubcode : (subcode < 2 || subcode > 6) = true
      · rw [if_pos hsubcode]
        refine iff_of_true h fun hkeeps => ?_
        simp [hkeeps.1] at hsubcode
      rw [if_neg hsubcode]
      by_cases hconnected : cfg.pinConnected = true
      · rw [if_neg (by simp [hconnected])]
        have hquiet : ∀ e : ZProbe, ∀ p i, e.flags = (p, false, i, false) →
            ((e.setInvertProbe false).Quiet ↔ p = false) := by
          intro e p i heflags
          simp only [flags, Prod.mk.injEq] at heflags
          obtain ⟨hp, hc, -, hz⟩ := heflags
          simp [Quiet, setInvertProbe, hp, hc, hz]
        obtain ⟨hprobing, hcalibrating, -, hzprobing⟩ := h
        by_cases hsix : subcode = 6
        · subst hsix
          rw [if_pos (beq_self_eq_true 6), show ((6 == 4 || 6 == 5) : Bool) = false from rfl, hclear,
            hquiet _ _ _ (flags_calibrateZ ⟨hprobing, hcalibrating, hzprobing⟩ nothingGiven probeTool m)]
          simp [hconnected]
        · rw [if_neg (by simpa using hsix)]
          rw [hquiet _ _ _ (flags_probeXYZ (s := s.setInvertProbe (subcode == 4 || subcode == 5))
            ⟨hprobing, hcalibrating, hzprobing⟩ nothingGiven subcode m)]
          exact iff_of_true rfl fun hkeeps => hsix hkeeps.1
      · rw [if_pos (by simp [hconnected])]
        exact iff_of_true h fun hkeeps => hconnected hkeeps.2.1

variable (cfg s) in
/-- What the timers make of an ordinary move: the probe pin never stops it, and is a crash where the
tool is a 3D probe. -/
def Guards : Prop :=
  ∀ t : Sample, (s.tick cfg t).stoppedAt = s.stoppedAt ∧
    ((s.seen t).moving = true → t.pin = true → s.is3dprobeActive = true → s.probeTriggered = false →
      s.tloCalibrating = false → (s.tick cfg t).halted = true)

theorem Quiet.guards (h : s.Quiet) : s.Guards cfg := by
  obtain ⟨hprobing, hcalibrating, hinvert, -⟩ := h
  intro t
  have hcrash := flags_detectCrash (s := s) (s.seen t)
  simp only [flags, Prod.mk.injEq, hprobing, hcalibrating] at hcrash
  have hprobe : s.readProbe cfg (s.seen t) = s.detectCrash (s.seen t) := by
    rw [readProbe, watchProbe, hcrash.1]
    rfl
  have htick : s.tick cfg t = s.detectCrash (s.seen t) := by
    rw [tick, hprobe, readCalibrate, hcrash.2.1]
    rfl
  rw [htick]
  refine ⟨?_, fun hmoving hpin hactive htriggered htlo => ?_⟩
  · simp only [detectCrash]
    split_ifs <;> rfl
  · have hseen : (s.seen t).pin = true := by
      rw [← hpin, seen]
      split <;> rfl
    simp [detectCrash, hmoving, hseen, hinvert, hactive, htriggered, htlo, hprobing, hcalibrating]

end ZProbe

/-- Whenever no probing command is being executed, the machine is not in probing mode and the timers
guard its moves, in every run in which no command keeps a flag. -/
theorem probing_mode_ends (cfg : ProbeConfig) (position : Position) {s : ZProbe}
    (h : Reached (ZProbe.step cfg) (fun s e => ¬ s.KeepsProbing cfg e) { position := position } s) :
    s.Quiet ∧ s.Guards cfg := by
  have hquiet : s.Quiet := h.invariant ⟨rfl, rfl, rfl, rfl⟩
    fun _ _ hquiet hok => (ZProbe.quiet_step_iff hquiet _).mpr hok
  exact ⟨hquiet, hquiet.guards⟩

def straightProbe : ProbeEvent :=
  .command (.g38 2 false true { during := [.tick { pin := true, zMoving := true }] })

theorem probing_mode_ends_straight :
    ([straightProbe].foldl (ZProbe.step {}) {}).Quiet ∧
      ([straightProbe].foldl (ZProbe.step {}) {}).Guards {} :=
  probing_mode_ends {} ⟨0, 0, 0⟩ (Reached.start.run ⟨fun h => absurd h.1 (by decide), trivial⟩)

/-- A halt while `G30` probes leaves the machine in probing mode. -/
theorem halted_probe_keeps_probing :
    ¬ (ZProbe.step {} {} (.command (.g30 [] false false { during := [.halt] } []))).Quiet :=
  fun h => absurd h.1 (by decide)

end CarveraFirmware.Probe
