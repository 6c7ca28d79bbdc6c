import Mathlib
import CarveraFirmware.Homing.OneAxis

/-!
# A homed axis was at its switch

One counter and one flag of a switch serve the fast and the slow approach. Neither is reset between
them, and after the slow approach `home` does not look at the flag.
-/

namespace CarveraFirmware.Homing

open Debounce

variable {T M : Type} {cfg : HomingConfig} {world : ℕ → Wait M} {s s' : Machine T M}
variable {m m' : AxisLetter} {motion : Motion} {t : Tick} {a : AxisLetter → Bool}

section fast

/-- An approach of the axis is still to come. -/
structure Fresh (m : AxisLetter) (v : AxisView) : Prop where
  queued : v.queued = false
  debounce : v.switch.debounce = 0
  triggered : v.switch.triggered = false
  stops : v.stops = []

/-- The fast approach of the axis is over. -/
structure FastDone (dms : ℕ) (m : AxisLetter) (v : AxisView) : Prop where
  queued : v.queued = false
  hit : v.switch.triggered = true → dms ≤ v.switch.debounce ∧ v.switch.debounce < 2 ^ 16 ∧
    ∃ r p, v.stops = [⟨m, .movingToEndstopFast, r, p⟩] ∧ dms < trailing r

theorem Fresh.fastDone {dms : ℕ} {v : AxisView} (h : Fresh m v) : FastDone dms m v :=
  ⟨h.queued, fun htriggered => absurd htriggered (by simp [h.triggered])⟩

variable {delta : AxisLetter → ℚ} {rate : ℚ}

theorem ends_start {dms c : ℕ} {status : Status} {v : AxisView} (hc : v.switch.debounce = c)
    (hstopped : v.stopped = false) (hreadings : v.readings = []) :
    Ends dms c status m v v [] := by
  refine .ran hstopped hreadings hc rfl rfl ?_
  intro P rest h
  simp at h

theorem fastDone_of_fresh (hcart : Cartesian cfg) (hswitch : cfg.hasSwitch m = true)
    (hm : m ∈ cfg.axes) (hstatus : s.status = .movingToEndstopFast)
    {v : AxisView} (hfresh : Fresh m v)
    (hqueue : s.motion.view m = v ∨ s.motion.view m = v.queue)
    (hhalt : (s.waitForIdle cfg world).halted = false) :
    FastDone cfg.debounceMs m ((s.waitForIdle cfg world).motion.view m) := by
  obtain hview | hview := hqueue
  · rw [view_waitForIdle_rest hcart (hview ▸ hfresh.queued), hview]
    exact hfresh.fastDone
  · rw [view_waitForIdle_approach hcart hswitch hm (.inr hstatus) hhalt, hview, hstatus]
    have hends := @ends_ticks m .movingToEndstopFast v.queue cfg.debounceMs 0 _
      (world s.clock).ticks [] rfl (ends_start hfresh.debounce rfl rfl)
    refine ⟨rfl, fun h => ?_⟩
    cases hends with
    | ran _ _ _ htriggered _ _ =>
      exact absurd (htriggered.symm.trans h) (by simp [AxisView.queue, hfresh.triggered])
    | stopped P rest _ _ hdebounce _ hstops hfull _ =>
      have hone := hstops.trans (congrArg (· ++ _) hfresh.stops)
      have hle : counted cfg.debounceMs 0 P ≤ trailing P := counted_le_trailing (.inl rfl)
      refine ⟨hdebounce ▸ hfull, hdebounce ▸ counted_lt (by norm_num), P ++ [true], _, hone, ?_⟩
      rw [trailing_concat_true]
      omega

theorem view_approach_other (hcart : Cartesian cfg) (h : m ≠ m') :
    (approach cfg world m' s).motion.view m = s.motion.view m :=
  view_deltaMove_rest hcart (if_neg h)

/-- The moves of `home_xy`, before the wait. -/
theorem homeXy_moves (hcart : Cartesian cfg) (s : Machine T M) :
    ∃ s', homeXy cfg world s = s'.waitForIdle cfg world ∧ Still s s' ∧
      ∀ m, (s'.motion.view m = s.motion.view m ∨
          (m = .x ∨ m = .y) ∧ s'.motion.view m = (s.motion.view m).queue) := by
  have hone (m' : AxisLetter) (s : Machine T M) (m : AxisLetter) :
      (approach cfg world m' s).motion.view m = s.motion.view m ∨
        m = m' ∧ (approach cfg world m' s).motion.view m = (s.motion.view m).queue := by
    by_cases h : m = m'
    · exact (view_deltaMove hcart).imp_right fun hview => ⟨h, hview⟩
    · exact .inl (view_approach_other hcart h)
  -- Both axes in one move or one after the other, or one of them, or none.
  rw [homeXy]
  split
  · split
    · refine ⟨_, rfl, still_deltaMove.trans still_deltaMove, fun m => ?_⟩
      obtain hx | ⟨rfl, hx⟩ := hone .x (approach cfg world .y s) m
      · obtain hy | ⟨rfl, hy⟩ := hone .y s m
        · exact .inl (hx.trans hy)
        · exact .inr ⟨.inr rfl, hx.trans hy⟩
      · have hy : (approach cfg world .y s).motion.view .x = s.motion.view .x :=
          view_approach_other hcart (by decide)
        exact .inr ⟨.inl rfl, hy ▸ hx⟩
    · refine ⟨_, rfl, still_deltaMove, fun m => ?_⟩
      by_cases h : m = .x ∨ m = .y
      · exact (view_deltaMove hcart).imp_right fun hview => ⟨h, hview⟩
      · exact .inl (view_deltaMove_rest hcart (if_neg h))
  · split
    · exact ⟨_, rfl, still_deltaMove, fun m => (hone .x s m).imp_right fun h => ⟨.inl h.1, h.2⟩⟩
    · split
      · exact ⟨_, rfl, still_deltaMove, fun m => (hone .y s m).imp_right fun h => ⟨.inr h.1, h.2⟩⟩
      · exact ⟨_, rfl, .refl, fun m => .inl rfl⟩

theorem view_homeXy_other (hcart : Cartesian cfg) (hx : m ≠ .x) (hy : m ≠ .y)
    (hqueued : (s.motion.view m).queued = false) :
    (homeXy cfg world s).motion.view m = s.motion.view m := by
  obtain ⟨s', heq, -, hview⟩ := @homeXy_moves T M cfg world hcart s
  have hkept := (hview m).resolve_right fun h => h.1.elim hx hy
  rw [heq, view_waitForIdle_rest hcart (hkept ▸ hqueued), hkept]

theorem fastDone_homeXy (hcart : Cartesian cfg) (hswitch : cfg.hasSwitch m = true)
    (hm : m ∈ cfg.axes) (hstatus : s.status = .movingToEndstopFast)
    (hfresh : Fresh m (s.motion.view m)) (hhalt : (homeXy cfg world s).halted = false) :
    FastDone cfg.debounceMs m ((homeXy cfg world s).motion.view m) := by
  obtain ⟨s', heq, hstill, hview⟩ := @homeXy_moves T M cfg world hcart s
  rw [heq] at hhalt ⊢
  exact fastDone_of_fresh hcart hswitch hm (hstill.status.trans hstatus) hfresh
    ((hview m).imp_right And.right) hhalt

end fast

section rotaries

/-- What leaves an axis alone that has nothing queued. -/
def LeavesAlone (m : AxisLetter) (s s' : Machine T M) : Prop :=
  (s.motion.view m).queued = false → s'.motion.view m = s.motion.view m

theorem LeavesAlone.trans {s'' : Machine T M} (h : LeavesAlone m s s') (h' : LeavesAlone m s' s'') :
    LeavesAlone m s s'' := fun hqueued => by
  have hfirst := h hqueued
  rw [h' (hfirst ▸ hqueued), hfirst]

theorem leavesAlone_foldl {step : Machine T M → AxisLetter → Machine T M} {l : List AxisLetter}
    (hstep : ∀ s, ∀ m' ∈ l, LeavesAlone m s (step s m')) (s : Machine T M) :
    LeavesAlone m s (l.foldl step s) := by
  induction l generalizing s with
  | nil => exact fun _ => rfl
  | cons m' l ih =>
    exact (hstep s m' (List.mem_cons_self ..)).trans
      (ih (fun s m'' hm'' => hstep s m'' (List.mem_cons_of_mem _ hm'')) _)

/-- A move of another axis and the wait for it. -/
theorem leavesAlone_along (hcart : Cartesian cfg) (h : m ≠ m') {distance rate : ℚ} :
    LeavesAlone m s ((s.deltaMove cfg world (along m' distance) rate).waitForIdle cfg world) := by
  intro hqueued
  have hmove : (s.deltaMove cfg world (along m' distance) rate).motion.view m = s.motion.view m :=
    view_deltaMove_rest hcart (if_neg h)
  rw [view_waitForIdle_rest hcart (hmove ▸ hqueued), hmove]

theorem leavesAlone_backRotary (hcart : Cartesian cfg) (h : m ≠ m') :
    LeavesAlone m s (backRotary cfg world s m') := by
  have hback : LeavesAlone m s
      ((s.deltaMove cfg world (along m' (fromSwitch cfg m' ((cfg.info m').retract * 50)))
        (cfg.info m').fastRate).waitForIdle cfg world) := leavesAlone_along hcart h
  rw [backRotary]
  split
  · dsimp only
    split
    · split
      · exact hback.trans (leavesAlone_along hcart h)
      · exact hback.trans (leavesAlone_along hcart h)
    · exact hback
  · exact fun _ => rfl

theorem leavesAlone_homeRotary (hcart : Cartesian cfg) (h : m ≠ m') {always : Bool} :
    LeavesAlone m s (homeRotary cfg world always s m') := by
  rw [homeRotary]
  split
  · exact leavesAlone_along hcart h
  · exact fun _ => rfl

theorem leavesAlone_homeRotaries (hcart : Cartesian cfg) (hm : m ∉ cfg.rotary) :
    LeavesAlone m s (homeRotaries cfg world s) := by
  have hne : ∀ m' ∈ cfg.rotary, m ≠ m' := fun m' hm' heq => hm (heq ▸ hm')
  have hforth (always : Bool) (s : Machine T M) :
      LeavesAlone m s (cfg.rotary.foldl (homeRotary cfg world always) s) :=
    leavesAlone_foldl (fun _ m' hm' => leavesAlone_homeRotary hcart (hne m' hm')) s
  rw [homeRotaries]
  split
  · have hback : LeavesAlone m { s with status := .movingBack }
        (cfg.rotary.foldl (backRotary cfg world) { s with status := .movingBack }) :=
      leavesAlone_foldl (fun _ m' hm' => leavesAlone_backRotary hcart (hne m' hm')) _
    exact hback.trans (hforth false
      { cfg.rotary.foldl (backRotary cfg world) { s with status := .movingBack } with
        status := .movingToEndstopFast })
  · exact hforth true s

theorem still_homeRotaries (h : s.status = .movingToEndstopFast) :
    Still s (homeRotaries cfg world s) := by
  rw [homeRotaries]
  split
  · have hback : Still { s with status := .movingBack }
        (cfg.rotary.foldl (backRotary cfg world) { s with status := .movingBack }) :=
      still_foldl (fun _ _ => still_backRotary) ..
    have hforth (s : Machine T M) :
        Still s (cfg.rotary.foldl (homeRotary cfg world false) s) :=
      still_foldl (fun _ _ => still_homeRotary) ..
    have hlast := hforth
      { cfg.rotary.foldl (backRotary cfg world) { s with status := .movingBack } with
        status := .movingToEndstopFast }
    exact ⟨⟨hlast.compensation.trans hback.compensation, hlast.endstops.trans hback.endstops,
      hback.stack.trans hlast.stack⟩, hlast.status.trans h.symm,
      hlast.segmentation.trans hback.segmentation, hlast.axisToHome.trans hback.axisToHome,
      fun hhalt => hlast.halted (hback.halted hhalt)⟩
  · exact still_foldl (fun _ _ => still_homeRotary) ..

end rotaries

section fastApproach

/-- One of the three axes that the fast approach has to be right for. -/
structure Primary (cfg : HomingConfig) (m : AxisLetter) : Prop where
  switch : cfg.hasSwitch m = true
  isPrimary : m = .x ∨ m = .y ∨ m = .z

theorem Primary.mem_axes (h : Primary cfg m) : m ∈ cfg.axes := by
  obtain rfl | rfl | rfl := h.isPrimary <;> simp [HomingConfig.axes]

theorem Primary.not_rotary (h : Primary cfg m) : m ∉ cfg.rotary := by
  intro hm
  obtain ⟨hx, hy, hz⟩ := cfg.rotary_spec m hm
  exact h.isPrimary.elim hx fun h => h.elim hy hz

/-- X and Y are approached here or elsewhere. -/
theorem homeXy_if (hcart : Cartesian cfg) (hm : Primary cfg m)
    (hstatus : s.status = .movingToEndstopFast) {here : Bool}
    (hs' : s' = if here then homeXy cfg world s else s) :
    Still s s' ∧ (here = false ∨ m = .z → LeavesAlone m s s') ∧
      (here = true → m ≠ .z → Fresh m (s.motion.view m) → s'.halted = false →
        FastDone cfg.debounceMs m (s'.motion.view m)) := by
  subst hs'
  cases here with
  | false => exact ⟨.refl, fun _ _ => rfl, nofun⟩
  | true =>
    refine ⟨still_homeXy, ?_, ?_⟩
    · rintro (h | rfl)
      · cases h
      · exact view_homeXy_other hcart (by decide) (by decide)
    · intro _ _ hfresh hhalt
      exact fastDone_homeXy hcart hm.switch hm.mem_axes hstatus hfresh hhalt

theorem approachRest_hits (hcart : Cartesian cfg) (hm : Primary cfg m)
    (hstatus : s.status = .movingToEndstopFast)
    (hdone : s.halted = false → m = .z ∨ cfg.homeZFirst = false →
      FastDone cfg.debounceMs m (s.motion.view m))
    (hfresh : m ≠ .z → cfg.homeZFirst = true → Fresh m (s.motion.view m))
    (hres : approachRest cfg world s = (s', true)) (hhalt : s'.halted = false) :
    Still s s' ∧ FastDone cfg.debounceMs m (s'.motion.view m) ∧
      (s'.axisToHome m = true → s'.triggered m = true) := by
  rw [approachRest] at hres
  obtain ⟨s₁, hs₁⟩ : ∃ s₁, s₁ = if cfg.homeZFirst && !cfg.rotaryClearanceYMin.isSome then
    homeXy cfg world s else s := ⟨_, rfl⟩
  obtain ⟨s₂, hs₂⟩ : ∃ s₂, s₂ = homeRotaries cfg world s₁ := ⟨_, rfl⟩
  obtain ⟨s₃, hs₃⟩ : ∃ s₃, s₃ = if cfg.homeZFirst && cfg.rotaryClearanceYMin.isSome then
    homeXy cfg world s₂ else s₂ := ⟨_, rfl⟩
  rw [← hs₁, ← hs₂, ← hs₃] at hres
  split at hres
  · cases hres
  rename_i hmissed
  obtain ⟨rfl, -⟩ := Prod.mk.inj hres
  obtain ⟨hstill₁, hkept₁, hdone₁⟩ := homeXy_if hcart hm hstatus hs₁
  have hstill₂ : Still s₁ s₂ := hs₂ ▸ still_homeRotaries (hstill₁.status.trans hstatus)
  have hkept₂ : LeavesAlone m s₁ s₂ := hs₂ ▸ leavesAlone_homeRotaries hcart hm.not_rotary
  obtain ⟨hstill₃, hkept₃, hdone₃⟩ :=
    homeXy_if hcart hm ((hstill₁.trans hstill₂).status.trans hstatus) hs₃
  have hhalt₁ := (hstill₂.trans hstill₃).running hhalt
  refine ⟨(hstill₁.trans hstill₂).trans hstill₃, ?_, ?_⟩
  · -- Which of the two calls of `home_xy` is made depends on whether the clearance is configured.
    by_cases hz : m = .z ∨ cfg.homeZFirst = false
    · have hskip (b : Bool) : (cfg.homeZFirst && b) = false ∨ m = .z :=
        hz.symm.imp_left fun h => by rw [h, Bool.false_and]
      have hdone := hdone (hstill₁.running hhalt₁) hz
      have hkept := ((hkept₁ (hskip _)).trans hkept₂).trans (hkept₃ (hskip _)) hdone.queued
      exact hkept ▸ hdone
    · obtain ⟨hne, hfirst⟩ := not_or.1 hz
      have hfirst : cfg.homeZFirst = true := by simpa using hfirst
      have hfresh := hfresh hne hfirst
      cases hclear : cfg.rotaryClearanceYMin.isSome with
      | false =>
        have hdone := hdone₁ (by rw [hfirst, hclear]; rfl) hne hfresh hhalt₁
        have hkept := hkept₂.trans (hkept₃ (.inl (by rw [hclear, Bool.and_false]))) hdone.queued
        exact hkept ▸ hdone
      | true =>
        have hkept := (hkept₁ (.inl (by rw [hclear]; exact Bool.and_false _))).trans hkept₂
          hfresh.queued
        exact hdone₃ (by rw [hfirst, hclear]; rfl) hne (hkept ▸ hfresh) hhalt
  · -- an axis that was to home without its switch would have ended the approach as missed
    intro haxis
    by_contra htriggered
    have hmem : m ∈ ([.x, .y, .z] : List AxisLetter) := by simpa using hm.isPrimary
    have hany : ([.x, .y, .z] : List AxisLetter).any s₃.axisToHome = true :=
      List.any_eq_true.2 ⟨m, hmem, haxis⟩
    have hmiss : ([.x, .y, .z] : List AxisLetter).any (fun m =>
        (s₃.axisToHome m || cfg.isDelta || cfg.isRdelta) && !s₃.triggered m) = true :=
      List.any_eq_true.2 ⟨m, hmem, by simpa [haxis] using htriggered⟩
    exact hmissed (by rw [missed, hany, hmiss]; rfl)

theorem fastApproach_hits (hcart : Cartesian cfg) (hm : Primary cfg m)
    (hstatus : s.status = .movingToEndstopFast) (hfresh : Fresh m (s.motion.view m))
    (hres : fastApproach cfg world s = (s', true)) (hhalt : s'.halted = false) :
    Still s s' ∧ FastDone cfg.debounceMs m (s'.motion.view m) ∧
      (s'.axisToHome m = true → s'.triggered m = true) := by
  rw [fastApproach] at hres
  obtain ⟨s₁, hs₁⟩ : ∃ s₁, s₁ = if cfg.homeZFirst then s else homeXy cfg world s := ⟨_, rfl⟩
  obtain ⟨s₂, hs₂⟩ : ∃ s₂, s₂ = (approach cfg world .z s₁).waitForIdle cfg world := ⟨_, rfl⟩
  rw [← hs₁, ← hs₂] at hres
  have hs₁' : s₁ = if !cfg.homeZFirst then homeXy cfg world s else s := by
    rw [hs₁]
    cases cfg.homeZFirst <;> rfl
  obtain ⟨hstill₁, hkept₁, hdone₁⟩ := homeXy_if hcart hm hstatus hs₁'
  have hstatus₁ := hstill₁.status.trans hstatus
  -- Z first: X and Y wait until behind it. Z last: they are done before it.
  have hxy (hne : m ≠ .z) (hfirst : cfg.homeZFirst = false) (hhalt₁ : s₁.halted = false) :
      FastDone cfg.debounceMs m (s₁.motion.view m) :=
    hdone₁ (by rw [hfirst]; rfl) hne hfresh hhalt₁
  have hwait (hz : m = .z ∨ cfg.homeZFirst = true) : Fresh m (s₁.motion.view m) := by
    have hkept := hkept₁ (hz.symm.imp_left fun h => by rw [h]; rfl) hfresh.queued
    exact hkept ▸ hfresh
  split at hres
  · have hstill₂ : Still s₁ s₂ := hs₂ ▸ still_deltaMove.trans still_waitForIdle
    dsimp only at hres
    split at hres
    · have hkept₂ (hne : m ≠ .z) : LeavesAlone m s₁ s₂ := hs₂ ▸ leavesAlone_along hcart hne
      have hdone (hhalt₂ : s₂.halted = false) (hz : m = .z ∨ cfg.homeZFirst = false) :
          FastDone cfg.debounceMs m (s₂.motion.view m) := by
        obtain rfl | hne := eq_or_ne m .z
        · subst hs₂
          exact fastDone_of_fresh hcart hm.switch hm.mem_axes
            (still_deltaMove.status.trans hstatus₁) (hwait (.inl rfl)) (view_deltaMove hcart) hhalt₂
        · have hdone := hxy hne (hz.resolve_left hne) (hstill₂.running hhalt₂)
          exact hkept₂ hne hdone.queued ▸ hdone
      have hready (hne : m ≠ .z) (hfirst : cfg.homeZFirst = true) :
          Fresh m (s₂.motion.view m) := by
        have hfresh := hwait (.inr hfirst)
        exact hkept₂ hne hfresh.queued ▸ hfresh
      obtain ⟨hstill₃, hrest⟩ :=
        approachRest_hits hcart hm (hstill₂.status.trans hstatus₁) hdone hready hres hhalt
      exact ⟨(hstill₁.trans hstill₂).trans hstill₃, hrest⟩
    · cases hres
  · have hdone (hhalt₁ : s₁.halted = false) (hz : m = .z ∨ cfg.homeZFirst = false) :
        FastDone cfg.debounceMs m (s₁.motion.view m) := by
      obtain rfl | hne := eq_or_ne m .z
      · exact (hwait (.inl rfl)).fastDone
      · exact hxy hne (hz.resolve_left hne) hhalt₁
    obtain ⟨hstill₃, hrest⟩ :=
      approachRest_hits hcart hm hstatus₁ hdone (fun _ hfirst => hwait (.inr hfirst)) hres hhalt
    exact ⟨hstill₁.trans hstill₃, hrest⟩

end fastApproach

section slowApproach

/-- The switch is found off first, unless it need not be debounced, and later on for long enough. -/
def SwitchFires (debounceMs : ℕ) (levels : List Bool) : Prop :=
  (debounceMs = 0 ∨ levels.head? = some false) ∧ ∃ n, debounceMs < trailing (levels.take n)

theorem counted_of_trailing {dms c : ℕ} {L : List Bool} (hdms : dms < 2 ^ 16) {n : ℕ}
    (h : dms < trailing (L.take n)) :
    ∃ P rest, L = P ++ true :: rest ∧ dms ≤ counted dms c P := by
  obtain hnil | ⟨P, b, hP⟩ := List.eq_nil_or_concat' (L.take n)
  · rw [hnil] at h
    cases h
  · cases b with
    | false =>
      rw [hP, trailing_concat_false] at h
      cases h
    | true =>
      rw [hP, trailing_concat_true] at h
      have hle : min (trailing P) dms ≤ counted dms c P := min_trailing_le_counted hdms
      refine ⟨P, L.drop n, ?_, by omega⟩
      rw [List.append_cons, ← hP, List.take_append_drop]

/-- An approach that starts with a full counter. -/
theorem ends_fires_iff {dms c : ℕ} {status : Status} {before after : AxisView} {L : List Bool}
    (h : Ends dms c status m before after L) (hc : dms ≤ c) (hdms : dms < 2 ^ 16)
    (hbefore : ∀ stop ∈ before.stops, stop.status ≠ status) :
    (∃ stop ∈ after.stops, stop.status = status ∧ dms < trailing stop.readings ∧
      stop.position = after.position) ↔ SwitchFires dms L := by
  -- Either the axis ran out its way, or it stopped where the count of its switch was full.
  cases h with
  | ran _ _ _ _ hstops hfree =>
    constructor
    · rintro ⟨stop, hmem, hstatus, -⟩
      rw [hstops] at hmem
      exact absurd hstatus (hbefore stop hmem)
    · rintro ⟨-, n, hn⟩
      obtain ⟨P, rest, hL, hfull⟩ := counted_of_trailing (c := c) hdms hn
      exact absurd (hfree P rest hL) (by omega)
  | stopped P rest hL _ _ _ hstops hfull hfree =>
    have hfires : SwitchFires dms L ↔ dms ≤ trailing P := by
      subst hL
      cases P with
      | nil =>
        refine ⟨fun h => ?_, fun h => ⟨.inl (Nat.le_zero.1 h), 1, ?_⟩⟩
        · exact (h.1.resolve_right (by simp)).le
        · obtain rfl : dms = 0 := Nat.le_zero.1 h
          exact Nat.one_pos
      | cons b P =>
        obtain rfl : b = false := by
          cases b with
          | false => rfl
          | true => exact absurd (hfree [] P rfl) (by simpa [counted] using hc)
        have hle : counted dms c (false :: P) ≤ trailing (false :: P) :=
          counted_le_trailing (.inr (List.mem_cons_self ..))
        refine ⟨fun _ => hfull.trans hle, fun h => ⟨.inr rfl, (false :: P).length + 1, ?_⟩⟩
        rw [List.append_cons, List.take_left' (by simp), trailing_concat_true]
        omega
    rw [hfires, hstops]
    constructor
    · rintro ⟨stop, hmem, hstatus, hlt, -⟩
      obtain hmem | hmem := List.mem_append.1 hmem
      · exact absurd hstatus (hbefore stop hmem)
      · obtain rfl := List.mem_singleton.1 hmem
        rw [trailing_concat_true] at hlt
        omega
    · intro hle
      refine ⟨_, List.mem_append_right _ (List.mem_singleton_self _), rfl, ?_, rfl⟩
      rw [trailing_concat_true]
      omega

theorem ends_stops {dms c : ℕ} {status : Status} {before after : AxisView} {L : List Bool}
    (h : Ends dms c status m before after L) {stop : Stop} (hmem : stop ∈ before.stops) :
    stop ∈ after.stops := by
  cases h with
  | ran _ _ _ _ hstops _ => exact hstops ▸ hmem
  | stopped _ _ _ _ _ _ hstops _ _ => exact hstops ▸ List.mem_append_left _ hmem

/-- While it moves back, the machine does not look at the switches. -/
theorem view_tick_back (h : s.status = .movingBack) :
    ((s.tick cfg t).motion.view m).switch = (s.motion.view m).switch ∧
      ((s.tick cfg t).motion.view m).stops = (s.motion.view m).stops := by
  have hhalt : (if t.halt then s.onHalt else s).motion = s.motion ∧
      (if t.halt then s.onHalt else s).status = s.status := by
    split
    · exact ⟨onHalt_motion, still_onHalt.status⟩
    · exact ⟨rfl, rfl⟩
  rw [Machine.tick]
  generalize (if t.halt then s.onHalt else s) = s' at hhalt
  rw [← hhalt.1]
  split
  · exact ⟨rfl, rfl⟩
  · dsimp only
    rw [hhalt.2, h]
    exact ⟨rfl, rfl⟩

theorem view_waitForIdle_back (h : s.status = .movingBack) :
    ((s.waitForIdle cfg world).motion.view m).switch = (s.motion.view m).switch ∧
      ((s.waitForIdle cfg world).motion.view m).stops = (s.motion.view m).stops := by
  have hticks (ticks : List Tick) :
      ((ticks.foldl (Machine.tick cfg) s).motion.view m).switch = (s.motion.view m).switch ∧
        ((ticks.foldl (Machine.tick cfg) s).motion.view m).stops = (s.motion.view m).stops := by
    induction ticks generalizing s with
    | nil => exact ⟨rfl, rfl⟩
    | cons t ticks ih =>
      obtain ⟨hswitch, hstops⟩ := view_tick_back (m := m) (t := t) h
      obtain ⟨hswitch', hstops'⟩ := ih (still_tick.status.trans h)
      exact ⟨hswitch'.trans hswitch, hstops'.trans hstops⟩
  exact hticks _

theorem view_moveBack (hcart : Cartesian cfg) :
    ((moveBack cfg world s).motion.view m).switch = (s.motion.view m).switch ∧
      ((moveBack cfg world s).motion.view m).stops = (s.motion.view m).stops ∧
      ((moveBack cfg world s).motion.view m).queued = false := by
  have hmove (s : Machine T M) (delta : AxisLetter → ℚ) (rate : ℚ) :
      ((s.deltaMove cfg world delta rate).motion.view m).switch = (s.motion.view m).switch ∧
        ((s.deltaMove cfg world delta rate).motion.view m).stops = (s.motion.view m).stops := by
    obtain h | h := @view_deltaMove T M cfg world s m delta rate hcart <;> rw [h] <;> exact ⟨rfl, rfl⟩
  obtain ⟨hswitch, hstops⟩ := hmove { s with status := .movingBack }
    (fun m => if m ∈ cfg.axes ∧ s.axisToHome m then fromSwitch cfg m (cfg.info m).retract else 0)
    (slowFeedRate cfg s)
  have hback := @view_waitForIdle_back T M cfg world _ m
    (@still_deltaMove T M cfg world { s with status := .movingBack }
      (fun m => if m ∈ cfg.axes ∧ s.axisToHome m then fromSwitch cfg m (cfg.info m).retract else 0)
      (slowFeedRate cfg s)).status
  exact ⟨hback.1.trans hswitch, hback.2.trans hstops, rfl⟩

/-- How the switch is read in the slow approach that follows. -/
def slowLevels (cfg : HomingConfig) (world : ℕ → Wait M) (s : Machine T M) (m : AxisLetter) :
    List Bool :=
  let s := approachSlow cfg world (moveBack cfg world s)
  if s.motion.queued m then drivenLevels m (world s.clock).ticks else []

theorem still_approachSlow :
    Still { s with status := .movingToEndstopSlow } (approachSlow cfg world s) :=
  still_deltaMove

theorem not_switchFires_nil {dms : ℕ} : ¬ SwitchFires dms [] := by
  rintro ⟨-, n, hn⟩
  rw [List.take_nil] at hn
  cases hn

/-- The slow approach of an axis whose switch was hit in the fast one. -/
theorem slow_fires_iff (hcart : Cartesian cfg) (hm : Primary cfg m)
    (hfull : cfg.debounceMs ≤ (s.motion.view m).switch.debounce) (hdms : cfg.debounceMs < 2 ^ 16)
    (hbefore : ∀ stop ∈ (s.motion.view m).stops, stop.status ≠ .movingToEndstopSlow)
    (hs' : s' = (approachSlow cfg world (moveBack cfg world s)).waitForIdle cfg world)
    (hhalt : s'.halted = false) :
    (∀ stop ∈ (s.motion.view m).stops, stop ∈ (s'.motion.view m).stops) ∧
      ((∃ stop ∈ (s'.motion.view m).stops, stop.status = .movingToEndstopSlow ∧
          cfg.debounceMs < trailing stop.readings ∧ stop.position = s'.motion.position m) ↔
        SwitchFires cfg.debounceMs (slowLevels cfg world s m)) := by
  obtain ⟨hswitch, hstops, hqueued⟩ := @view_moveBack T M cfg world s m hcart
  obtain ⟨s₁, hs₁⟩ : ∃ s₁, s₁ = approachSlow cfg world (moveBack cfg world s) := ⟨_, rfl⟩
  have hview : s₁.motion.view m = (moveBack cfg world s).motion.view m ∨
      s₁.motion.view m = ((moveBack cfg world s).motion.view m).queue :=
    hs₁ ▸ view_deltaMove hcart
  have hstatus : s₁.status = .movingToEndstopSlow := hs₁ ▸ still_approachSlow.status
  have hlevels : slowLevels cfg world s m =
      if s₁.motion.queued m then drivenLevels m (world s₁.clock).ticks else [] := by
    rw [hs₁]
    rfl
  have hposition : s'.motion.position m = (s'.motion.view m).position := rfl
  rw [← hs₁] at hs'
  rw [hlevels, hposition]
  rw [← hstops] at hbefore ⊢
  subst hs'
  -- The axis is queued for the slow approach, or left at rest.
  obtain hview | hview := hview
  · have hnot : s₁.motion.queued m = false := (congrArg AxisView.queued hview).trans hqueued
    rw [hnot, view_waitForIdle_rest hcart (hview ▸ hqueued), hview]
    refine ⟨fun _ hmem => hmem, ?_, fun h => absurd h not_switchFires_nil⟩
    rintro ⟨stop, hmem, hslow, -⟩
    exact absurd hslow (hbefore stop hmem)
  · have hqueue : s₁.motion.queued m = true := congrArg AxisView.queued hview
    rw [hqueue, view_waitForIdle_approach hcart hm.switch hm.mem_axes (.inl hstatus) hhalt, hview,
      hstatus, if_pos rfl]
    have hends := @ends_ticks m .movingToEndstopSlow ((moveBack cfg world s).motion.view m).queue
      cfg.debounceMs _ _ (world s₁.clock).ticks [] rfl (ends_start rfl rfl rfl)
    have hfires := ends_fires_iff hends (hswitch ▸ hfull) hdms hbefore
    exact ⟨fun _ hmem => ends_stops hends hmem, hfires⟩

end slowApproach

section home

/-- Each homed axis of X, Y and Z was stopped by its switch in both approaches, and is declared home
at the second stop. -/
def HomedAtSwitch (cfg : HomingConfig) (a : AxisLetter → Bool) (s : Machine T M) : Prop :=
  ∀ m, m = .x ∨ m = .y ∨ m = .z → a m →
    (∃ fast ∈ s.motion.stops, fast.axis = m ∧ fast.status = .movingToEndstopFast ∧
      cfg.debounceMs < trailing fast.readings) ∧
    ∃ slow ∈ s.motion.stops, slow.axis = m ∧ slow.status = .movingToEndstopSlow ∧
      cfg.debounceMs < trailing slow.readings ∧
      (setHome cfg a s).declared m =
        some ((cfg.info m).homingPosition + (cfg.info m).homeOffset, slow.position)

theorem homeFail_halted : s.homeFail.halted = true := onHalt_halted

theorem fastApproach_failed (h : fastApproach cfg world s = (s', false)) : s'.halted = true := by
  have hite (p : Prop) [Decidable p] (s : Machine T M)
      (h : (if p then (s.homeFail, false) else (s, true)) = (s', false)) : s'.halted = true := by
    split at h
    · obtain ⟨rfl, -⟩ := Prod.mk.inj h
      exact homeFail_halted
    · cases h
  have hrest (s : Machine T M) (h : approachRest cfg world s = (s', false)) : s'.halted = true :=
    hite _ _ h
  rw [fastApproach] at h
  generalize (if cfg.homeZFirst then s else homeXy cfg world s) = s₁ at h
  split at h
  · dsimp only at h
    split at h
    · exact hrest _ h
    · obtain ⟨rfl, -⟩ := Prod.mk.inj h
      exact homeFail_halted
  · exact hrest _ h

theorem mem_view_stops {stop : Stop} :
    stop ∈ (motion.view m).stops ↔ stop ∈ motion.stops ∧ stop.axis = m := by
  rw [Motion.view, List.mem_filter, decide_eq_true_iff]

theorem home_atSwitch_iff (hcart : Cartesian cfg) (hswitch : ∀ m, a m → cfg.hasSwitch m)
    (hidle : ∀ m, s.motion.queued m = false) (hhalt : (home cfg world a s).halted = false) :
    HomedAtSwitch cfg a (home cfg world a s) ↔
      ∀ m, m = .x ∨ m = .y ∨ m = .z → a m →
        SwitchFires cfg.debounceMs
          (slowLevels cfg world (fastApproach cfg world (startHoming cfg a s)).1 m) := by
  obtain ⟨⟨s₁, ok⟩, hs₁⟩ : ∃ result, result = fastApproach cfg world (startHoming cfg a s) := ⟨_, rfl⟩
  cases ok with
  -- A failed approach halts the machine.
  | false =>
    have hhome : home cfg world a s = s₁ := by rw [home, ← hs₁]
    rw [hhome, fastApproach_failed hs₁.symm] at hhalt
    cases hhalt
  | true =>
    obtain ⟨s₂, hs₂⟩ : ∃ s₂, s₂ =
      (approachSlow cfg world (moveBack cfg world s₁)).waitForIdle cfg world := ⟨_, rfl⟩
    have hhome : home cfg world a s = endHoming cfg s₂ := by
      rw [home, ← hs₁, hs₂]
    have hhalt₂ : s₂.halted = false := by
      rw [hhome] at hhalt
      exact hhalt
    have hhalt₁ : s₁.halted = false := by
      have hback : Still { s₁ with status := .movingBack } (moveBack cfg world s₁) :=
        still_deltaMove.trans still_waitForIdle
      have hslow := still_approachSlow.running
        ((hs₂ ▸ still_waitForIdle : Still (approachSlow cfg world (moveBack cfg world s₁)) s₂).running
          hhalt₂)
      exact hback.running hslow
    rw [hhome, ← hs₁]
    refine forall_congr' fun m => forall_congr' fun hprimary => forall_congr' fun ha => ?_
    have hm : Primary cfg m := ⟨hswitch m ha, hprimary⟩
    have hfresh : Fresh m ((startHoming cfg a s).motion.view m) := ⟨hidle m, rfl, rfl, rfl⟩
    obtain ⟨hstill, hdone, htriggered⟩ := fastApproach_hits hcart hm rfl hfresh hs₁.symm hhalt₁
    have haxis : s₁.axisToHome m = true := (congrFun hstill.axisToHome m).trans ha
    obtain ⟨hfull, hlt, r, p, hfast, hlong⟩ := hdone.hit (htriggered haxis)
    -- What the fast approach left is one stop of its own phase, so any slow stop comes from the
    -- slow one.
    have hbefore : ∀ stop ∈ (s₁.motion.view m).stops, stop.status ≠ .movingToEndstopSlow := by
      intro stop hmem
      rw [hfast] at hmem
      obtain rfl := List.mem_singleton.1 hmem
      exact Status.noConfusion
    obtain ⟨hkept, hfires⟩ :=
      slow_fires_iff hcart hm hfull (hfull.trans_lt hlt) hbefore hs₂ hhalt₂
    have hmem : ⟨m, .movingToEndstopFast, r, p⟩ ∈ (s₂.motion.view m).stops :=
      hkept _ (hfast ▸ List.mem_singleton_self _)
    have hdeclared : (setHome cfg a (endHoming cfg s₂)).declared m =
        some ((cfg.info m).homingPosition + (cfg.info m).homeOffset, s₂.motion.position m) := by
      simp [setHome, endHoming, hcart.delta, hcart.rdelta, hcart.scara, hm.mem_axes, ha]
    rw [← hfires, hdeclared]
    constructor
    · rintro ⟨-, slow, hslow, haxis, hstatus, hlong, hplace⟩
      have hplace : s₂.motion.position m = slow.position := by simpa using hplace
      exact ⟨slow, mem_view_stops.2 ⟨hslow, haxis⟩, hstatus, hlong, hplace.symm⟩
    · rintro ⟨slow, hslow, hstatus, hlong', hplace⟩
      obtain ⟨hslow, haxis⟩ := mem_view_stops.1 hslow
      exact ⟨⟨_, (mem_view_stops.1 hmem).1, rfl, rfl, hlong⟩, slow, hslow, haxis, hstatus, hlong',
        by rw [hplace]⟩

theorem rotary_spec_nil : ∀ m ∈ ([] : List AxisLetter), m ≠ .x ∧ m ≠ .y ∧ m ≠ .z :=
  List.forall_mem_nil _

/-- A Cartesian machine whose switches are debounced for 2 ms. -/
def cartesianMachine : HomingConfig where
  info := fun _ => {}
  hasSwitch := fun _ => true
  limitEnable := fun _ => false
  debounceMs := 2
  rotary_nodup := List.nodup_nil
  rotary_spec := rotary_spec_nil

/-- Z hits its switch in the fast approach, and finds these levels in the slow one. -/
def slowWorld (levels : List Bool) (n : ℕ) : Wait Unit where
  level := fun _ => false
  ticks := (if n = 0 then [true, true, true] else if n = 3 then levels else []).map fun level =>
    { level := fun _ => level, driven := fun m => m = .z, steps := fun _ => -1 }

theorem home_atSwitch_iff_zAxis :
    HomedAtSwitch cartesianMachine (· = .z)
      (home cartesianMachine (slowWorld [false, true, true, true]) (· = .z)
        ({ motion := { switch := fun m => ⟨m, 0, false, false, false⟩ }, modal := () } :
          Machine Unit Unit)) := by
  refine (home_atSwitch_iff ⟨rfl, rfl, rfl, rfl, rfl⟩ (fun _ _ => rfl) (fun _ => rfl)
    (by decide +kernel)).2 ?_
  rintro m - hm
  obtain rfl : m = .z := by simpa using hm
  exact ⟨.inr (by decide +kernel), 4, by decide +kernel⟩

/-- The slow approach never sees the switch, and Z is taken to be at home. -/
theorem home_accepts_missed_switch :
    (home cartesianMachine (slowWorld [false]) (· = .z)
        ({ motion := { switch := fun m => ⟨m, 0, false, false, false⟩ }, modal := () } :
          Machine Unit Unit)).halted = false ∧
      ¬ HomedAtSwitch cartesianMachine (· = .z)
        (home cartesianMachine (slowWorld [false]) (· = .z)
          ({ motion := { switch := fun m => ⟨m, 0, false, false, false⟩ }, modal := () } :
            Machine Unit Unit)) := by
  refine ⟨by decide +kernel, fun h => ?_⟩
  obtain ⟨-, slow, hslow, -, hstatus, -⟩ := h .z (.inr (.inr rfl)) rfl
  have hnone : ∀ stop ∈ (home cartesianMachine (slowWorld [false]) (· = .z)
      ({ motion := { switch := fun m => ⟨m, 0, false, false, false⟩ }, modal := () } :
        Machine Unit Unit)).motion.stops, stop.status ≠ .movingToEndstopSlow := by
    decide +kernel
  exact hnone slow hslow hstatus

end home

end CarveraFirmware.Homing
