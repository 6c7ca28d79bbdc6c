import Mathlib
import CarveraFirmware.Library.Debounce
import CarveraFirmware.Library.Reached
import CarveraFirmware.Homing.Endstops

/-!
# When a limit alarm clears

In the state `LIMIT_TRIGGERED` every limit switch counts the calls in which it is read as released,
and each of the counters can clear the state, before the switches behind it are read. The state is
left with the released switches only where the counters are ordered as `Ordered` says.
-/

namespace CarveraFirmware.Homing

open Debounce

/-- The state after a call. -/
def idle (s : Endstops) (inputs : IdleInputs) : Endstops := (onIdle s inputs).1

def Endstops.limits (s : Endstops) : List Bool := s.endstops.map EndstopInfo.limitEnable

/-- No limit switch before `j` is active, so that the loop comes to `j`. -/
def Comes (limits : List Bool) (level : ℕ → Bool) (j : ℕ) : Prop :=
  ∀ m < j, limits[m]? = some true → level m = false

/-- No limit switch is active. -/
def AllReleased (limits : List Bool) (level : ℕ → Bool) : Prop :=
  ∀ m, limits[m]? = some true → level m = false

instance (limits : List Bool) (level : ℕ → Bool) (j : ℕ) : Decidable (Comes limits level j) :=
  inferInstanceAs (Decidable (∀ m < j, limits[m]? = some true → level m = false))

/-- The loop reads the switch `r`, and as released. -/
def seenReleased (limits : List Bool) (r : ℕ) (inputs : IdleInputs) : Bool :=
  Comes limits inputs.level r && !inputs.level r

/-- Some limit switch of the list, read as released after all before it, was counted past `dc`. -/
def CountedPast (dc : ℕ) (level : ℕ → Bool) (l : List EndstopInfo) : Prop :=
  ∃ j i, l[j]? = some i ∧ i.limitEnable = true ∧ dc < i.debounce ∧
    Comes (l.map EndstopInfo.limitEnable) level (j + 1)

def CountedOut (s : Endstops) (level : ℕ → Bool) : Prop :=
  CountedPast s.debounceCount level s.endstops

/-- The call raises the alarm for the switch `r`. -/
structure Raises (s : Endstops) (inputs : IdleInputs) (r : ℕ) : Prop where
  running : s.status ≠ .limitTriggered ∧ inputs.isHalted = false
  no_motorAlarm : motorAlarm s inputs = none
  hit : raises s inputs = some r

/-- What the counters have to be in a call, where the switch `r` raised the alarm. -/
structure Ordered (r : ℕ) (s : Endstops) (inputs : IdleInputs) : Prop where
  /-- No switch in front of the first active one was counted past `debounce_count`. -/
  held : ∀ m, s.limits[m]? = some true → inputs.level m = true → Comes s.limits inputs.level m →
    ∀ j < m, ∀ i, s.endstops[j]? = some i → i.limitEnable = true → i.debounce ≤ s.debounceCount
  /-- No switch in front of it was counted past that while the one that raised the alarm was not. -/
  raiser : ∀ j i, s.endstops[j]? = some i → i.limitEnable = true →
    Comes s.limits inputs.level (j + 1) → s.debounceCount < i.debounce →
      ∀ i', s.endstops[r]? = some i' → s.debounceCount ≤ i'.debounce
  /-- That one has not been counted when it is not read. -/
  read : ¬ Comes s.limits inputs.level r → ∀ i, s.endstops[r]? = some i → i.debounce = 0

section checkCleared

variable {dc : ℕ} {level : ℕ → Bool} {b : Bool} {limits : List Bool}

@[simp] theorem comes_zero : Comes limits level 0 := fun _ h => absurd h (Nat.not_lt_zero _)

theorem comes_cons {j : ℕ} :
    Comes (b :: limits) level (j + 1) ↔
      (b = true → level 0 = false) ∧ Comes limits (fun m => level (m + 1)) j := by
  constructor
  · intro h
    refine ⟨fun hb => h 0 (Nat.succ_pos j) (by rw [hb]; rfl), fun m hm hlim => ?_⟩
    exact h (m + 1) (Nat.succ_lt_succ hm) hlim
  · rintro ⟨hzero, hrest⟩ m hm hlim
    cases m with
    | zero => exact hzero (by simpa using hlim)
    | succ m => exact hrest m (Nat.lt_of_succ_lt_succ hm) hlim

theorem checkCleared_off {k : ℕ} {status : Status} {i : EndstopInfo} {rest : List EndstopInfo}
    (hlim : i.limitEnable = false) :
    checkCleared dc level k status (i :: rest) =
      ((checkCleared dc level (k + 1) status rest).1,
        i :: (checkCleared dc level (k + 1) status rest).2) := by
  rw [checkCleared, if_neg (by simp [hlim])]

theorem checkCleared_active {k : ℕ} {status : Status} {i : EndstopInfo} {rest : List EndstopInfo}
    (hlim : i.limitEnable = true) (hlevel : level k = true) :
    checkCleared dc level k status (i :: rest) = (status, { i with debounce := 0 } :: rest) := by
  rw [checkCleared, if_pos hlim, if_pos hlevel]

theorem checkCleared_released {k : ℕ} {status : Status} {i : EndstopInfo} {rest : List EndstopInfo}
    (hlim : i.limitEnable = true) (hlevel : level k = false) {cleared : Status}
    (hcleared : cleared = if dc < i.debounce then .notHoming else status) :
    checkCleared dc level k status (i :: rest) =
      ((checkCleared dc level (k + 1) cleared rest).1,
        { i with debounce := (i.debounce + 1) % 2 ^ 16 } ::
          (checkCleared dc level (k + 1) cleared rest).2) := by
  rw [checkCleared, if_pos hlim, if_neg (by simp [hlevel]), hcleared]

theorem checkCleared_limits {k : ℕ} {status : Status} {l : List EndstopInfo} :
    (checkCleared dc level k status l).2.map EndstopInfo.limitEnable =
      l.map EndstopInfo.limitEnable := by
  induction l generalizing k status with
  | nil => rfl
  | cons i rest ih =>
    cases hlim : i.limitEnable with
    | false => rw [checkCleared_off hlim, List.map_cons, ih, List.map_cons]
    | true =>
      cases hlevel : level k with
      | true => rw [checkCleared_active hlim hlevel]; rfl
      | false => rw [checkCleared_released hlim hlevel rfl, List.map_cons, ih, List.map_cons]

theorem countedPast_cons {i : EndstopInfo} {rest : List EndstopInfo} :
    CountedPast dc level (i :: rest) ↔
      (i.limitEnable = true → level 0 = false) ∧
        (i.limitEnable = true ∧ dc < i.debounce ∨ CountedPast dc (fun m => level (m + 1)) rest) := by
  constructor
  · rintro ⟨j, i', hget, hlim, hcount, hcomes⟩
    rw [List.map_cons, comes_cons] at hcomes
    refine ⟨hcomes.1, ?_⟩
    cases j with
    | zero =>
      obtain rfl : i = i' := by simpa using hget
      exact .inl ⟨hlim, hcount⟩
    | succ j => exact .inr ⟨j, i', by simpa using hget, hlim, hcount, hcomes.2⟩
  · rintro ⟨hzero, ⟨hlim, hcount⟩ | ⟨j, i', hget, hlim, hcount, hcomes⟩⟩
    · exact ⟨0, i, rfl, hlim, hcount, comes_cons.2 ⟨hzero, comes_zero⟩⟩
    · exact ⟨j + 1, i', by simpa using hget, hlim, hcount, comes_cons.2 ⟨hzero, hcomes⟩⟩

theorem checkCleared_status {k : ℕ} {status : Status} {l : List EndstopInfo} :
    (checkCleared dc level k status l).1 ≠ .limitTriggered ↔
      status ≠ .limitTriggered ∨ CountedPast dc (fun m => level (k + m)) l := by
  induction l generalizing k status with
  | nil => simp [checkCleared, CountedPast]
  | cons i rest ih =>
    have hshift : (fun m => level (k + (m + 1))) = fun m => level (k + 1 + m) := by
      funext m
      rw [Nat.add_assoc, Nat.add_comm 1]
    rw [countedPast_cons, hshift, Nat.add_zero]
    cases hlim : i.limitEnable with
    | false => simp [checkCleared_off hlim, ih]
    | true =>
      cases hlevel : level k with
      | true => simp [checkCleared_active hlim hlevel]
      | false =>
        rw [checkCleared_released hlim hlevel rfl, ih]
        by_cases hcount : dc < i.debounce <;> simp [hcount]

theorem checkCleared_getElem {k : ℕ} {status : Status} {l : List EndstopInfo} {j : ℕ} {i : EndstopInfo}
    (hget : l[j]? = some i) (hlim : i.limitEnable = true) :
    (checkCleared dc level k status l).2[j]? = some
      (if Comes (l.map EndstopInfo.limitEnable) (fun m => level (k + m)) j then
        { i with debounce := if level (k + j) then 0 else (i.debounce + 1) % 2 ^ 16 }
      else i) := by
  induction l generalizing k status j with
  | nil => simp at hget
  | cons head rest ih =>
    cases j with
    | zero =>
      obtain rfl : head = i := by simpa using hget
      cases hlevel : level k with
      | true => simp [checkCleared_active hlim hlevel]
      | false => simp [checkCleared_released hlim hlevel rfl]
    | succ j =>
      have hrest : rest[j]? = some i := by simpa using hget
      have hshift : (fun m => level (k + (m + 1))) = fun m => level (k + 1 + m) := by
        funext m
        rw [Nat.add_assoc, Nat.add_comm 1]
      have hcomes : Comes ((head :: rest).map EndstopInfo.limitEnable) (fun m => level (k + m)) (j + 1) ↔
          (head.limitEnable = true → level k = false) ∧
            Comes (rest.map EndstopInfo.limitEnable) (fun m => level (k + 1 + m)) j := by
        rw [List.map_cons, comes_cons, hshift, Nat.add_zero]
      have hindex : k + (j + 1) = k + 1 + j := by omega
      -- an active switch in front ends the walk, and one that is no limit is passed over
      simp only [hcomes, hindex]
      cases hhead : head.limitEnable with
      | false => simp [checkCleared_off hhead, ih hrest]
      | true =>
        cases hlevel : level k with
        | true => simpa [checkCleared_active hhead hlevel] using hrest
        | false => simp [checkCleared_released hhead hlevel rfl, ih hrest]

end checkCleared

section alarm

variable {s t : Endstops} {inputs : IdleInputs} {r : ℕ}

theorem idle_alarmed (h : s.status = .limitTriggered) :
    idle s inputs =
      { s with
        status := (checkCleared s.debounceCount inputs.level 0 .limitTriggered s.endstops).1
        endstops := (checkCleared s.debounceCount inputs.level 0 .limitTriggered s.endstops).2 } := by
  rw [idle, onIdle, if_pos h, h]

/-- A call leaves the state exactly when a switch that it comes to was counted out. -/
theorem idle_clears_iff (h : s.status = .limitTriggered) :
    (idle s inputs).status ≠ .limitTriggered ↔ CountedOut s inputs.level := by
  rw [idle_alarmed h]
  simp only [checkCleared_status, Nat.zero_add]
  exact ⟨fun hor => hor.resolve_left fun hne => hne rfl, .inr⟩

theorem idle_limits (h : s.status = .limitTriggered) : (idle s inputs).limits = s.limits := by
  rw [idle_alarmed h]
  exact checkCleared_limits

theorem idle_debounceCount (h : s.status = .limitTriggered) :
    (idle s inputs).debounceCount = s.debounceCount := by
  rw [idle_alarmed h]

/-- The switch `r` has been counted at most as often as it was seen released in a row. -/
def CountedAt (r : ℕ) (s : Endstops) (seen : List Bool) : Prop :=
  ∃ i, s.endstops[r]? = some i ∧ i.limitEnable = true ∧ i.debounce ≤ trailing seen

theorem countedAt_idle {seen : List Bool} (h : s.status = .limitTriggered) (hat : CountedAt r s seen)
    (hread : ¬ Comes s.limits inputs.level r → ∀ i, s.endstops[r]? = some i → i.debounce = 0) :
    CountedAt r (idle s inputs) (seen ++ [seenReleased s.limits r inputs]) := by
  obtain ⟨i, hget, hlim, hle⟩ := hat
  have hafter := @checkCleared_getElem s.debounceCount inputs.level 0 .limitTriggered _ _ _ hget hlim
  simp only [Nat.zero_add] at hafter
  rw [idle_alarmed h]
  refine ⟨_, hafter, ?_, ?_⟩
  · split <;> exact hlim
  · split
    · rename_i hcomes
      cases hlevel : inputs.level r with
      | true => exact Nat.zero_le _
      | false =>
        have hcomes' : Comes s.limits inputs.level r := hcomes
        have hseen : seenReleased s.limits r inputs = true := by simp [seenReleased, hcomes', hlevel]
        rw [hseen, trailing_concat_true]
        have hmod : (i.debounce + 1) % 2 ^ 16 ≤ i.debounce + 1 := Nat.mod_le _ _
        exact hmod.trans (Nat.succ_le_succ hle)
    · rename_i hcomes
      rw [hread hcomes i hget]
      exact Nat.zero_le _

theorem limitHit_spec {dc k j : ℕ} {l : List EndstopInfo} (h : limitHit dc inputs k l = some j) :
    ∃ m i, j = k + m ∧ l[m]? = some i ∧ i.limitEnable = true := by
  induction l generalizing k with
  | nil => cases h
  | cons i rest ih =>
    rw [limitHit] at h
    split at h
    · rename_i hit
      obtain rfl := Option.some.inj h
      simp only [limitWatched, Bool.and_eq_true] at hit
      exact ⟨0, i, rfl, rfl, hit.1.1.1⟩
    · obtain ⟨m, i', rfl, hget, hlim⟩ := ih h
      exact ⟨m + 1, i', by omega, hget, hlim⟩

theorem limits_modify {l : List EndstopInfo} {k : ℕ} :
    (l.modify k fun i => { i with debounce := 0 }).map EndstopInfo.limitEnable =
      l.map EndstopInfo.limitEnable := by
  induction l generalizing k with
  | nil => simp
  | cons i rest ih => cases k <;> simp [ih]

/-- What the alarm starts with. -/
theorem Raises.idle_eq (h : Raises s inputs r) :
    idle s inputs = { s with status := .limitTriggered, endstops := s.clearDebounce r } := by
  rw [idle, onIdle, if_neg h.running.1, if_neg (by simp [h.running.2]), h.no_motorAlarm, h.hit]

theorem Raises.countedAt (h : Raises s inputs r) : CountedAt r (idle s inputs) [] := by
  have hit := h.hit
  rw [raises] at hit
  split at hit
  · obtain ⟨m, i, hm, hget, hlim⟩ := limitHit_spec hit
    obtain rfl : r = m := by omega
    rw [h.idle_eq]
    refine ⟨{ i with debounce := 0 }, ?_, hlim, Nat.zero_le _⟩
    simp [Endstops.clearDebounce, hget]
  · cases hit

theorem countedAt_run {calls : List IdleInputs} {seen : List Bool}
    (htrig : AllOk idle (fun s _ => s.status = .limitTriggered) s calls)
    (hok : AllOk idle (Ordered r) s calls) (hat : CountedAt r s seen) :
    (calls.foldl idle s).limits = s.limits ∧
      (calls.foldl idle s).debounceCount = s.debounceCount ∧
      CountedAt r (calls.foldl idle s) (seen ++ calls.map (seenReleased s.limits r)) := by
  induction calls generalizing s seen with
  | nil => exact ⟨rfl, rfl, by simpa using hat⟩
  | cons inputs calls ih =>
    obtain ⟨hlimits, hcount, hlast⟩ := ih htrig.2 hok.2 (countedAt_idle htrig.1 hat hok.1.read)
    rw [idle_limits htrig.1] at hlimits hlast
    rw [idle_debounceCount htrig.1] at hcount
    refine ⟨hlimits, hcount, ?_⟩
    rw [List.append_assoc] at hlast
    exact hlast

/-- With no counter past `debounce_count` in front of an active switch, a call that leaves the state
finds none. -/
theorem Ordered.allReleased (h : Ordered r s inputs) (hout : CountedOut s inputs.level) :
    AllReleased s.limits inputs.level := by
  obtain ⟨j, i, hget, hlim, hcount, hcomes⟩ := hout
  by_contra hactive
  rw [AllReleased] at hactive
  push Not at hactive
  -- The first active switch stands behind the one that was counted out.
  have hex : ∃ m, s.limits[m]? = some true ∧ inputs.level m = true := by
    obtain ⟨m, hm, hlevel⟩ := hactive
    exact ⟨m, hm, by simpa using hlevel⟩
  have hfirst : Comes s.limits inputs.level (Nat.find hex) := by
    intro m hm hlimit
    have hnot := Nat.find_min hex hm
    simpa [hlimit] using hnot
  obtain ⟨hlimit, hlevel⟩ := Nat.find_spec hex
  have hbehind : j < Nat.find hex := by
    by_contra hle
    have hreleased := hcomes (Nat.find hex) (by omega) hlimit
    rw [hlevel] at hreleased
    cases hreleased
  have hle := h.held _ hlimit hlevel hfirst j hbehind i hget hlim
  omega

/-- A machine with one limit switch keeps its counters ordered. -/
theorem ordered_of_only (honly : ∀ j, s.limits[j]? = some true → j = r) : Ordered r s inputs := by
  have hlimits {j : ℕ} {i : EndstopInfo} (hget : s.endstops[j]? = some i)
      (hlim : i.limitEnable = true) : s.limits[j]? = some true := by
    rw [Endstops.limits, List.getElem?_map, hget, Option.map_some, hlim]
  refine ⟨?_, ?_, ?_⟩
  · intro m hm _ _ j hj i hget hlim
    have hboth : j = m := (honly j (hlimits hget hlim)).trans (honly m hm).symm
    omega
  · intro j i hget hlim _ hcount i' hget'
    obtain rfl := honly j (hlimits hget hlim)
    obtain rfl : i = i' := by rw [hget] at hget'; exact Option.some.inj hget'
    exact Nat.le_of_lt hcount
  · intro hread
    refine absurd (fun m hm hlim => ?_) hread
    exact absurd (honly m hlim) (Nat.ne_of_lt hm)

/-- Two limit switches, where the second raised the alarm. -/
theorem ordered_of_two {i₀ i₁ : EndstopInfo} (hends : s.endstops = [i₀, i₁])
    (hlim : i₀.limitEnable = true ∧ i₁.limitEnable = true)
    (hheld : inputs.level 0 = false → inputs.level 1 = true → i₀.debounce ≤ s.debounceCount)
    (hraiser : inputs.level 0 = false → s.debounceCount < i₀.debounce →
      s.debounceCount ≤ i₁.debounce)
    (hread : inputs.level 0 = true → i₁.debounce = 0) : Ordered 1 s inputs := by
  have hlimits : s.limits = [true, true] := by
    rw [Endstops.limits, hends, List.map_cons, List.map_singleton, hlim.1, hlim.2]
  -- With two switches the only pair in question is the first before the second.
  have hcomes (hzero : inputs.level 0 = false) : Comes s.limits inputs.level 1 := by
    intro m hm _
    obtain rfl : m = 0 := by omega
    exact hzero
  have hreleased (j : ℕ) (h : Comes s.limits inputs.level (j + 1)) : inputs.level 0 = false :=
    h 0 (Nat.succ_pos j) (by rw [hlimits]; rfl)
  refine ⟨fun m hm hlevel hfirst j hj i hget _ => ?_, fun j i hget _ hfirst hcount i' hget' => ?_,
    fun hnot i hget => ?_⟩
  · have hlt : m < 2 := by
      by_contra hle
      rw [hlimits, List.getElem?_eq_none (not_lt.mp hle)] at hm
      cases hm
    obtain rfl : m = 1 := by omega
    obtain rfl : j = 0 := by omega
    obtain rfl : i₀ = i := by simpa [hends] using hget
    exact hheld (hreleased 0 hfirst) hlevel
  · obtain rfl : i₁ = i' := by simpa [hends] using hget'
    cases j with
    | zero =>
      obtain rfl : i₀ = i := by simpa [hends] using hget
      exact hraiser (hreleased 0 hfirst) hcount
    | succ j =>
      cases j with
      | zero =>
        obtain rfl : i₁ = i := by simpa [hends] using hget
        exact Nat.le_of_lt hcount
      | succ j => simp [hends] at hget
  · obtain rfl : i₁ = i := by simpa [hends] using hget
    exact hread (by simpa using mt hcomes hnot)

/-- A call that leaves the state `LIMIT_TRIGGERED`, in a run whose counters are ordered: no limit
switch is active, and the one that raised the alarm was seen released long enough. -/
theorem limitAlarm_clears_released {calls : List IdleInputs} {last : IdleInputs}
    (hraise : Raises s inputs r)
    (htrig : AllOk idle (fun s _ => s.status = .limitTriggered) (idle s inputs) (calls ++ [last]))
    (hok : AllOk idle (Ordered r) (idle s inputs) (calls ++ [last]))
    (hclear : ((calls ++ [last]).foldl idle (idle s inputs)).status ≠ .limitTriggered) :
    AllReleased s.limits last.level ∧
      s.debounceCount < trailing ((calls ++ [last]).map (seenReleased s.limits r)) := by
  obtain ⟨htrigCalls, htrigLast, -⟩ := allOk_append.1 htrig
  obtain ⟨hokCalls, hokLast, -⟩ := allOk_append.1 hok
  obtain ⟨hlimits, hcount, hat⟩ := countedAt_run htrigCalls hokCalls hraise.countedAt
  have hstart : (idle s inputs).limits = s.limits := by
    rw [hraise.idle_eq, Endstops.limits, Endstops.clearDebounce]
    exact limits_modify
  have hdc : (idle s inputs).debounceCount = s.debounceCount := by rw [hraise.idle_eq]
  rw [hstart] at hlimits hat
  rw [hdc] at hcount
  rw [List.foldl_append] at hclear
  have hout := (idle_clears_iff htrigLast).1 hclear
  have hall := hokLast.allReleased hout
  rw [hlimits] at hall
  obtain ⟨i, hget, hlim, hle⟩ := hat
  obtain ⟨j, i', hget', hlim', hpast, hcomesPast⟩ := hout
  have hraiser := hokLast.raiser j i' hget' hlim' hcomesPast hpast i hget
  rw [hcount] at hraiser
  -- the switch that raised the alarm is released in the last call as well
  have hr : s.limits[r]? = some true := by
    rw [← hlimits, Endstops.limits, List.getElem?_map, hget, Option.map_some, hlim]
  have hcomes : Comes s.limits last.level r := fun m _ hm => hall m hm
  have hseen : seenReleased s.limits r last = true := by
    simp [seenReleased, hcomes, hall r hr]
  refine ⟨hall, ?_⟩
  rw [List.map_append, List.map_singleton, hseen, trailing_concat_true]
  rw [List.nil_append] at hle
  omega

end alarm

/-- A call on a running machine whose motors move, with these switches held. -/
def holding (held : ℕ → Bool) : IdleInputs where
  readings k _ := held k
  alarmReadings _ _ := false
  isMoving _ := true
  isHalted := false
  stepperAlarmsEnabled := false
  disableEndstops := false
  rotaryFunction := false

def limitSwitches (axes : List AxisLetter) : Endstops where
  endstops := axes.map fun axis => { axis := axis, limitEnable := true }
  debounceCount := 1

/-- The switch of Y is hit and held for a call, that of X is not touched; the third call clears the
alarm. -/
theorem limitAlarm_clears_released_twoSwitches :
    AllReleased (limitSwitches [.x, .y]).limits (holding fun _ => false).level ∧
      1 < trailing (([holding fun k => k = 1, holding fun _ => false] ++
        [holding fun _ => false]).map (seenReleased (limitSwitches [.x, .y]).limits 1)) :=
  @limitAlarm_clears_released (limitSwitches [.x, .y]) (holding fun k => k = 1) 1
    [holding fun k => k = 1, holding fun _ => false] (holding fun _ => false)
    ⟨by decide, by decide, by decide⟩ ⟨by decide, by decide, by decide, trivial⟩
    ⟨ordered_of_two rfl (by decide) (by decide) (by decide) (by decide),
      ordered_of_two rfl (by decide) (by decide) (by decide) (by decide),
      ordered_of_two rfl (by decide) (by decide) (by decide) (by decide), trivial⟩
    (by decide)

/-- The switch of Y raised the alarm and is still held when that of X, which is released, clears it. -/
theorem limitAlarm_clears_held :
    Raises (limitSwitches [.x, .y]) (holding fun k => k = 1) 1 ∧
      AllOk idle (fun s _ => s.status = .limitTriggered)
        (idle (limitSwitches [.x, .y]) (holding fun k => k = 1))
        (List.replicate 3 (holding fun k => k = 1)) ∧
      ((List.replicate 3 (holding fun k => k = 1)).foldl idle
        (idle (limitSwitches [.x, .y]) (holding fun k => k = 1))).status = .notHoming ∧
      ¬ AllReleased (limitSwitches [.x, .y]).limits (holding fun k => k = 1).level :=
  ⟨⟨by decide, by decide, by decide⟩, ⟨by decide, by decide, by decide, trivial⟩, by decide,
    fun h => absurd (h 1 rfl) (by decide)⟩

end CarveraFirmware.Homing
