import Mathlib
import CarveraFirmware.Clients.JobStart

/-!
# When a held job may start

`StartLog` is what a run amounts to for the start now held, in true times and unbounded counts:
what was asked of it, which clients have said they are ready for it, and from when its limit
counts. The wait reports that the job may start only when the log allows it.
-/

namespace CarveraFirmware.Clients

open WrapClock

/-- The history of the start now held. -/
structure StartLog where
  /-- Starts held so far, this one included. -/
  begun : Nat := 0
  starter : UInt64 := 0
  /-- A cancel was taken. -/
  cancelled : Bool := false
  /-- Second ticks since the last transfer ended, if one did. -/
  ticks : Option Nat := none
  /-- When hashing ended or the last keep-waiting was taken, whichever came later. -/
  limitFrom : Option Nat := none
  /-- A keep-waiting was taken in the transfer now running; it counts from its end. -/
  asked : Bool := false
  /-- The client at this seat has sent a ready message for this start. -/
  ready : Seat → Bool := fun _ => false

namespace StartLog

/-- A ready message that carries the id of the start now held. -/
def names (payload : List UInt8) (begun : Nat) : Bool :=
  match payload with
  | high :: low :: _ => (Frames.be16 high low).toNat == begun
  | _ => false

def step (log : StartLog) (s : HeldStart) (t : Nat) : StartEvent → StartLog
  | .begins starter => { begun := log.begun + 1, starter := starter.id }
  | .ready seat payload =>
    if s.wait.pending && (s.table.clientAt seat).any (·.identified) && names payload log.begun then
      { log with ready := Function.update log.ready seat true }
    else log
  | .keepWaiting sender =>
    if s.wait.pending && sender == log.starter then
      { log with limitFrom := log.limitFrom.map fun _ => t, asked := log.asked || s.transferring }
    else log
  | .cancel =>
    if s.wait.pending then { log with cancelled := true } else log
  | .hash count =>
    if s.wait.pending && log.limitFrom.isNone && count ≤ 0 then
      { log with limitFrom := some t }
    else log
  | .transferEnds =>
    if s.wait.pending then
      { log with
        ticks := some 0
        limitFrom := if log.asked then log.limitFrom.map fun _ => t else log.limitFrom
        asked := false }
    else log
  | .secondTick =>
    if s.wait.pending && !s.transferring then { log with ticks := log.ticks.map (· + 1) } else log
  | .leaves i => { log with ready := Function.update log.ready (.wifi i) false }
  | .clearsWifi => { log with ready := fun seat => seat == .usb && log.ready seat }
  | .clearsUsb => { log with ready := Function.update log.ready .usb false }
  | .usbPresent present =>
    if present then log else { log with ready := Function.update log.ready .usb false }
  | .transferStarts | .mainLoop | .ends | .joins _ | .hello _ _ => log

end StartLog

/-- The system and its history after timed events. -/
def HeldStart.run (limitS : UInt8) (events : List (Nat × StartEvent)) : HeldStart × StartLog :=
  events.foldl (fun x e => (x.1.step e.1 e.2, x.2.step x.1 e.1 e.2))
    ({ wait := { limitS := limitS } }, {})

/-- The events come in the order of their times, none after `now`. -/
def InOrder (events : List (Nat × StartEvent)) (now : Nat) : Prop :=
  (events.map Prod.fst ++ [now]).Pairwise (· ≤ ·)

/-- How many starts were held in a run. -/
def beginCount (events : List (Nat × StartEvent)) : Nat :=
  (events.filter fun e => match e.2 with
    | .begins _ => true
    | _ => false).length

/-! ## What a check needs -/

/-- The answers on which `Player` starts the job. -/
def StartCheck.starts : StartCheck → Bool
  | .allReady | .timeLimit | .timeLimitInTransfer => true
  | .keepWaiting | .timedOut | .starterLeft | .cancelled => false

theorem notReady_length_zero {w : JobStartWait} {table : ClientTable}
    (h : (w.notReady table (maxWifiClients + 1)).length = 0) {seat : Seat} {c : Client}
    (hc : table.clientAt seat = some c) : w.awaited c = false := by
  by_contra haw
  have hmem : c ∈ ClientTable.slots.filterMap table.wifi ++ table.usb.toList := by
    cases seat with
    | wifi i =>
      exact List.mem_append_left _ (List.mem_filterMap.mpr ⟨i, ClientTable.mem_slots i, hc⟩)
    | usb => exact List.mem_append_right _ (Option.mem_toList.mpr hc)
  have hfilter := List.mem_filter.mpr ⟨hmem, by simpa using haw⟩
  have hpos := List.length_pos_of_mem hfilter
  rw [JobStartWait.notReady, List.length_take, List.length_map] at h
  have hcap : 0 < maxWifiClients + 1 := by decide
  omega

/-- The limit is read as run out only once it truly has. -/
theorem secondsLeft_zero {w : JobStartWait} {t now : Nat} (hh : w.hashing = false)
    (hstart : w.startedUs = stamp t) (hle : t ≤ now) (h : w.secondsLeft (stamp now) = 0) :
    t + w.limitS.toNat * 1000000 ≤ now := by
  have hl := w.limitS.toNat_lt
  have hlimit : (w.limitS.toUInt32 * microsecondsPerSecond).toNat = w.limitS.toNat * 1000000 := by
    rw [UInt32.toNat_mul, UInt8.toNat_toUInt32]
    simp only [microsecondsPerSecond, UInt32.reduceToNat]
    omega
  have helapsed : (stamp now - w.startedUs).toNat ≤ now - t := by
    rw [hstart, stamp_sub_toNat hle]
    exact Nat.mod_le _ _
  by_cases hge : stamp now - w.startedUs ≥ w.limitS.toUInt32 * microsecondsPerSecond
  · have hge' := UInt32.le_iff_toNat_le.mp hge
    omega
  · -- otherwise the rounded-up quotient is between 1 and the limit, so it is not 0 as a byte
    exfalso
    have hlt := UInt32.lt_iff_toNat_lt.mp (UInt32.not_le.mp hge)
    rw [hlimit] at hlt
    have hone : microsecondsPerSecond.toNat = 1000000 := rfl
    have hquot : ((w.limitS.toUInt32 * microsecondsPerSecond - (stamp now - w.startedUs)
        + microsecondsPerSecond - 1) / microsecondsPerSecond).toNat
        = (w.limitS.toNat * 1000000 - (stamp now - w.startedUs).toNat + 999999) / 1000000 := by
      have hsub : (w.limitS.toUInt32 * microsecondsPerSecond - (stamp now - w.startedUs)).toNat
          = w.limitS.toNat * 1000000 - (stamp now - w.startedUs).toNat := by
        rw [UInt32.toNat_sub_of_le _ _ (by rw [UInt32.le_iff_toNat_le, hlimit]; omega), hlimit]
      have hadd : (w.limitS.toUInt32 * microsecondsPerSecond - (stamp now - w.startedUs)
          + microsecondsPerSecond).toNat
          = w.limitS.toNat * 1000000 - (stamp now - w.startedUs).toNat + 1000000 := by
        rw [UInt32.toNat_add, hsub, hone]
        omega
      rw [UInt32.toNat_div, UInt32.toNat_sub_of_le _ _
        (by rw [UInt32.le_iff_toNat_le, hadd]; exact Nat.le_add_left_of_le (by decide)), hadd, hone,
        UInt32.toNat_one, Nat.add_sub_assoc (by decide)]
    have hz := congrArg UInt8.toNat h
    rw [JobStartWait.secondsLeft, if_neg (by simp [hh])] at hz
    simp only [if_neg hge] at hz
    rw [UInt32.toNat_toUInt8, hquot] at hz
    simp only [UInt8.reduceToNat] at hz
    omega

/-! ## What each operation does -/

namespace JobStartWait

variable {w : JobStartWait} {now : UInt32}

theorem hashStep_more {count : Int} (hh : w.hashing = true) (hc : 0 < count) :
    (w.hashStep count now).2 = { w with hashedSize := w.hashedSize + UInt32.ofInt count } := by
  rw [hashStep, if_neg (by simp [hh]), if_pos hc]

theorem hashStep_done {count : Int} (hh : w.hashing = true) (hc : ¬ 0 < count) :
    (w.hashStep count now).2 = { w with
      hashComplete := if count = 0 then true else w.hashComplete
      hashingFlag := false
      startedUs := now } := by
  rw [hashStep, if_neg (by simp [hh]), if_neg hc]

theorem hashStep_idle {count : Int} (hh : w.hashing = false) : (w.hashStep count now).2 = w := by
  rw [hashStep, if_pos (by simp [hh])]

theorem keepWaiting_taken (hp : w.pending = true) :
    (w.keepWaiting w.starterId now).2 = { w with
      startedUs := if w.hashingFlag then w.startedUs else now
      timedOutFlag := false
      limitRanOutInTransfer := false } := by
  rw [keepWaiting, if_neg (by simp [hp])]
  cases hf : w.hashingFlag <;> simp [hashing, hp, hf]

theorem keepWaiting_ignored {sender : UInt64} (h : w.pending = false ∨ sender ≠ w.starterId) :
    (w.keepWaiting sender now).2 = w := by
  rw [keepWaiting, if_pos (by simpa using h)]

theorem requestKeepWaiting_taken (hp : w.pending = true) :
    (w.requestKeepWaiting w.starterId).2 = { w with keepWaitingRequested := true } := by
  rw [requestKeepWaiting, if_neg (by simp [hp])]

theorem requestKeepWaiting_ignored {sender : UInt64}
    (h : w.pending = false ∨ sender ≠ w.starterId) : (w.requestKeepWaiting sender).2 = w := by
  rw [requestKeepWaiting, if_pos (by simpa using h)]

/-- At the end of a transfer the wait settles again, and a keep-waiting taken in it counts. -/
theorem transferEnded_pending (hp : w.pending = true) : ∃ timedOut ranOut,
    w.transferEnded now = { w with
      settleTicks := 2
      keepWaitingRequested := false
      startedUs := if w.keepWaitingRequested && !w.hashingFlag then now else w.startedUs
      timedOutFlag := timedOut
      limitRanOutInTransfer := ranOut } := by
  have hran : ∀ v : JobStartWait, ∃ ranOut,
      (if !v.hashing && v.secondsLeft now == 0 then { v with limitRanOutInTransfer := true } else v)
        = { v with limitRanOutInTransfer := ranOut } := by
    intro v
    by_cases hv : (!v.hashing && v.secondsLeft now == 0) = true
    · exact ⟨true, if_pos hv⟩
    · exact ⟨v.limitRanOutInTransfer, if_neg hv⟩
  simp only [transferEnded, hp, Bool.not_true, Bool.false_eq_true, if_false]
  by_cases hk : w.keepWaitingRequested = true
  · rw [if_pos hk]
    have htaken := @keepWaiting_taken
      { w with settleTicks := settleTicksAfterTransfer, keepWaitingRequested := false } now hp
    simp only [hp] at htaken
    rw [htaken]
    obtain ⟨ranOut, h⟩ := hran _
    refine ⟨false, ranOut, h.trans ?_⟩
    cases w.hashingFlag <;> simp [hk, settleTicksAfterTransfer]
  · rw [if_neg hk]
    obtain ⟨ranOut, h⟩ := hran { w with settleTicks := settleTicksAfterTransfer }
    refine ⟨w.timedOutFlag, ranOut, ?_⟩
    simp only [hp] at h
    rw [h]
    simp [hk, settleTicksAfterTransfer]

end JobStartWait

/-! ## The wait keeps the log -/

/-- What the table remembers of ready messages is no more than the log has. -/
def ReadyNoted (table : ClientTable) (log : StartLog) : Prop :=
  ∀ seat c, table.clientAt seat = some c → c.jobStartReady.toNat ≤ log.begun ∧
    (0 < log.begun → c.jobStartReady.toNat = log.begun → log.ready seat)

/-- The wait's fields at true time `now` say what the log says. -/
structure Kept (s : HeldStart) (log : StartLog) (now : Nat) : Prop where
  begun : s.wait.startId.toNat = log.begun
  some_begun : s.wait.pending → 0 < log.begun
  starter : s.wait.starterId = log.starter
  cancelled : s.wait.pending → s.wait.cancelRequested = log.cancelled
  asked : s.wait.keepWaitingRequested = log.asked
  asked_transferring : s.wait.pending → log.asked → s.transferring
  settles : s.wait.settleTicks.toNat = (log.ticks.map (2 - ·)).getD 0
  hashing : s.wait.pending → s.wait.hashingFlag = log.limitFrom.isNone
  limit : s.wait.pending → ∀ t, log.limitFrom = some t →
    t ≤ now ∧ (log.asked = false → s.wait.startedUs = stamp t)
  ready : ReadyNoted s.table log

section

variable {s : HeldStart} {log : StartLog} {now t : Nat}

theorem Kept.later (h : Kept s log now) (hle : now ≤ t) : Kept s log t :=
  { h with limit := fun hp t' hl => ⟨(h.limit hp t' hl).1.trans hle, (h.limit hp t' hl).2⟩ }

/-- Only the clients change. -/
theorem Kept.ofTable (h : Kept s log now) {table : ClientTable} {ready : Seat → Bool}
    (hr : ReadyNoted table { log with ready := ready }) :
    Kept { s with table := table } { log with ready := ready } now :=
  { h with ready := hr }

theorem Kept.stop (h : Kept s log now) : Kept { s with wait := s.wait.stop } log now :=
  { h with
    some_begun := by simp [JobStartWait.stop]
    cancelled := by simp [JobStartWait.stop]
    asked_transferring := by simp [JobStartWait.stop]
    hashing := by simp [JobStartWait.stop]
    limit := by simp [JobStartWait.stop] }

theorem Kept.begins (h : Kept s log now) (starter : Identity) (hb : log.begun + 1 < 65536) :
    Kept (s.step now (.begins starter)) (log.step s now (.begins starter)) now := by
  have hnext : (s.wait.startId + 1).toNat = log.begun + 1 := by
    rw [UInt16.toNat_add, h.begun]
    exact Nat.mod_eq_of_lt hb
  have hne : s.wait.startId + 1 ≠ 0 := by
    intro hz
    rw [hz] at hnext
    simp at hnext
  refine ⟨?_, fun _ => Nat.succ_pos _, rfl, fun _ => rfl, rfl, by simp [StartLog.step], rfl, fun _ => rfl,
    by simp [StartLog.step], ?_⟩
  · simp only [HeldStart.step, JobStartWait.begin, if_neg hne, StartLog.step, hnext]
  · -- every ready message so far was for an earlier start
    intro seat c hc
    have hle := (h.ready seat c hc).1
    refine ⟨Nat.le_succ_of_le hle, fun _ heq => ?_⟩
    simp only [StartLog.step] at heq
    omega

theorem Kept.hash (h : Kept s log now) (count : Int) :
    Kept (s.step now (.hash count)) (log.step s now (.hash count)) now := by
  by_cases hh : s.wait.hashing = true
  · obtain ⟨hp, hf⟩ : s.wait.pending = true ∧ s.wait.hashingFlag = true := by
      simpa [JobStartWait.hashing] using hh
    have hnone : log.limitFrom.isNone = true := (h.hashing hp).symm.trans hf
    by_cases hc : 0 < count
    · have hlog : log.step s now (.hash count) = log := if_neg (by simp [hc])
      rw [hlog, HeldStart.step, JobStartWait.hashStep_more hh hc]
      exact { h with }
    · have hlog : log.step s now (.hash count) = { log with limitFrom := some now } :=
        if_pos (by simp [hp, hnone, not_lt.mp hc])
      rw [hlog, HeldStart.step, JobStartWait.hashStep_done hh hc]
      refine { h with
        hashing := fun _ => rfl
        limit := fun _ t ht => ?_ }
      obtain rfl := Option.some.inj ht
      exact ⟨le_rfl, fun _ => rfl⟩
  · have hlog : log.step s now (.hash count) = log := by
      refine if_neg fun hlog => hh ?_
      simp only [Bool.and_eq_true] at hlog
      simp [JobStartWait.hashing, hlog.1.1, h.hashing hlog.1.1, hlog.1.2]
    rw [hlog, HeldStart.step, JobStartWait.hashStep_idle (by simpa using hh)]
    exact h

theorem Kept.keepWaiting (h : Kept s log now) (sender : UInt64) :
    Kept (s.step now (.keepWaiting sender)) (log.step s now (.keepWaiting sender)) now := by
  by_cases hign : s.wait.pending = false ∨ sender ≠ s.wait.starterId
  · have hlog : log.step s now (.keepWaiting sender) = log :=
      if_neg (by rw [← h.starter]; rcases hign with hp | hp <;> simp [hp])
    rw [hlog, HeldStart.step, JobStartWait.keepWaiting_ignored hign,
      JobStartWait.requestKeepWaiting_ignored hign, ite_self]
    exact h
  · obtain ⟨hp, hs⟩ := not_or.mp hign
    rw [Bool.not_eq_false] at hp
    obtain rfl := not_not.mp hs
    have hlog : log.step s now (.keepWaiting s.wait.starterId) = { log with
        limitFrom := log.limitFrom.map fun _ => now
        asked := log.asked || s.transferring } := if_pos (by simp [hp, h.starter])
    have hnone : s.wait.hashingFlag = (log.limitFrom.map fun _ => now).isNone := by
      simpa using h.hashing hp
    rw [hlog, HeldStart.step]
    by_cases ht : s.transferring = true
    · -- it is noted, and counts from the end of the transfer
      rw [if_pos ht, JobStartWait.requestKeepWaiting_taken hp]
      refine { h with
        asked := by simp [ht]
        asked_transferring := fun _ _ => ht
        hashing := fun _ => hnone
        limit := fun _ t hlim => ?_ }
      obtain ⟨t', -, rfl⟩ := Option.map_eq_some_iff.mp hlim
      exact ⟨le_rfl, by simp [ht]⟩
    · have hfalse : s.transferring = false := by simpa using ht
      rw [if_neg ht, JobStartWait.keepWaiting_taken hp]
      refine { h with
        asked := by simp [hfalse, h.asked]
        asked_transferring := fun _ ha => h.asked_transferring hp (by simpa [hfalse] using ha)
        hashing := fun _ => hnone
        limit := fun _ t hlim => ?_ }
      obtain ⟨t', hlim', rfl⟩ := Option.map_eq_some_iff.mp hlim
      rw [hlim'] at hnone
      simp [hnone]

theorem Kept.cancel (h : Kept s log now) :
    Kept (s.step now .cancel) (log.step s now .cancel) now := by
  by_cases hp : s.wait.pending = true
  · have hlog : log.step s now .cancel = { log with cancelled := true } := if_pos hp
    rw [hlog, HeldStart.step]
    by_cases ht : s.transferring = true
    · rw [if_pos ht, JobStartWait.requestCancel, if_pos hp]
      exact { h with cancelled := fun _ => rfl }
    · rw [if_neg ht]
      exact { h.stop with cancelled := by simp [JobStartWait.stop] }
  · have hlog : log.step s now .cancel = log := if_neg hp
    rw [hlog, HeldStart.step, JobStartWait.requestCancel, if_neg hp]
    split
    · exact h
    · exact h.stop

theorem Kept.transferEnds (h : Kept s log now) :
    Kept (s.step now .transferEnds) (log.step s now .transferEnds) now := by
  simp only [HeldStart.step, StartLog.step]
  by_cases hp : s.wait.pending = true
  · obtain ⟨timedOut, ranOut, heq⟩ := JobStartWait.transferEnded_pending hp
    rw [heq, if_pos hp]
    refine { h with
      asked := rfl
      asked_transferring := by simp
      settles := rfl
      hashing := fun _ => ?_
      limit := fun _ t hlim => ?_ }
    · rw [h.hashing hp]
      split <;> simp
    · have hh := h.hashing hp
      simp only [h.asked] at hlim ⊢
      by_cases ha : log.asked = true
      · rw [if_pos ha] at hlim
        obtain ⟨t', hlim', rfl⟩ := Option.map_eq_some_iff.mp hlim
        rw [hlim'] at hh
        simp [ha, hh]
      · rw [if_neg ha] at hlim
        obtain ⟨hle, hstart⟩ := h.limit hp t hlim
        exact ⟨hle, fun _ => by simp [ha, hstart (by simpa using ha)]⟩
  · rw [JobStartWait.transferEnded, if_pos (by simpa using hp), if_neg hp]
    exact { h with asked_transferring := fun hp' => absurd hp' hp }

theorem Kept.secondTick (h : Kept s log now) :
    Kept (s.step now .secondTick) (log.step s now .secondTick) now := by
  simp only [HeldStart.step, StartLog.step]
  by_cases hp : (s.wait.pending && !s.transferring) = true
  · rw [if_pos hp, if_pos hp, JobStartWait.secondTick]
    have hs := h.settles
    -- the count of ticks stops at nought, and the log goes on
    by_cases hz : s.wait.settleTicks = 0
    · rw [if_neg (by simpa using hz)]
      refine { h with settles := ?_ }
      rw [hz] at hs ⊢
      cases hk : log.ticks with
      | none => rfl
      | some k =>
        rw [hk] at hs
        simp only [Option.map_some, Option.getD_some, UInt8.toNat_zero] at hs ⊢
        omega
    · rw [if_pos hz]
      refine { h with settles := ?_ }
      have hpos : 1 ≤ s.wait.settleTicks.toNat := by
        by_contra hlt
        exact hz (UInt8.toNat_inj.mp (by simp; omega))
      have hsub : (s.wait.settleTicks - 1).toNat = s.wait.settleTicks.toNat - 1 :=
        UInt8.toNat_sub_of_le _ _ (UInt8.le_iff_toNat_le.mpr hpos)
      rw [hsub]
      cases hk : log.ticks with
      | none =>
        rw [hk] at hs
        simp only [Option.map_none, Option.getD_none] at hs
        omega
      | some k =>
        rw [hk] at hs
        simp only [Option.map_some, Option.getD_some] at hs ⊢
        omega
  · rw [if_neg hp, if_neg hp]
    exact h

theorem Kept.mainLoop (h : Kept s log now) :
    Kept (s.step now .mainLoop) (log.step s now .mainLoop) now := by
  simp only [HeldStart.step, StartLog.step]
  by_cases hp : (s.wait.pending && !s.transferring) = true
  · rw [if_pos hp, HeldStart.checkHeldStart]
    cases s.wait.check s.table (stamp now) with
    | keepWaiting => exact h
    | timedOut =>
      have hmark : s.wait.markTimedOut = { s.wait with timedOutFlag := true } :=
        if_pos (by simpa using And.left (by simpa using hp))
      simp only [hmark]
      exact { h with }
    | allReady => exact h.stop
    | timeLimit => exact h.stop
    | timeLimitInTransfer => exact h.stop
    | starterLeft => exact h.stop
    | cancelled => exact h.stop
  · rw [if_neg hp]
    exact h

/-- Clients that come have no ready message, and those that stay keep theirs. -/
theorem ReadyNoted.change {table table' : ClientTable} (h : ReadyNoted table log)
    {ready : Seat → Bool} (hc : ∀ seat c, table'.clientAt seat = some c → c.jobStartReady = 0 ∨
      ∃ c₀, table.clientAt seat = some c₀ ∧ c₀.jobStartReady = c.jobStartReady ∧
        (log.ready seat → ready seat)) : ReadyNoted table' { log with ready := ready } := by
  intro seat c hseat
  obtain hz | ⟨c₀, hc₀, heq, hready⟩ := hc seat c hseat
  · rw [hz]
    exact ⟨Nat.zero_le _, fun hpos hz => absurd hz hpos.ne⟩
  · rw [← heq]
    exact ⟨(h seat c₀ hc₀).1, fun hpos hid => hready ((h seat c₀ hc₀).2 hpos hid)⟩

theorem ReadyNoted.joins (h : ReadyNoted s.table log) (address : Address) :
    ReadyNoted (s.table.addWifi address (stamp now)).2 log := by
  refine h.change fun seat c hc => ?_
  rw [ClientTable.addWifi] at hc
  split at hc
  · exact .inr ⟨c, hc, rfl, id⟩
  · split at hc
    next i hi =>
      by_cases hseat : seat = .wifi i
      · subst hseat
        rw [ClientTable.clientAt_setAt_self] at hc
        obtain rfl := Option.some.inj hc
        exact .inl rfl
      · rw [ClientTable.clientAt_setAt_ne _ _ hseat] at hc
        exact .inr ⟨c, hc, rfl, id⟩
    · exact .inr ⟨c, hc, rfl, id⟩

theorem ReadyNoted.usbPresent (h : ReadyNoted s.table log) (present : Bool) :
    ReadyNoted (s.table.setUsbPresent present (stamp now))
      (log.step s now (.usbPresent present)) := by
  cases present with
  | false =>
    refine h.change fun seat c hc => ?_
    cases seat with
    | wifi i => exact .inr ⟨c, hc, rfl, by simp⟩
    | usb => exact absurd hc (by simp [ClientTable.setUsbPresent, ClientTable.clientAt])
  | true =>
    refine h.change fun seat c hc => ?_
    by_cases husb : s.table.usb.isSome = true
    · rw [ClientTable.setUsbPresent, if_neg (by simp), if_pos husb] at hc
      exact .inr ⟨c, hc, rfl, id⟩
    · rw [ClientTable.setUsbPresent, if_neg (by simp), if_neg husb] at hc
      cases seat with
      | wifi i => exact .inr ⟨c, hc, rfl, id⟩
      | usb =>
        obtain rfl := Option.some.inj hc
        exact .inl rfl

theorem ReadyNoted.leaves (h : ReadyNoted s.table log) (i : Fin maxWifiClients) :
    ReadyNoted (s.table.removeWifi i) (log.step s now (.leaves i)) := by
  refine h.change fun seat c hc => ?_
  by_cases hseat : seat = .wifi i
  · rw [hseat, ClientTable.removeWifi, ClientTable.clientAt_setAt_self] at hc
    exact absurd hc (by simp)
  · rw [ClientTable.removeWifi, ClientTable.clientAt_setAt_ne _ _ hseat] at hc
    exact .inr ⟨c, hc, rfl, by simp [Function.update_of_ne hseat]⟩

theorem ReadyNoted.clearsWifi (h : ReadyNoted s.table log) :
    ReadyNoted s.table.clearWifi (log.step s now .clearsWifi) := by
  refine h.change fun seat c hc => ?_
  cases seat with
  | wifi i => exact absurd hc (by simp [ClientTable.clearWifi, ClientTable.clientAt])
  | usb => exact .inr ⟨c, hc, rfl, by simp⟩

theorem ReadyNoted.clearsUsb (h : ReadyNoted s.table log) :
    ReadyNoted s.table.clearUsbIdentity (log.step s now .clearsUsb) := by
  refine h.change fun seat c hc => ?_
  rw [ClientTable.clearUsbIdentity, ClientTable.clientAt_modifyAt] at hc
  by_cases hseat : seat = .usb
  · rw [if_pos hseat] at hc
    obtain ⟨c₀, -, rfl⟩ := Option.map_eq_some_iff.mp hc
    exact .inl rfl
  · rw [if_neg hseat] at hc
    exact .inr ⟨c, hc, rfl, by simp [Function.update_of_ne hseat]⟩

theorem acceptHello_jobStartReady (c : Client) (hello : Hello) :
    (HeldStart.acceptHello c hello).jobStartReady = c.jobStartReady := by
  unfold HeldStart.acceptHello
  by_cases hid : c.identified = true
  · simp [hid]
  · simp [hid, Client.setIdentity]

theorem ReadyNoted.hello (h : ReadyNoted s.table log) (seat : Seat) (hello : Hello) :
    ReadyNoted (s.table.modifyAt seat (HeldStart.acceptHello · hello)) log := by
  refine h.change fun seat' c hc => ?_
  rw [ClientTable.clientAt_modifyAt] at hc
  by_cases hseat : seat' = seat
  · rw [if_pos hseat] at hc
    obtain ⟨c₀, hc₀, rfl⟩ := Option.map_eq_some_iff.mp hc
    exact .inr ⟨c₀, by rw [hseat, hc₀], (acceptHello_jobStartReady c₀ hello).symm, id⟩
  · rw [if_neg hseat] at hc
    exact .inr ⟨c, hc, rfl, id⟩

theorem markReady_eq (w : JobStartWait) (c : Client) (payload : List UInt8) :
    (w.markReady c payload).2 =
      if w.pending && c.identified && StartLog.names payload w.startId.toNat then
        { c with jobStartReady := w.startId }
      else c := by
  match payload with
  | [] => simp [JobStartWait.markReady, StartLog.names]
  | [_] => simp [JobStartWait.markReady, StartLog.names]
  | high :: low :: _ =>
    simp only [JobStartWait.markReady, StartLog.names]
    by_cases hp : (w.pending && c.identified) = true
    · obtain ⟨hp', hi⟩ := Bool.and_eq_true_iff.mp hp
      by_cases hid : Frames.be16 high low = w.startId
      · simp [hp', hi, hid]
      · have hid' : ((Frames.be16 high low).toNat == w.startId.toNat) = false := by
          simpa [UInt16.toNat_inj] using hid
        simp [hp', hi, hid, hid']
    · have hfalse : (w.pending && c.identified) = false := by simpa using hp
      have hrefused : (!w.pending || !c.identified) = true := by rw [← Bool.not_and, hfalse]; rfl
      simp [hfalse, hrefused]

theorem Kept.ready_message (h : Kept s log now) (seat : Seat) (payload : List UInt8) :
    Kept (s.step now (.ready seat payload)) (log.step s now (.ready seat payload)) now := by
  by_cases htaken : (s.wait.pending && (s.table.clientAt seat).any (·.identified)
      && StartLog.names payload log.begun) = true
  · have hlog : log.step s now (.ready seat payload)
        = { log with ready := Function.update log.ready seat true } := if_pos htaken
    rw [hlog]
    refine h.ofTable fun seat' c hc => ?_
    rw [ClientTable.clientAt_modifyAt] at hc
    by_cases hseat : seat' = seat
    · rw [if_pos hseat] at hc
      obtain ⟨c₀, hc₀, rfl⟩ := Option.map_eq_some_iff.mp hc
      refine ⟨?_, fun _ _ => by simp [hseat]⟩
      rw [markReady_eq]
      split
      · exact h.begun.le
      · exact (h.ready seat c₀ hc₀).1
    · rw [if_neg hseat] at hc
      refine ⟨(h.ready seat' c hc).1, fun hpos hid => ?_⟩
      simpa [Function.update_of_ne hseat] using (h.ready seat' c hc).2 hpos hid
  · -- refused by the wait: nothing in the table changes
    have hlog : log.step s now (.ready seat payload) = log := if_neg htaken
    have htable : (s.table.modifyAt seat fun c => (s.wait.markReady c payload).2) = s.table := by
      refine ClientTable.modifyAt_of_fixed fun c hc => ?_
      rw [markReady_eq, if_neg]
      simpa [hc, h.begun] using htaken
    rw [hlog, HeldStart.step, htable]
    exact h

theorem Kept.step (h : Kept s log now) (event : StartEvent)
    (hb : (log.step s now event).begun < 65536) :
    Kept (s.step now event) (log.step s now event) now := by
  cases event with
  | begins starter => exact h.begins starter hb
  | ready seat payload => exact h.ready_message seat payload
  | keepWaiting sender => exact h.keepWaiting sender
  | cancel => exact h.cancel
  | hash count => exact h.hash count
  | transferStarts => exact { h with asked_transferring := fun _ _ => rfl }
  | transferEnds => exact h.transferEnds
  | secondTick => exact h.secondTick
  | mainLoop => exact h.mainLoop
  | ends => exact h.stop
  | joins address => exact h.ofTable (h.ready.joins address)
  | usbPresent present =>
    cases present with
    | false => exact h.ofTable (h.ready.usbPresent false)
    | true => exact h.ofTable (h.ready.usbPresent true)
  | leaves i => exact h.ofTable (@ReadyNoted.leaves _ _ now h.ready i)
  | clearsWifi => exact h.ofTable (@ReadyNoted.clearsWifi _ _ now h.ready)
  | clearsUsb => exact h.ofTable (@ReadyNoted.clearsUsb _ _ now h.ready)
  | hello seat hello => exact h.ofTable (h.ready.hello seat hello)

theorem step_limitS (s : HeldStart) (t : Nat) (event : StartEvent) :
    (s.step t event).wait.limitS = s.wait.limitS := by
  cases event with
  | begins starter => rfl
  | hash count =>
    simp only [HeldStart.step, JobStartWait.hashStep]
    split
    · rfl
    · split <;> rfl
  | keepWaiting sender =>
    simp only [HeldStart.step, JobStartWait.keepWaiting, JobStartWait.requestKeepWaiting]
    split <;> split <;> rfl
  | cancel =>
    simp only [HeldStart.step, JobStartWait.requestCancel]
    split
    · split <;> rfl
    · rfl
  | transferEnds =>
    by_cases hp : s.wait.pending = true
    · obtain ⟨timedOut, ranOut, heq⟩ := @JobStartWait.transferEnded_pending _ (stamp t) hp
      simp only [HeldStart.step, heq]
    · simp only [HeldStart.step, JobStartWait.transferEnded]
      simp [hp]
  | secondTick =>
    simp only [HeldStart.step, JobStartWait.secondTick]
    split
    · split <;> rfl
    · rfl
  | mainLoop =>
    simp only [HeldStart.step, HeldStart.checkHeldStart, JobStartWait.markTimedOut]
    split
    · split
      · rfl
      · split <;> rfl
      all_goals rfl
    · rfl
  | _ => rfl

theorem inOrder_concat {events : List (Nat × StartEvent)} {e : Nat × StartEvent}
    (h : InOrder (events ++ [e]) now) : InOrder events e.1 ∧ e.1 ≤ now := by
  rw [InOrder, List.map_append, List.map_singleton, List.pairwise_append] at h
  exact ⟨h.1, h.2.2 e.1 (by simp) now (by simp)⟩

theorem run_concat (limitS : UInt8) (events : List (Nat × StartEvent)) (e : Nat × StartEvent) :
    HeldStart.run limitS (events ++ [e]) =
      ((HeldStart.run limitS events).1.step e.1 e.2,
        (HeldStart.run limitS events).2.step (HeldStart.run limitS events).1 e.1 e.2) := by
  simp [HeldStart.run]

theorem log_step_begun (log : StartLog) (s : HeldStart) (t : Nat) (event : StartEvent) :
    (log.step s t event).begun = log.begun + beginCount [(t, event)] := by
  cases event with
  | begins starter => rfl
  | _ =>
    simp only [StartLog.step, beginCount]
    repeat' split
    all_goals rfl

theorem begun_run (limitS : UInt8) (events : List (Nat × StartEvent)) :
    (HeldStart.run limitS events).2.begun = beginCount events := by
  induction events using List.reverseRecOn with
  | nil => rfl
  | append_singleton events e ih =>
    rw [run_concat, log_step_begun, ih]
    simp [beginCount, List.filter_append]

theorem run_limitS (limitS : UInt8) (events : List (Nat × StartEvent)) :
    (HeldStart.run limitS events).1.wait.limitS = limitS := by
  induction events using List.reverseRecOn with
  | nil => rfl
  | append_singleton events e ih => rw [run_concat, step_limitS, ih]

theorem kept_run (limitS : UInt8) {events : List (Nat × StartEvent)} (horder : InOrder events now)
    (hb : beginCount events < 65536) :
    Kept (HeldStart.run limitS events).1 (HeldStart.run limitS events).2 now := by
  induction events using List.reverseRecOn generalizing now with
  | nil =>
    refine ⟨rfl, by simp [HeldStart.run], rfl, fun _ => rfl, rfl, by simp [HeldStart.run], rfl,
      by simp [HeldStart.run], by simp [HeldStart.run], ?_⟩
    rintro (i | _) c hc <;> simp [HeldStart.run, ClientTable.clientAt] at hc
  | append_singleton events e ih =>
    obtain ⟨horder, hle⟩ := inOrder_concat horder
    have hbegun := begun_run limitS (events ++ [e])
    have hsplit : beginCount (events ++ [e]) = beginCount events + beginCount [e] := by
      simp [beginCount, List.filter_append]
    rw [run_concat] at hbegun ⊢
    have hkept := ih horder (by omega)
    exact (hkept.step e.2 (by rw [hbegun]; exact hb)).later hle

/-! ## A held job starts only when it may -/

theorem check_starts {w : JobStartWait} {table : ClientTable} {now : UInt32}
    (h : (w.check table now).starts = true) :
    w.cancelRequested = false ∧ connected table w.starterId = true ∧ w.settling = false ∧
    ((w.notReady table (maxWifiClients + 1)).length = 0 ∨
      (w.hashing = false ∧ w.secondsLeft now = 0 ∧
        featuresOf table w.starterId &&& helloFeatureKeepWaiting = 0)) := by
  unfold JobStartWait.check at h
  by_cases hc : w.cancelRequested = true
  · simp [hc, StartCheck.starts] at h
  by_cases hs : connected table w.starterId = true
  swap
  · simp [hc, hs, StartCheck.starts] at h
  by_cases hset : w.settling = true
  · simp [hc, hs, hset, StartCheck.starts] at h
  refine ⟨by simpa using hc, hs, by simpa using hset, ?_⟩
  by_cases hn : (w.notReady table (maxWifiClients + 1)).length = 0
  · exact .inl hn
  right
  rw [if_neg hc, if_neg (by simp [hs]), if_neg hset, if_neg hn] at h
  by_cases ht : w.timedOutFlag = true
  · simp [ht, StartCheck.starts] at h
  by_cases hl : (!w.hashing && w.secondsLeft now == 0) = true
  swap
  · simp [ht, hl, StartCheck.starts] at h
  by_cases hf : (featuresOf table w.starterId &&& helloFeatureKeepWaiting != 0) = true
  · simp [ht, hl, hf, StartCheck.starts] at h
  · simp only [Bool.and_eq_true, Bool.not_eq_true', beq_iff_eq] at hl
    exact ⟨hl.1, hl.2, by simpa using hf⟩

/-- A ready message that does not name the start now held changes nothing. -/
theorem Kept.ready_other (h : Kept s log now) (seat : Seat) {payload : List UInt8}
    (hn : StartLog.names payload log.begun = false) : s.step t (.ready seat payload) = s := by
  have htable : (s.table.modifyAt seat fun c => (s.wait.markReady c payload).2) = s.table := by
    refine ClientTable.modifyAt_of_fixed fun c _ => ?_
    rw [markReady_eq, if_neg (by simp [h.begun, hn])]
  rw [HeldStart.step, htable]

/-- While the limit counts, only a keep-waiting of the starter moves where it counts from. -/
theorem Kept.startedUs_moved (h : Kept s log now) (hp : s.wait.pending = true)
    (hf : s.wait.hashingFlag = false) {event : StartEvent}
    (hne : (s.step t event).wait.startedUs ≠ s.wait.startedUs) :
    event = .keepWaiting log.starter ∨ (event = .transferEnds ∧ log.asked = true) ∨
      ∃ starter, event = .begins starter := by
  -- Only these three events write `started_us`; every other one leaves it, whatever it does to the
  -- rest.
  cases event with
  | begins starter => exact .inr (.inr ⟨starter, rfl⟩)
  | keepWaiting sender =>
    left
    by_contra hsender
    have hign : s.wait.pending = false ∨ sender ≠ s.wait.starterId :=
      .inr fun heq => hsender (by rw [heq, h.starter])
    refine hne ?_
    rw [HeldStart.step, JobStartWait.keepWaiting_ignored hign,
      JobStartWait.requestKeepWaiting_ignored hign, ite_self]
  | transferEnds =>
    right; left
    refine ⟨rfl, ?_⟩
    by_contra hasked
    obtain ⟨timedOut, ranOut, heq⟩ := @JobStartWait.transferEnded_pending _ (stamp t) hp
    refine hne ?_
    simp [HeldStart.step, heq, h.asked, hasked]
  | hash count =>
    refine absurd ?_ hne
    rw [HeldStart.step, JobStartWait.hashStep_idle (by simp [JobStartWait.hashing, hf])]
  | cancel =>
    refine absurd ?_ hne
    simp only [HeldStart.step, JobStartWait.requestCancel, hp, if_true]
    split <;> rfl
  | secondTick =>
    refine absurd ?_ hne
    simp only [HeldStart.step, JobStartWait.secondTick]
    split
    · split <;> rfl
    · rfl
  | mainLoop =>
    refine absurd ?_ hne
    simp only [HeldStart.step, HeldStart.checkHeldStart, JobStartWait.markTimedOut]
    split
    · split <;> rfl
    · rfl
  | _ => exact absurd rfl hne

/-- The start a main loop makes is one that the history allows. -/
theorem Kept.starts (h : Kept s log now) (hp : s.wait.pending = true)
    (ht : s.transferring = false) (hc : (s.wait.check s.table (stamp now)).starts = true) :
    log.cancelled = false ∧ connected s.table log.starter = true ∧
    (∀ k, log.ticks = some k → 2 ≤ k) ∧
    ((∀ seat c, s.table.clientAt seat = some c → JobStartWait.takesPart c = true →
        c.id ≠ log.starter → log.ready seat = true) ∨
      ∃ from_, log.limitFrom = some from_ ∧ from_ + s.wait.limitS.toNat * 1000000 ≤ now ∧
        featuresOf s.table log.starter &&& helloFeatureKeepWaiting = 0) := by
  obtain ⟨hcancel, hconn, hsettle, hready⟩ := check_starts hc
  refine ⟨h.cancelled hp ▸ hcancel, h.starter ▸ hconn, fun k hk => ?_, ?_⟩
  · have hzero : s.wait.settleTicks = 0 := by simpa [JobStartWait.settling, hp] using hsettle
    have hs := h.settles
    rw [hk, hzero] at hs
    simp only [Option.map_some, Option.getD_some, UInt8.toNat_zero] at hs
    omega
  · -- Everybody that takes part has answered, or the limit has run out on a starter that cannot ask
    -- for more.
    obtain hzero | ⟨hh, hleft, hfeat⟩ := hready
    · left
      intro seat c hseat hpart hid
      have haw := notReady_length_zero hzero hseat
      obtain ⟨hident, hfeat⟩ := Bool.and_eq_true_iff.mp hpart
      have hrid : c.jobStartReady = s.wait.startId := by
        simpa [JobStartWait.awaited, hident, hfeat, h.starter, hid] using haw
      exact (h.ready seat c hseat).2 (h.some_begun hp) (by rw [hrid, h.begun])
    · right
      have hflag : s.wait.hashingFlag = false := by simpa [JobStartWait.hashing, hp] using hh
      have hsome := h.hashing hp
      rw [hflag] at hsome
      obtain ⟨from_, hfrom⟩ := Option.isSome_iff_exists.mp (by simpa using hsome.symm)
      have hasked : log.asked = false := by
        by_contra ha
        have := h.asked_transferring hp (by simpa using ha)
        simp [ht] at this
      obtain ⟨hle, hstart⟩ := h.limit hp from_ hfrom
      exact ⟨from_, hfrom, secondsLeft_zero hh (hstart hasked) hle hleft, h.starter ▸ hfeat⟩

theorem held_start_safe (limitS : UInt8) (events : List (Nat × StartEvent)) (now : Nat)
    (horder : InOrder events now) (hbegins : beginCount events < 65535) :
    let s := (HeldStart.run limitS events).1
    let log := (HeldStart.run limitS events).2
    (s.wait.pending = true → s.transferring = false →
      (s.wait.check s.table (stamp now)).starts = true →
      log.cancelled = false ∧ connected s.table log.starter = true ∧
      (∀ k, log.ticks = some k → 2 ≤ k) ∧
      ((∀ seat c, s.table.clientAt seat = some c → JobStartWait.takesPart c = true →
          c.id ≠ log.starter → log.ready seat = true) ∨
        ∃ from_, log.limitFrom = some from_ ∧ from_ + limitS.toNat * 1000000 ≤ now ∧
          featuresOf s.table log.starter &&& helloFeatureKeepWaiting = 0)) ∧
    (∀ seat payload, StartLog.names payload log.begun = false →
      s.step now (.ready seat payload) = s) ∧
    (∀ event, s.wait.pending = true → s.wait.hashingFlag = false →
      (s.step now event).wait.startedUs ≠ s.wait.startedUs →
      event = .keepWaiting log.starter ∨ (event = .transferEnds ∧ log.asked = true) ∨
        ∃ starter, event = .begins starter) := by
  intro s log
  have h : Kept s log now := kept_run limitS horder (by omega)
  refine ⟨fun hp ht hc => ?_, fun seat payload hn => h.ready_other seat hn,
    fun event hp hf hne => h.startedUs_moved hp hf hne⟩
  have hstarts := h.starts hp ht hc
  rwa [run_limitS] at hstarts

/-- Client 1 starts a job; client 2 is ready for it once a transfer has settled. -/
def readyAfterTransfer : List (Nat × StartEvent) :=
  [(0, .joins { port := 1 }), (1, .hello (.wifi 0) { id := 1, features := 1 }),
   (2, .joins { port := 2 }), (3, .hello (.wifi 1) { id := 2, features := 1 }),
   (4, .begins { identified := true, id := 1 }), (5, .hash 0), (6, .transferStarts),
   (7, .transferEnds), (8, .secondTick), (9, .secondTick), (10, .ready (.wifi 1) [0, 1])]

theorem held_start_safe_ready :
    let s := (HeldStart.run 30 readyAfterTransfer).1
    let log := (HeldStart.run 30 readyAfterTransfer).2
    s.wait.check s.table (stamp 11) = .allReady ∧ log.ticks = some 2 ∧ log.cancelled = false ∧
      connected s.table log.starter = true := by
  obtain ⟨hcancel, hconnected, -⟩ := (held_start_safe 30 readyAfterTransfer 11
    (by simp [InOrder, readyAfterTransfer]) (by decide)).1 (by decide) (by decide) (by decide)
  exact ⟨by decide, by decide, hcancel, hconnected⟩

end

end CarveraFirmware.Clients
