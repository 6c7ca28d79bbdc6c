import Mathlib
import CarveraFirmware.Clients.Holder

/-!
# The presence check over whole runs

Calls on the identity check in any order its header allows, at true times, with the client
table changing under it. A check that asks first retires the old entry only after a wait in
which it could have answered and did not.
-/

namespace CarveraFirmware.Clients

open WrapClock ClientTable

/-- One call of `next_step`. -/
structure StepCall where
  time : Nat
  link : Link
  canRead : Bool

/-- What came after the question: when it was asked, the call of `next_step` before it, the calls
and replies of the wait, which ends with the call that comes two seconds after the question, and
those after the wait. -/
structure WaitLog where
  askedAt : Nat
  before : Nat
  steps : List StepCall := []
  replies : List (Seat × List UInt8) := []
  lateSteps : List StepCall := []
  lateReplies : List (Seat × List UInt8) := []

namespace WaitLog

/-- A call has come two seconds after the question. -/
def Done (log : WaitLog) : Prop := ∃ c ∈ log.steps, log.askedAt + 2000000 ≤ c.time

instance (log : WaitLog) : Decidable log.Done :=
  inferInstanceAs (Decidable (∃ c ∈ log.steps, log.askedAt + 2000000 ≤ c.time))

def noteStep (log : WaitLog) (c : StepCall) : WaitLog :=
  if log.Done then { log with lateSteps := log.lateSteps ++ [c] }
  else { log with steps := log.steps ++ [c] }

def noteReply (log : WaitLog) (sender : Seat) (data : List UInt8) : WaitLog :=
  if log.Done then { log with lateReplies := log.lateReplies ++ [(sender, data)] }
  else { log with replies := log.replies ++ [(sender, data)] }

/-- The log with everything up to now counted to the wait. -/
def untilNow (log : WaitLog) : WaitLog :=
  { log with
    steps := log.steps ++ log.lateSteps, replies := log.replies ++ log.lateReplies
    lateSteps := [], lateReplies := [] }

/-- The times of the calls, that before the question first. -/
def times (log : WaitLog) : List Nat := log.before :: log.steps.map (·.time)

theorem times_concat (log : WaitLog) (call : StepCall) :
    ({ log with steps := log.steps ++ [call] } : WaitLog).times = log.times ++ [call.time] := by
  simp [times]

end WaitLog

/-- A reply carries a number in its first four bytes. -/
def Carries (data : List UInt8) (number : UInt32) : Prop :=
  presenceCheckLength ≤ data.length ∧ IdentityCheck.replyNumber data = number

/-- The old entry had every chance to answer: no long pause in the wait, no answer in it, and its
link read throughout, after the wait too. -/
structure WaitLog.Fair (log : WaitLog) (old : Seat) (number : UInt32) : Prop where
  gaps : log.times.IsChain fun a b => b ≤ a + 250000
  readable : ∀ c ∈ log.steps ++ log.lateSteps, c.link = old.link → c.canRead = true
  silent : ∀ r ∈ log.replies, ¬ (r.1 = old ∧ Carries r.2 number)

/-- A call from a link that reads, in time while the wait is on, leaves the wait fair. -/
theorem WaitLog.Fair.noteStep {log : WaitLog} {old : Seat} {number : UInt32}
    (hfair : log.Fair old number) {call : StepCall}
    (hgap : ¬ log.Done → ∀ last, log.times.getLast? = some last → call.time ≤ last + 250000)
    (hread : call.link = old.link → call.canRead = true) :
    (log.noteStep call).Fair old number := by
  have hreads : ∀ c ∈ (log.noteStep call).steps ++ (log.noteStep call).lateSteps,
      c.link = old.link → c.canRead = true := by
    intro c hc
    have hc : c ∈ log.steps ++ log.lateSteps ∨ c = call := by
      rw [WaitLog.noteStep] at hc
      split at hc <;> simp only [List.mem_append, List.mem_singleton] at hc ⊢ <;> tauto
    rcases hc with hc | rfl
    · exact hfair.readable c hc
    · exact hread
  refine ⟨?_, hreads, ?_⟩
  · rw [WaitLog.noteStep]
    split
    · exact hfair.gaps
    next hdone =>
    rw [WaitLog.times_concat]
    refine List.IsChain.append hfair.gaps (List.isChain_singleton _) ?_
    intro x hx y hy
    obtain rfl : call.time = y := by simpa using hy
    exact hgap hdone x hx
  · rw [WaitLog.noteStep]
    split <;> exact hfair.silent

/-- A reply leaves the wait fair, unless it is the answer and the wait is still on. -/
theorem WaitLog.Fair.noteReply {log : WaitLog} {old : Seat} {number : UInt32}
    (hfair : log.Fair old number) {sender : Seat} {data : List UInt8}
    (hsilent : ¬ log.Done → ¬ (sender = old ∧ Carries data number)) :
    (log.noteReply sender data).Fair old number := by
  rw [WaitLog.noteReply]
  split
  · exact ⟨hfair.gaps, hfair.readable, hfair.silent⟩
  next hdone =>
    refine ⟨hfair.gaps, hfair.readable, fun r hr => ?_⟩
    rcases List.mem_append.mp hr with hr | hr
    · exact hfair.silent r hr
    · obtain rfl := List.mem_singleton.mp hr
      exact hsilent hdone

theorem WaitLog.Done.noteStep {log : WaitLog} (hdone : log.Done) (call : StepCall) :
    (log.noteStep call).Done := by
  rw [WaitLog.noteStep, if_pos hdone]
  exact hdone

theorem WaitLog.Done.noteReply {log : WaitLog} (hdone : log.Done) (sender : Seat)
    (data : List UInt8) : (log.noteReply sender data).Done := by
  rw [WaitLog.noteReply, if_pos hdone]
  exact hdone

/-- Before the wait is over its last call is less than two seconds after the question. -/
theorem WaitLog.last_lt_of_not_done {log : WaitLog} (hdone : ¬ log.Done)
    (hbefore : log.before ≤ log.askedAt) {last : Nat} (hlast : log.times.getLast? = some last) :
    last < log.askedAt + 2000000 := by
  have hmem : last ∈ log.times := List.mem_of_getLast? hlast
  rcases List.mem_cons.mp hmem with rfl | hmem
  · omega
  · obtain ⟨c, hc, rfl⟩ := List.mem_map.mp hmem
    exact not_le.mp fun h => hdone ⟨c, hc, h⟩

/-- The check with its table, and what an observer of the calls knows: the true times, how many
checks have ended, whether this one asks first, the wait since the last `asked`, whether a reply
has counted, and the step last given. -/
structure Presence where
  table : ClientTable
  check : IdentityCheck := {}
  now : Nat := 0
  lastStep : Nat := 0
  checks : Nat := 0
  askFirst : Bool := false
  wait : Option WaitLog := none
  counted : Bool := false
  given : Option CheckStep := none

inductive CheckCall where
  | begins (newcomer old : Seat) (hello : Hello) (askFirst : Bool) (time : Nat)
  | nextStep (call : StepCall)
  | asked (time : Nat)
  | noteAnswer (sender : Seat) (data : List UInt8)
  | retired
  | ends
  | tableChange (table : ClientTable)

namespace Presence

def step (s : Presence) : CheckCall → Presence
  | .begins newcomer old hello askFirst t =>
    match s.check.beginCheck s.table newcomer old hello askFirst (stamp t) with
    | (true, check, table) =>
      { s with
        check := check, table := table, now := t, lastStep := t, askFirst := askFirst
        wait := none, counted := false, given := none }
    | (false, _, _) => { s with now := t }
  | .nextStep call =>
    let r := s.check.nextStep s.table call.link (stamp call.time) call.canRead
    { s with
      check := r.2, now := call.time, lastStep := call.time, given := some r.1
      wait := s.wait.map (·.noteStep call) }
  | .asked t =>
    { s with
      check := s.check.asked (stamp t), now := t, given := none
      wait := some { askedAt := t, before := s.lastStep } }
  | .noteAnswer sender data =>
    let r := s.check.noteAnswer sender data
    { s with
      check := r.2, counted := s.counted || r.1
      wait := s.wait.map (·.noteReply sender data) }
  | .retired => { s with check := s.check.retired, given := none }
  | .ends =>
    let e := s.check.endCheck s.table
    { s with
      check := e.1, table := e.2, given := none
      checks := s.checks + if s.check.active then 1 else 0 }
  | .tableChange table => { s with table := table }

/-- Only the check holds a hello: a client held after a change was held before, under the same
address, and held clients are not identified. -/
def KeepsHolds (table table' : ClientTable) : Prop :=
  ∀ a c', table'.clientAt a = some c' → c'.helloHeld = true → c'.identified = false ∧
    ∃ c, table.clientAt a = some c ∧ c.helloHeld = true ∧ c'.address = c.address

/-- The calls the header allows: a hello is held for a client that has not identified, each step
is carried out as it was given, and time goes on. -/
def Prescribed (s : Presence) : CheckCall → Prop
  | .begins newcomer _ _ _ t =>
    s.now ≤ t ∧ ∀ c, s.table.clientAt newcomer = some c → c.identified = false
  | .nextStep call => s.now ≤ call.time ∧ call.time - s.lastStep < 2 ^ 32
  | .asked t => s.now ≤ t ∧ s.given = some .ask
  | .noteAnswer _ _ => True
  | .retired => s.given = some .retire ∧ s.check.oldPresent s.table = false
  | .ends => s.given = some .refuse ∨ s.given = some .admits ∨ s.given = some .drop
  | .tableChange table => KeepsHolds s.table table

def run (s : Presence) (calls : List CheckCall) : Presence := calls.foldl step s

def PrescribedRun (s : Presence) (calls : List CheckCall) : Prop :=
  ∀ pre call post, calls = pre ++ call :: post → (s.run pre).Prescribed call

/-- What holds after every run of allowed calls. -/
structure Inv (s : Presence) : Prop where
  number : s.check.number = UInt32.ofNat s.checks
  time : s.lastStep ≤ s.now
  held : ∀ a c, s.table.clientAt a = some c → c.helloHeld = true →
    s.check.active = true ∧ a = s.check.newcomer ∧ c.address = s.check.newcomerAddress ∧
      c.identified = false
  stepped : s.check.active = true → s.check.newcomerPresent s.table = true →
    s.check.lastStepUs = stamp s.lastStep
  /-- While waiting, the wait has been fair and is not over. -/
  waiting : s.check.phase = .waiting → s.check.newcomerPresent s.table = true →
    ∃ log, s.wait = some log ∧ log.Fair s.check.old s.check.number ∧ ¬ log.Done ∧
      s.check.askedUs = stamp log.askedAt ∧ log.before ≤ log.askedAt ∧ log.askedAt ≤ s.now ∧
      log.times.getLast? = some s.lastStep
  /-- A check that asks first comes to retire only by a fair wait. -/
  retiring : s.check.phase = .retire → s.askFirst = true →
    s.check.newcomerPresent s.table = true ∨ s.given = some .retire →
    ∃ log, s.wait = some log ∧ log.Fair s.check.old s.check.number ∧ log.Done
  given : ∀ step, s.given = some step → (step = .ask → s.check.phase = .ask) ∧
    (step = .retire → s.check.phase = .retire) ∧ (step = .admits → s.check.phase = .admits)
  counted : s.counted = true → s.check.phase = .refuse ∨ s.check.phase = .idle

theorem Inv.init (table : ClientTable) (h : ∀ a c, table.clientAt a = some c → c.helloHeld = false) :
    Inv { table := table } where
  number := rfl
  time := le_refl _
  held := fun a c hc hh => by rw [h a c hc] at hh; cases hh
  stepped := fun hact => by simp [IdentityCheck.active] at hact
  waiting := fun hph => by cases hph
  retiring := fun hph => by cases hph
  given := fun step hs => by cases hs
  counted := fun hc => by cases hc

theorem newcomerPresent_iff {check : IdentityCheck} {table : ClientTable} :
    check.newcomerPresent table = true ↔ ∃ c, table.clientAt check.newcomer = some c ∧
      c.helloHeld = true ∧ c.identified = false ∧ c.address = check.newcomerAddress := by
  simp [IdentityCheck.newcomerPresent, Option.any_eq_true, and_assoc]

variable {s : Presence}

theorem Inv.tableChange (h : Inv s) {table : ClientTable} (hk : KeepsHolds s.table table) :
    Inv (s.step (.tableChange table)) := by
  have hback : s.check.newcomerPresent table = true → s.check.newcomerPresent s.table = true := by
    rw [newcomerPresent_iff, newcomerPresent_iff]
    rintro ⟨c', hc', hheld', -, haddr'⟩
    obtain ⟨-, c, hc, hheld, haddr⟩ := hk _ c' hc' hheld'
    obtain ⟨-, -, -, hid⟩ := h.held _ c hc hheld
    exact ⟨c, hc, hheld, hid, haddr.symm.trans haddr'⟩
  refine ⟨h.number, h.time, ?_, fun hact hn => h.stepped hact (hback hn),
    fun hph hn => h.waiting hph (hback hn),
    fun hph hask hn => h.retiring hph hask (hn.imp_left hback), h.given, h.counted⟩
  intro a c' hc' hheld'
  obtain ⟨hid', c, hc, hheld, haddr⟩ := hk a c' hc' hheld'
  obtain ⟨hact, ha, hcaddr, -⟩ := h.held a c hc hheld
  exact ⟨hact, ha, haddr.trans hcaddr, hid'⟩

theorem Inv.begins (h : Inv s) {newcomer old : Seat} {hello : Hello} {askFirst : Bool} {t : Nat}
    (hp : s.Prescribed (.begins newcomer old hello askFirst t)) :
    Inv (s.step (.begins newcomer old hello askFirst t)) := by
  obtain ⟨hnow, hun⟩ := hp
  have hlater : Inv { s with now := t } := by
    refine ⟨h.number, h.time.trans hnow, h.held, h.stepped, fun hph hn => ?_, h.retiring, h.given,
      h.counted⟩
    obtain ⟨log, h1, h2, h3, h4, h5, h6, h7⟩ := h.waiting hph hn
    exact ⟨log, h1, h2, h3, h4, h5, h6.trans hnow, h7⟩
  simp only [step]
  unfold IdentityCheck.beginCheck
  split
  · next check table hbegin =>
    split at hbegin
    · simp at hbegin
    next hidle =>
    split at hbegin
    · simp at hbegin
    next client hclient =>
    simp only [Prod.mk.injEq, true_and] at hbegin
    obtain ⟨rfl, rfl⟩ := hbegin
    refine ⟨h.number, le_refl _, fun a c hc hh => ?_, fun _ _ => rfl, fun hph => ?_, fun hph hask => ?_,
      fun _ hs => (by cases hs), fun hc => (by cases hc)⟩
    · rw [clientAt_setAt] at hc
      split at hc
      · next ha =>
        obtain rfl := Option.some.inj hc
        refine ⟨?_, ha, rfl, hun client hclient⟩
        cases askFirst <;> rfl
      · -- Nobody else was held: no check was active.
        exact absurd (h.held a c hc hh).1 hidle
    · cases askFirst <;> simp at hph
    · subst hask
      simp at hph
  · exact hlater

theorem Inv.asked (h : Inv s) {t : Nat} (hp : s.Prescribed (.asked t)) :
    Inv (s.step (.asked t)) := by
  obtain ⟨hnow, hgiven⟩ := hp
  have hph : s.check.phase = .ask := (h.given .ask hgiven).1 rfl
  have hact : s.check.active = true := by simp [IdentityCheck.active, hph]
  have hasked : s.check.asked (stamp t) =
      { s.check with askedUs := stamp t, phase := .waiting } := by
    rw [IdentityCheck.asked, if_neg (by simp [hph])]
  simp only [step, hasked]
  refine ⟨h.number, h.time.trans hnow, fun a c hc hh => ⟨rfl, (h.held a c hc hh).2⟩,
    fun _ hn => h.stepped hact hn, fun _ hn => ?_, fun hp => (by simp at hp), fun _ hs => (by cases hs),
    fun hc => ?_⟩
  · refine ⟨_, rfl, ⟨by simp [WaitLog.times], by simp, by simp⟩, by simp [WaitLog.Done], rfl,
      h.time.trans hnow, le_refl _, by simp [WaitLog.times]⟩
  · rcases h.counted hc with hr | hi
    · rw [hph] at hr
      cases hr
    · rw [hph] at hi
      cases hi

theorem Inv.noteAnswer (h : Inv s) (sender : Seat) (data : List UInt8) :
    Inv (s.step (.noteAnswer sender data)) := by
  by_cases hcounts : s.check.phase = .waiting ∧ sender = s.check.old ∧
      Carries data s.check.number
  · -- The reply counts: the check refuses from here on.
    obtain ⟨hph, rfl, hlen, hnum⟩ := hcounts
    have hnote : s.check.noteAnswer s.check.old data = (true, { s.check with phase := .refuse }) := by
      simp [IdentityCheck.noteAnswer, hph, hnum, hlen.not_gt]
    have hact : s.check.active = true := by simp [IdentityCheck.active, hph]
    simp only [step, hnote]
    refine ⟨h.number, h.time, fun a c hc hh => ⟨rfl, (h.held a c hc hh).2⟩,
      fun _ hn => h.stepped hact hn, fun hp => (by cases hp), fun hp => (by cases hp), ?_,
      fun _ => .inl rfl⟩
    rintro step hs
    obtain ⟨hask, hretire, hadm⟩ := h.given step hs
    rw [hph] at hask hretire hadm
    exact ⟨fun e => (by cases hask e), fun e => (by cases hretire e), fun e => (by cases hadm e)⟩
  · have hnote : s.check.noteAnswer sender data = (false, s.check) := by
      unfold IdentityCheck.noteAnswer
      split_ifs with h1 h2 h3
      · rfl
      · rfl
      · rfl
      · push Not at h1 h3
        exact absurd ⟨h1.1, h1.2, not_lt.mp h2, h3⟩ hcounts
    simp only [step, hnote, Bool.or_false]
    refine ⟨h.number, h.time, h.held, h.stepped, fun hph hn => ?_, fun hph hask hn => ?_, h.given,
      h.counted⟩
    · obtain ⟨log, hlog, hfair, hdone, hrest⟩ := h.waiting hph hn
      have hfair' := hfair.noteReply fun _ hc => hcounts ⟨hph, hc.1, hc.2⟩
      refine ⟨log.noteReply sender data, by rw [hlog]; rfl, hfair', ?_⟩
      rw [WaitLog.noteReply, if_neg hdone]
      exact ⟨hdone, hrest⟩
    · -- The wait is over: what comes now is late.
      obtain ⟨log, hlog, hfair, hdone⟩ := h.retiring hph hask hn
      exact ⟨log.noteReply sender data, by rw [hlog]; rfl, hfair.noteReply (absurd hdone),
        hdone.noteReply sender data⟩

theorem Inv.retired (h : Inv s) (hp : s.Prescribed .retired) : Inv (s.step .retired) := by
  have hph : s.check.phase = .retire := (h.given .retire hp.1).2.1 rfl
  have hact : s.check.active = true := by simp [IdentityCheck.active, hph]
  simp only [step, IdentityCheck.retired, if_pos hph]
  refine ⟨h.number, h.time, fun a c hc hh => ⟨rfl, (h.held a c hc hh).2⟩,
    fun _ hn => h.stepped hact hn, fun hp => (by cases hp), fun hp => (by cases hp),
    fun _ hs => (by cases hs), fun hc => ?_⟩
  rcases h.counted hc with hr | hi
  · rw [hph] at hr
    cases hr
  · rw [hph] at hi
    cases hi

theorem Inv.ends (h : Inv s) : Inv (s.step .ends) := by
  cases hact : s.check.active with
  | false =>
    have hend : s.check.endCheck s.table = (s.check, s.table) := by
      simp [IdentityCheck.endCheck, hact]
    simp only [step, hend, hact, Bool.false_eq_true, if_false, Nat.add_zero]
    exact ⟨h.number, h.time, h.held, h.stepped,
      h.waiting, fun hph hask hn => h.retiring hph hask (.inl (hn.resolve_right (by simp))),
      fun _ hs => (by cases hs), h.counted⟩
  | true =>
    simp only [step, IdentityCheck.endCheck, hact, Bool.not_true, Bool.false_eq_true, if_false,
      if_true]
    refine ⟨?_, h.time, fun a c hc hh => ?_, fun hp => (by cases hp), fun hp => (by cases hp),
      fun hp => (by cases hp), fun _ hs => (by cases hs), fun _ => .inr rfl⟩
    · change s.check.number + 1 = UInt32.ofNat (s.checks + 1)
      rw [h.number, UInt32.ofNat_add]
      rfl
    · -- Whoever was held was the newcomer, still there, and has been released.
      exfalso
      split at hc
      · rw [clientAt_modifyAt] at hc
        split at hc
        · obtain ⟨c', -, rfl⟩ := Option.map_eq_some_iff.mp hc
          cases hh
        · next ha => exact ha (h.held a c hc hh).2.1
      · next hn =>
        obtain ⟨-, rfl, haddr, hid⟩ := h.held a c hc hh
        exact hn (newcomerPresent_iff.mpr ⟨c, hc, hh, hid, haddr⟩)

/-- A step taken with the newcomer there, while waiting: the call comes in time after the last
one, and less than a turn of the clock after the question. -/
theorem Inv.wait_gap (h : Inv s) {call : StepCall} (hp : s.Prescribed (.nextStep call))
    (hph : s.check.phase = .waiting) (hn : s.check.newcomerPresent s.table = true)
    (hpause : stamp call.time - s.check.lastStepUs ≤ presenceMaxPauseUs) :
    ∃ log, s.wait = some log ∧ log.Fair s.check.old s.check.number ∧ ¬ log.Done ∧
      log.before ≤ log.askedAt ∧ log.askedAt ≤ call.time ∧
      log.times.getLast? = some s.lastStep ∧ call.time ≤ s.lastStep + 250000 ∧
      (stamp call.time - s.check.askedUs).toNat = call.time - log.askedAt := by
  obtain ⟨hnow, hturn⟩ := hp
  obtain ⟨log, hlog, hfair, hdone, hasked, hbefore, haskednow, hlast⟩ := h.waiting hph hn
  have hact : s.check.active = true := by simp [IdentityCheck.active, hph]
  have hgap : call.time ≤ s.lastStep + 250000 := by
    rw [h.stepped hact hn, UInt32.le_iff_toNat_le,
      stamp_sub_of_lt (h.time.trans hnow) hturn] at hpause
    have : presenceMaxPauseUs.toNat = 250000 := rfl
    omega
  have hlt := WaitLog.last_lt_of_not_done hdone hbefore hlast
  refine ⟨log, hlog, hfair, hdone, hbefore, haskednow.trans hnow, hlast, hgap, ?_⟩
  rw [hasked, stamp_sub_of_lt (haskednow.trans hnow) (by omega)]

theorem Inv.nextStep (h : Inv s) {call : StepCall} (hp : s.Prescribed (.nextStep call)) :
    Inv (s.step (.nextStep call)) := by
  -- Without a check, and with the newcomer gone, nothing is settled; else the phase is.
  cases hact : s.check.active with
  | false =>
    have hnext : s.check.nextStep s.table call.link (stamp call.time) call.canRead =
        (.wait, s.check) := by simp [IdentityCheck.nextStep, hact]
    simp only [step, hnext]
    refine ⟨h.number, le_refl _, h.held, fun ha => (by simp [hact] at ha), fun hph => ?_,
      fun hph => ?_, fun _ hs => (by cases hs; simp), h.counted⟩
    · rw [IdentityCheck.active, hph] at hact
      cases hact
    · rw [IdentityCheck.active, hph] at hact
      cases hact
  | true =>
    cases hn : s.check.newcomerPresent s.table with
    | false =>
      have hnext : s.check.nextStep s.table call.link (stamp call.time) call.canRead =
          (.drop, s.check) := by simp [IdentityCheck.nextStep, hact, hn]
      simp only [step, hnext]
      exact ⟨h.number, le_refl _, h.held, fun _ ha => (by simp [hn] at ha),
        fun _ ha => (by simp [hn] at ha), fun _ _ ha => (by simp [hn] at ha),
        fun _ hs => (by cases hs; simp), h.counted⟩
    | true =>
      have hnext : s.check.nextStep s.table call.link (stamp call.time) call.canRead =
          (s.check.stepFor (s.check.settlePhase s.table call.link (stamp call.time) call.canRead)
            call.link call.canRead,
          { s.check with
            phase := s.check.settlePhase s.table call.link (stamp call.time) call.canRead
            lastStepUs := stamp call.time }) := by simp [IdentityCheck.nextStep, hact, hn]
      have hidle := IdentityCheck.settlePhase_ne_idle s.table call.link (stamp call.time)
        call.canRead hact
      have hrefuse : s.check.phase = .refuse →
          s.check.settlePhase s.table call.link (stamp call.time) call.canRead = .refuse :=
        IdentityCheck.settlePhase_of_refuse _ _ _ _
      simp only [step, hnext]
      generalize hphase : s.check.settlePhase s.table call.link (stamp call.time) call.canRead =
        phase at hidle hrefuse ⊢
      refine ⟨h.number, le_refl _, fun a c hc hh => ⟨by simpa [IdentityCheck.active] using hidle,
        (h.held a c hc hh).2⟩, fun _ _ => rfl, fun hph _ => ?_, fun hph hask _ => ?_,
        fun step hs => ?_, fun hc => ?_⟩
      · obtain rfl : phase = .waiting := hph
        obtain ⟨hwaiting, hread, hpause, hover⟩ := IdentityCheck.settlePhase_waiting hphase
        obtain ⟨log, hlog, hfair, hdone, hbefore, hasked, hlast, hgap, hsince⟩ :=
          h.wait_gap hp hwaiting hn hpause
        obtain ⟨_, hlog', -, -, haskedUs, -⟩ := h.waiting hwaiting hn
        obtain rfl := Option.some.inj (hlog.symm.trans hlog')
        -- Still waiting: the call came in time and before the two seconds were over.
        have hshort : call.time < log.askedAt + 2000000 := by
          rw [ge_iff_le, UInt32.le_iff_toNat_le, hsince] at hover
          have : presenceAnswerWaitUs.toNat = 2000000 := rfl
          omega
        have hfair' : (log.noteStep call).Fair s.check.old s.check.number :=
          hfair.noteStep (fun _ last h => by
            obtain rfl := Option.some.inj (hlast.symm.trans h)
            exact hgap) hread
        refine ⟨log.noteStep call, by rw [hlog]; rfl, hfair', ?_⟩
        rw [WaitLog.noteStep, if_neg hdone]
        refine ⟨?_, haskedUs, hbefore, hasked, ?_⟩
        · rintro ⟨c, hc, hle⟩
          rcases List.mem_append.mp hc with hc | hc
          · exact hdone ⟨c, hc, hle⟩
          · obtain rfl := List.mem_singleton.mp hc
            exact absurd hle hshort.not_ge
        · rw [WaitLog.times_concat, List.getLast?_concat]
      · obtain rfl : phase = .retire := hph
        obtain ⟨hread, hbefore | ⟨hwaiting, hpause, hover⟩⟩ :=
          IdentityCheck.settlePhase_retire hphase
        · -- The wait was over before this call.
          obtain ⟨log, hlog, hfair, hdone⟩ := h.retiring hbefore hask (.inl hn)
          exact ⟨log.noteStep call, by rw [hlog]; rfl, hfair.noteStep (absurd hdone) hread,
            hdone.noteStep call⟩
        · obtain ⟨log, hlog, hfair, hdone, -, hasked, hlast, hgap, hsince⟩ :=
            h.wait_gap hp hwaiting hn hpause
          have hlong : log.askedAt + 2000000 ≤ call.time := by
            rw [ge_iff_le, UInt32.le_iff_toNat_le, hsince] at hover
            have : presenceAnswerWaitUs.toNat = 2000000 := rfl
            omega
          have hfair' : (log.noteStep call).Fair s.check.old s.check.number :=
            hfair.noteStep (fun _ last h => by
              obtain rfl := Option.some.inj (hlast.symm.trans h)
              exact hgap) hread
          refine ⟨log.noteStep call, by rw [hlog]; rfl, hfair', ?_⟩
          rw [WaitLog.noteStep, if_neg hdone]
          exact ⟨call, by simp, hlong⟩
      · obtain ⟨hstepAsk, hstepRetire, -, hstepAdmit⟩ :=
          IdentityCheck.stepFor_eq (Option.some.inj hs)
        exact ⟨fun e => (hstepAsk e).1, fun e => (hstepRetire e).1, fun e => (hstepAdmit e).1⟩
      · rcases h.counted hc with hr | hi
        · exact .inl (hrefuse hr)
        · simp [IdentityCheck.active, hi] at hact

theorem Inv.step (h : Inv s) {call : CheckCall} (hp : s.Prescribed call) : Inv (s.step call) := by
  cases call with
  | begins newcomer old hello askFirst t => exact h.begins hp
  | nextStep call => exact h.nextStep hp
  | asked t => exact h.asked hp
  | noteAnswer sender data => exact h.noteAnswer sender data
  | retired => exact h.retired hp
  | ends => exact h.ends
  | tableChange table => exact h.tableChange hp

theorem prescribedRun_cons {call : CheckCall} {calls : List CheckCall} :
    s.PrescribedRun (call :: calls) ↔ s.Prescribed call ∧ (s.step call).PrescribedRun calls := by
  constructor
  · intro h
    refine ⟨h [] call calls rfl, fun pre c post heq => ?_⟩
    exact h (call :: pre) c post (by rw [heq, List.cons_append])
  · rintro ⟨hfirst, hrest⟩ pre c post heq
    cases pre with
    | nil =>
      obtain ⟨rfl, -⟩ := List.cons.inj heq
      exact hfirst
    | cons d pre =>
      obtain ⟨rfl, rfl⟩ := List.cons.inj heq
      exact hrest pre c post rfl

theorem prescribedRun_nil : s.PrescribedRun [] := fun _ _ _ h => by simp at h

theorem Inv.run (h : Inv s) {calls : List CheckCall} (hrun : s.PrescribedRun calls) :
    Inv (s.run calls) := by
  induction calls generalizing s with
  | nil => exact h
  | cons call calls ih =>
    obtain ⟨hfirst, hrest⟩ := prescribedRun_cons.mp hrun
    exact ih (h.step hfirst) hrest

/-- The presence check over every allowed run. A check that asks first comes to remove the old
entry only after it was asked and two seconds of a fair wait went by; once a reply has counted
nobody is removed or admitted; the number of an earlier check never counts; and a hello is held
for nobody but the newcomer of the check in progress. The wait ends with the call, of either
link, that finds the two seconds over: what comes after it no longer counts. -/
theorem presence_check_safe {table : ClientTable}
    (hfree : ∀ a c, table.clientAt a = some c → c.helloHeld = false) {calls : List CheckCall}
    (hrun : PrescribedRun { table := table } calls) {s : Presence}
    (hs : run { table := table } calls = s) :
    (s.given = some .retire → s.askFirst = true →
      ∃ log, s.wait = some log ∧ log.Fair s.check.old s.check.number ∧ log.Done) ∧
    (s.counted = true → s.given ≠ some .retire ∧ s.given ≠ some .admits) ∧
    (∀ n sender data, n < s.checks → s.checks - n < 2 ^ 32 → Carries data (UInt32.ofNat n) →
      (s.check.noteAnswer sender data).1 = false) ∧
    (∀ a c, s.table.clientAt a = some c → c.helloHeld = true →
      s.check.active = true ∧ a = s.check.newcomer) := by
  have h : Inv s := hs ▸ (Inv.init table hfree).run hrun
  refine ⟨fun hg hask => h.retiring ((h.given _ hg).2.1 rfl) hask (.inr hg), fun hc => ⟨fun hg => ?_, fun hg => ?_⟩,
    fun n sender data hn hnear hdata => ?_, fun a c hc hh => ?_⟩
  · have hph := (h.given _ hg).2.1 rfl
    rcases h.counted hc with hr | hi <;> simp_all
  · have hph := (h.given _ hg).2.2 rfl
    rcases h.counted hc with hr | hi <;> simp_all
  · -- The numbers are less than a turn apart, so they differ.
    have hne : IdentityCheck.replyNumber data ≠ s.check.number := by
      rw [hdata.2, h.number]
      intro heq
      have := congrArg UInt32.toNat heq
      simp only [UInt32.toNat_ofNat'] at this
      omega
    unfold IdentityCheck.noteAnswer
    split_ifs <;> rfl
  · obtain ⟨hact, ha, -⟩ := h.held a c hc hh
    exact ⟨hact, ha⟩

/-- A client in the first slot with the id of one in the second. -/
def twoOfOneId : ClientTable :=
  { wifi := fun i =>
      if i = 0 then some {} else if i = 1 then some { identified := true, id := 7 } else none
    usb := none }

/-- The old entry is asked and given eight calls a quarter second apart, and says nothing. -/
def unansweredCheck : List CheckCall :=
  [.begins (.wifi 0) (.wifi 1) { id := 7 } true 0, .nextStep ⟨0, .wifi, true⟩, .asked 0] ++
    (List.range 8).map fun i => .nextStep ⟨250000 * (i + 1), .wifi, true⟩

theorem presence_check_safe_unanswered :
    (run { table := twoOfOneId } unansweredCheck).given = some .retire ∧
      ∃ log, (run { table := twoOfOneId } unansweredCheck).wait = some log ∧
        log.Fair (.wifi 1) 0 ∧ log.Done := by
  have hgiven : (run { table := twoOfOneId } unansweredCheck).given = some .retire := by decide
  have hfree : ∀ a c, twoOfOneId.clientAt a = some c → c.helloHeld = false := by
    rintro (i | _) c hc
    · simp only [clientAt, twoOfOneId] at hc
      split_ifs at hc <;> obtain rfl := Option.some.inj hc <;> rfl
    · cases hc
  have hrun : PrescribedRun { table := twoOfOneId } unansweredCheck := by
    refine prescribedRun_cons.mpr ⟨⟨le_refl _, fun c hc => ?_⟩, ?_⟩
    · obtain rfl := Option.some.inj hc
      rfl
    · refine prescribedRun_cons.mpr ⟨⟨by decide, by decide⟩,
        prescribedRun_cons.mpr ⟨⟨by decide, by decide⟩, ?_⟩⟩
      iterate 8 refine prescribedRun_cons.mpr ⟨⟨by decide, by decide⟩, ?_⟩
      exact prescribedRun_nil
  exact ⟨hgiven, (presence_check_safe hfree hrun rfl).1 hgiven (by decide)⟩

/-- A client on USB with the id of one in the second slot. -/
def usbOfOneId : ClientTable :=
  { wifi := fun i => if i = 1 then some { identified := true, id := 7 } else none
    usb := some {} }

/-- The old entry is asked over WiFi and its link called every quarter second. It is a call of the
USB link that finds the two seconds over; then the answer comes, and five seconds later the WiFi
link takes its next step. -/
def lateAnswer : List CheckCall :=
  [.begins .usb (.wifi 1) { id := 7 } true 0, .nextStep ⟨0, .wifi, true⟩, .asked 0] ++
    ((List.range 7).map fun i => .nextStep ⟨250000 * (i + 1), .wifi, true⟩) ++
    [.nextStep ⟨2000000, .usb, true⟩, .noteAnswer (.wifi 1) [0, 0, 0, 0],
      .nextStep ⟨7000000, .wifi, true⟩]

/-- An entry still there is removed although it has answered, and after a pause of five seconds:
both came between the end of the wait and the call that says so to its link. -/
theorem late_answer_retired :
    PrescribedRun { table := usbOfOneId } lateAnswer ∧
      (run { table := usbOfOneId } lateAnswer).given = some .retire ∧
      (run { table := usbOfOneId } lateAnswer).askFirst = true ∧
      (run { table := usbOfOneId } lateAnswer).check.oldPresent
        (run { table := usbOfOneId } lateAnswer).table = true ∧
      ∃ log, (run { table := usbOfOneId } lateAnswer).wait = some log ∧
        (¬ log.untilNow.times.IsChain fun a b => b ≤ a + 250000) ∧
        (∃ r ∈ log.untilNow.replies, r.1 = .wifi 1 ∧ Carries r.2 0) ∧
        ¬ log.untilNow.Fair (.wifi 1) 0 := by
  have hrun : PrescribedRun { table := usbOfOneId } lateAnswer := by
    refine prescribedRun_cons.mpr ⟨⟨le_refl _, fun c hc => ?_⟩, ?_⟩
    · obtain rfl := Option.some.inj hc
      rfl
    · refine prescribedRun_cons.mpr ⟨⟨by decide, by decide⟩,
        prescribedRun_cons.mpr ⟨⟨by decide, by decide⟩, ?_⟩⟩
      iterate 7 refine prescribedRun_cons.mpr ⟨⟨by decide, by decide⟩, ?_⟩
      exact prescribedRun_cons.mpr ⟨⟨by decide, by decide⟩, prescribedRun_cons.mpr ⟨trivial,
        prescribedRun_cons.mpr ⟨⟨by decide, by decide⟩, prescribedRun_nil⟩⟩⟩
  have hreply : ∃ r ∈ [(Seat.wifi 1, [(0 : UInt8), 0, 0, 0])], r.1 = .wifi 1 ∧ Carries r.2 0 :=
    ⟨_, List.mem_singleton_self _, rfl, by decide, by decide⟩
  refine ⟨hrun, by decide, by decide, by decide, _, rfl, by decide, hreply, fun hfair => ?_⟩
  obtain ⟨r, hr, hanswer⟩ := hreply
  exact hfair.silent r hr hanswer

end Presence

end CarveraFirmware.Clients
