import Mathlib
import CarveraFirmware.Clients.Control

/-!
# Hellos and the presence check

`libs/IdentityCheck.cpp`: what happens to a hello whose id another client already has. One
check runs at a time. It holds the newcomer's hello while the old entry is asked whether it
is still there.
-/

namespace CarveraFirmware.Clients

/-- A parsed hello. -/
structure Hello where
  id : UInt64 := 0
  name : List UInt8 := []
  link : Link := .wifi
  features : UInt8 := 0
  hasLaunch : Bool := false
  launch : UInt64 := 0
  deriving DecidableEq

def sameLaunch (client : Client) (hello : Hello) : Bool :=
  if client.hasLaunch != hello.hasLaunch then false
  else !hello.hasLaunch || client.launch == hello.launch

def presenceAnswerWaitUs : UInt32 := 2000000
def presenceMaxPauseUs : UInt32 := 250000
def presenceCheckLength : Nat := 4

/-- What `decide_hello` decides; `admits` is the source's `admit`. -/
inductive HelloAction where
  | admits | replace | ask | busy
  deriving DecidableEq, Repr

/-- `other` is the entry holding the id, unless the hello is admitted or told to wait. -/
structure HelloDecision where
  action : HelloAction := .admits
  other : Option Seat := none
  deriving DecidableEq

/-- The other identified entry with the hello's id that `decide_hello` finds. -/
def otherWithId (table : ClientTable) (self : Seat) (hello : Hello) : Option Seat :=
  let except := match self with | .wifi i => some i | .usb => none
  match table.findWifiById hello.id except with
  | some i => some (.wifi i)
  | none => if self.link = .wifi && table.usbHasId hello.id then some .usb else none

/-- `decide_hello(table, self, hello)`. -/
def decideHelloAlone (table : ClientTable) (self : Seat) (hello : Hello) : HelloDecision :=
  match otherWithId table self hello with
  | none => {}
  | some other =>
    { other := some other
      action := if (table.clientAt other).any (sameLaunch · hello) then .replace else .ask }

/-- `admit_hello(self, hello, control)`: the client, whether control was freed, and the token. -/
def admitHello (self : Client) (hello : Hello) (control : ControlToken) :
    Client × Bool × ControlToken :=
  let self := self.setIdentity hello.id hello.name
  ({ self with features := hello.features, hasLaunch := hello.hasLaunch, launch := hello.launch },
    control.releaseIfHolder hello.id)

inductive CheckStep where
  | wait | ask | retire | refuse | admits | drop
  deriving DecidableEq, Repr

inductive Phase where
  | idle | ask | waiting | retire | admits | refuse
  deriving DecidableEq, Repr

/-- The seats, address, times and hello are those of the check in progress; they are only read
while one is. -/
structure IdentityCheck where
  phase : Phase := .idle
  newcomer : Seat := .usb
  old : Seat := .usb
  newcomerAddress : Address := {}
  number : UInt32 := 0
  askedUs : UInt32 := 0
  lastStepUs : UInt32 := 0
  hello : Hello := {}

namespace IdentityCheck

def active (check : IdentityCheck) : Bool := check.phase != .idle

def holds (check : IdentityCheck) (seat : Seat) : Bool := check.active && seat == check.newcomer

/-- `begin(table, newcomer, old, hello, ask_first, now)`. -/
def beginCheck (check : IdentityCheck) (table : ClientTable) (newcomer old : Seat) (hello : Hello)
    (askFirst : Bool) (now : UInt32) : Bool × IdentityCheck × ClientTable :=
  if check.active then (false, check, table)
  else
    match table.clientAt newcomer with
    | none => (false, check, table)
    | some client =>
      (true,
        { check with
          newcomer := newcomer, newcomerAddress := client.address, old := old, hello := hello
          lastStepUs := now, phase := if askFirst then .ask else .retire },
        table.setAt newcomer (some { client with helloHeld := true }))

def newcomerPresent (check : IdentityCheck) (table : ClientTable) : Bool :=
  (table.clientAt check.newcomer).any fun c =>
    c.helloHeld && !c.identified && c.address == check.newcomerAddress

def oldPresent (check : IdentityCheck) (table : ClientTable) : Bool :=
  (table.clientAt check.old).any fun c => c.identified && c.id == check.hello.id

/-- The phase `next_step` moves to before it decides what the link does. -/
def settlePhase (check : IdentityCheck) (table : ClientTable) (link : Link) (now : UInt32)
    (linkCanRead : Bool) : Phase :=
  let phase :=
    if check.phase ≠ .refuse ∧ ¬ check.oldPresent table then .admits else check.phase
  let phase :=
    if link = check.old.link ∧ ¬ linkCanRead ∧ (phase = .waiting ∨ phase = .retire) then .ask
    else phase
  let phase :=
    if phase = .waiting ∧ now - check.lastStepUs > presenceMaxPauseUs then .ask else phase
  if phase = .waiting ∧ now - check.askedUs ≥ presenceAnswerWaitUs then .retire else phase

/-- What a link is told in each phase. -/
def stepFor (check : IdentityCheck) (phase : Phase) (link : Link) (linkCanRead : Bool) :
    CheckStep :=
  match phase with
  | .ask => if link = check.old.link && linkCanRead then .ask else .wait
  | .retire => if link = check.old.link then .retire else .wait
  | .refuse => if link = check.newcomer.link then .refuse else .wait
  | .admits => if link = check.newcomer.link then .admits else .wait
  | _ => .wait

def nextStep (check : IdentityCheck) (table : ClientTable) (link : Link) (now : UInt32)
    (linkCanRead : Bool) : CheckStep × IdentityCheck :=
  if !check.active then (.wait, check)
  else if !check.newcomerPresent table then (.drop, check)
  else
    let phase := check.settlePhase table link now linkCanRead
    (check.stepFor phase link linkCanRead, { check with phase := phase, lastStepUs := now })

/-- The four bytes of the current number, high byte first. -/
def buildQuestion (check : IdentityCheck) : List UInt8 :=
  (List.range 4).map fun i => (check.number >>> UInt32.ofNat (8 * (3 - i))).toUInt8

def asked (check : IdentityCheck) (now : UInt32) : IdentityCheck :=
  if check.phase ≠ .ask then check else { check with askedUs := now, phase := .waiting }

def retired (check : IdentityCheck) : IdentityCheck :=
  if check.phase = .retire then { check with phase := .admits } else check

/-- The number a reply carries in its first four bytes. -/
def replyNumber (data : List UInt8) : UInt32 :=
  (data.take presenceCheckLength).foldl (fun n b => (n <<< 8) ||| b.toUInt32) 0

def noteAnswer (check : IdentityCheck) (sender : Seat) (data : List UInt8) :
    Bool × IdentityCheck :=
  if check.phase ≠ .waiting ∨ sender ≠ check.old then (false, check)
  else if data.length < presenceCheckLength then (false, check)
  else if replyNumber data ≠ check.number then (false, check)
  else (true, { check with phase := .refuse })

/-- `end(table)`. -/
def endCheck (check : IdentityCheck) (table : ClientTable) : IdentityCheck × ClientTable :=
  if !check.active then (check, table)
  else
    ({ check with phase := .idle, number := check.number + 1 },
      if check.newcomerPresent table then
        table.modifyAt check.newcomer fun c => { c with helloHeld := false }
      else table)

end IdentityCheck

/-- `decide_hello(table, self, hello, check)`. -/
def decideHello (table : ClientTable) (self : Seat) (hello : Hello) (check : IdentityCheck) :
    HelloDecision :=
  if check.active && check.hello.id == hello.id then { action := .busy }
  else
    let decision := decideHelloAlone table self hello
    let needsCheck := decision.action = .ask ∨ decision.action = .replace ∧ self.link = .usb
    if needsCheck ∧ check.active then { decision with action := .busy } else decision

/-! ## What the functions decide -/

theorem otherWithId_eq_some {table : ClientTable} {self other : Seat} {hello : Hello}
    (h : otherWithId table self hello = some other) :
    other ≠ self ∧ ∃ c, table.clientAt other = some c ∧ c.identified = true ∧ c.id = hello.id := by
  unfold otherWithId at h
  simp only at h
  split at h
  · next i hi =>
    obtain ⟨hne, c, hc⟩ := ClientTable.findWifiById_eq_some hi
    obtain rfl : Seat.wifi i = other := by simpa using h
    refine ⟨?_, c, hc⟩
    rintro rfl
    exact hne rfl
  · split at h
    · next hcond =>
      simp only [Bool.and_eq_true, decide_eq_true_eq] at hcond
      obtain rfl : Seat.usb = other := by simpa using h
      obtain ⟨c, hc⟩ := ClientTable.usbHasId_iff.mp hcond.2
      refine ⟨?_, c, hc⟩
      rintro rfl
      simp [Seat.link] at hcond
    · cases h

/-- No other entry is found: no seat but the sender's own is identified under the id. -/
theorem otherWithId_eq_none {table : ClientTable} {self : Seat} {hello : Hello}
    (h : otherWithId table self hello = none) :
    ∀ s c, s ≠ self → table.clientAt s = some c → c.identified = true → c.id ≠ hello.id := by
  unfold otherWithId at h
  simp only at h
  split at h
  · cases h
  · next hi =>
    rw [ClientTable.findWifiById_eq_none] at hi
    split at h
    · cases h
    · next hcond =>
      intro s c hs hc hid
      cases s with
      | wifi i =>
        refine hi i c ?_ hc hid
        cases self with
        | wifi j => simpa using hs
        | usb => simp
      | usb =>
        intro hcid
        cases self with
        | wifi j =>
          exact hcond (by simp [Seat.link, ClientTable.usbHasId_iff.mpr ⟨c, hc, hid, hcid⟩])
        | usb => exact hs rfl

/-! ## Steps of the check -/

namespace IdentityCheck

theorem settlePhase_admits {check : IdentityCheck} {table : ClientTable} {link : Link}
    {now : UInt32} {canRead : Bool} (h : check.settlePhase table link now canRead = .admits) :
    check.phase = .admits ∨ check.oldPresent table = false := by
  by_contra hcon
  simp only [not_or, Bool.not_eq_false] at hcon
  obtain ⟨hphase, hold⟩ := hcon
  simp only [settlePhase, hold, not_true_eq_false, and_false, if_false] at h
  split_ifs at h
  all_goals simp_all

theorem settlePhase_ask {check : IdentityCheck} {table : ClientTable} {link : Link}
    {now : UInt32} {canRead : Bool} (h : check.settlePhase table link now canRead = .ask) :
    check.oldPresent table = true := by
  by_contra hold
  simp only [settlePhase, hold] at h
  split_ifs at h
  all_goals simp_all

/-- The check goes on waiting only with the link readable and nothing run out. -/
theorem settlePhase_waiting {check : IdentityCheck} {table : ClientTable} {link : Link}
    {now : UInt32} {canRead : Bool} (h : check.settlePhase table link now canRead = .waiting) :
    check.phase = .waiting ∧ (link = check.old.link → canRead = true) ∧
      now - check.lastStepUs ≤ presenceMaxPauseUs ∧
      ¬ now - check.askedUs ≥ presenceAnswerWaitUs := by
  simp only [settlePhase] at h
  split_ifs at h
  all_goals simp_all

/-- It comes to retire from a wait that has run out, or was there before. -/
theorem settlePhase_retire {check : IdentityCheck} {table : ClientTable} {link : Link}
    {now : UInt32} {canRead : Bool} (h : check.settlePhase table link now canRead = .retire) :
    (link = check.old.link → canRead = true) ∧ (check.phase = .retire ∨
      check.phase = .waiting ∧ now - check.lastStepUs ≤ presenceMaxPauseUs ∧
        now - check.askedUs ≥ presenceAnswerWaitUs) := by
  simp only [settlePhase] at h
  split_ifs at h
  all_goals simp_all

theorem settlePhase_of_refuse {check : IdentityCheck} (table : ClientTable) (link : Link)
    (now : UInt32) (canRead : Bool) (h : check.phase = .refuse) :
    check.settlePhase table link now canRead = .refuse := by
  simp [settlePhase, h]

theorem settlePhase_of_admits {check : IdentityCheck} (table : ClientTable) (link : Link)
    (now : UInt32) (canRead : Bool) (h : check.phase = .admits) :
    check.settlePhase table link now canRead = .admits := by
  simp [settlePhase, h]

theorem settlePhase_ne_idle {check : IdentityCheck} (table : ClientTable) (link : Link)
    (now : UInt32) (canRead : Bool) (h : check.active = true) :
    check.settlePhase table link now canRead ≠ .idle := by
  have hidle : check.phase ≠ .idle := by simpa [active] using h
  simp only [settlePhase]
  split_ifs
  all_goals simp_all

/-- Right after the question nothing has run out. -/
theorem settlePhase_of_waiting {check : IdentityCheck} {table : ClientTable} (link : Link)
    {now : UInt32} (h : check.phase = .waiting) (hold : check.oldPresent table = true)
    (hstep : check.lastStepUs = now) (hasked : check.askedUs = now) :
    check.settlePhase table link now true = .waiting := by
  simp [settlePhase, h, hold, hstep, hasked, presenceMaxPauseUs, presenceAnswerWaitUs]

/-- What a step other than `wait` and `drop` says about the check and the table. -/
theorem nextStep_spec {check : IdentityCheck} {table : ClientTable} {link : Link} {now : UInt32}
    {canRead : Bool} {r : CheckStep × IdentityCheck}
    (hr : check.nextStep table link now canRead = r) (hwait : r.1 ≠ .wait) (hdrop : r.1 ≠ .drop) :
    check.active = true ∧ check.newcomerPresent table = true ∧
      r.2 = { check with phase := check.settlePhase table link now canRead, lastStepUs := now } ∧
      r.1 = check.stepFor (check.settlePhase table link now canRead) link canRead := by
  unfold nextStep at hr
  split at hr
  · exact absurd (congrArg Prod.fst hr).symm hwait
  · split at hr
    · exact absurd (congrArg Prod.fst hr).symm hdrop
    · next hact hnew =>
      subst hr
      exact ⟨by simpa using hact, by simpa using hnew, rfl, rfl⟩

theorem stepFor_eq {check : IdentityCheck} {phase : Phase} {link : Link} {canRead : Bool}
    {step : CheckStep} (h : check.stepFor phase link canRead = step) :
    (step = .ask → phase = .ask ∧ canRead = true) ∧ (step = .retire → phase = .retire ∧ link = check.old.link) ∧
      (step = .refuse → phase = .refuse) ∧
      (step = .admits → phase = .admits ∧ link = check.newcomer.link) := by
  subst h
  cases phase <;> simp [stepFor] <;> split <;> simp_all

theorem endCheck_idle (check : IdentityCheck) (table : ClientTable) :
    (check.endCheck table).1.active = false := by
  unfold endCheck
  split
  · next h => simpa using h
  · rfl

end IdentityCheck

end CarveraFirmware.Clients
