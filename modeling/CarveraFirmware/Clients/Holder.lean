import Mathlib
import CarveraFirmware.Clients.Links

/-!
# One connection per id, and control is never inherited

Over every run of the two links: no two identified clients have the same id, and a client
that is in control took it by a command of its own on this connection.
-/

namespace CarveraFirmware.Clients

/-- The id the client at a seat has identified with. -/
def ClientTable.identAt (table : ClientTable) (a : Seat) : Option UInt64 :=
  (table.clientAt a).bind fun c => if c.identified then some c.id else none

theorem ClientTable.identAt_eq_some {table : ClientTable} {a : Seat} {x : UInt64} :
    table.identAt a = some x ↔
      ∃ c, table.clientAt a = some c ∧ c.identified = true ∧ c.id = x := by
  simp [ClientTable.identAt, Option.bind_eq_some_iff]

theorem ClientTable.identAt_setAt (table : ClientTable) (a b : Seat) (c : Option Client) :
    (table.setAt a c).identAt b =
      if b = a then c.bind fun c => if c.identified then some c.id else none
      else table.identAt b := by
  unfold identAt
  rw [clientAt_setAt]
  split <;> rfl

/-- Rewriting a client without touching its identity. -/
theorem ClientTable.identAt_modifyAt (table : ClientTable) (a b : Seat) {f : Client → Client}
    (hf : ∀ c, (f c).identified = c.identified ∧ (f c).id = c.id) :
    (table.modifyAt a f).identAt b = table.identAt b := by
  rw [modifyAt, identAt_setAt]
  split
  · next h =>
    subst h
    unfold identAt
    cases table.clientAt b with
    | none => rfl
    | some c => simp [hf c]
  · rfl

/-- The USB client's hello is held. -/
def ClientTable.usbHeld (table : ClientTable) : Bool := table.usb.any (·.helloHeld)

namespace Links

/-- What holds of the links in every reachable state. -/
structure Inv (s : Links) : Prop where
  unique : ∀ a b x, s.table.identAt a = some x → s.table.identAt b = some x → a = b
  /-- Only the old entry of a check can have the id being checked. -/
  checked : s.check.active = true → ∀ a, s.table.identAt a = some s.check.hello.id →
    a = s.check.old
  /-- Once the newcomer is to be admitted, nobody has. -/
  admitting : s.check.phase = .admits → ∀ a, s.table.identAt a ≠ some s.check.hello.id
  /-- A holder that is present took control by a command sent in its present session. -/
  earned : s.control.holder.identified = true → ∀ a, s.table.identAt a = some s.control.holder.id →
    ∃ z ∈ s.seizures, z.seat = a ∧ z.sentIn = s.session a ∧ z.passedIn = s.session a ∧
      z.sender = s.control.holder
  wifiWait : ∀ i w, s.wifiWaiting = some (i, w) → w.session = s.session (.wifi i)
  /-- A USB command may outlive its session, but then no hello is read before it is gone. -/
  usbWait : ∀ w, s.usbWaiting = some w → w.session = s.session .usb ∨
    s.table.identAt .usb = none ∧ s.table.usbHeld = false

variable {s : Links}

/-- The invariant reads the table only through identities and the USB hold. -/
theorem Inv.of_table (h : Inv s) {table : ClientTable}
    (hid : ∀ a, table.identAt a = s.table.identAt a)
    (hheld : s.table.usbHeld = false → table.usbHeld = false) : Inv { s with table := table } where
  unique := fun a b x ha hb => h.unique a b x (hid a ▸ ha) (hid b ▸ hb)
  checked := fun hact a ha => h.checked hact a (hid a ▸ ha)
  admitting := fun hph a ha => h.admitting hph a (hid a ▸ ha)
  earned := fun hh a ha => h.earned hh a (hid a ▸ ha)
  wifiWait := h.wifiWait
  usbWait := fun w hw => (h.usbWait w hw).imp_right fun ⟨h1, h2⟩ => ⟨(hid .usb).trans h1, hheld h2⟩

theorem Inv.emit (h : Inv s) (x : Sent) : Inv (s.emit x) :=
  ⟨h.unique, h.checked, h.admitting, h.earned, h.wifiWait, h.usbWait⟩

theorem usbHeld_modifyAt (table : ClientTable) (a : Seat) {f : Client → Client}
    (hf : ∀ c, (f c).helloHeld = c.helloHeld ∨ (f c).helloHeld = false) :
    table.usbHeld = false → (table.modifyAt a f).usbHeld = false := by
  intro hheld
  cases a with
  | wifi i => exact hheld
  | usb =>
    cases hu : table.usb with
    | none => simp [ClientTable.modifyAt, ClientTable.setAt, ClientTable.usbHeld,
        ClientTable.clientAt, hu]
    | some c =>
      have hc : c.helloHeld = false := by simpa [ClientTable.usbHeld, hu] using hheld
      have : (f c).helloHeld = false := (hf c).elim (fun h => h.trans hc) id
      simp [ClientTable.modifyAt, ClientTable.setAt, ClientTable.usbHeld,
        ClientTable.clientAt, hu, this]

/-- A client is rewritten, its identity and hold left alone. -/
theorem Inv.modifyAt (h : Inv s) (a : Seat) {f : Client → Client}
    (hf : ∀ c, (f c).identified = c.identified ∧ (f c).id = c.id ∧
      ((f c).helloHeld = c.helloHeld ∨ (f c).helloHeld = false)) :
    Inv { s with table := s.table.modifyAt a f } :=
  h.of_table (fun b => s.table.identAt_modifyAt a b fun c => ⟨(hf c).1, (hf c).2.1⟩)
    (usbHeld_modifyAt s.table a fun c => (hf c).2.2)

/-- The connection at `a` ends: its identity goes and its session number goes up. -/
theorem Inv.sessionEnds (h : Inv s) (a : Seat) {t : Links}
    (hid : ∀ b, t.table.identAt b = if b = a then none else s.table.identAt b)
    (hsession : t.session = Function.update s.session a (s.session a + 1))
    (hwifi : t.wifiWaiting = s.wifiWaiting ∧ (∀ i w, s.wifiWaiting = some (i, w) → a ≠ .wifi i) ∨
      t.wifiWaiting = none)
    (husb : t.usbWaiting = s.usbWaiting) (hcheck : t.check = s.check)
    (hcontrol : t.control = s.control) (hseizures : t.seizures = s.seizures)
    (hheld : a = .usb → t.table.usbHeld = false)
    (hheld' : a ≠ .usb → t.table.usbHeld = s.table.usbHeld) : Inv t := by
  -- Every identity that is left belongs to another seat, and was there before.
  have hsome : ∀ {b x}, t.table.identAt b = some x → b ≠ a ∧ s.table.identAt b = some x := by
    intro b x hb
    rw [hid] at hb
    split at hb
    · cases hb
    · next hne => exact ⟨hne, hb⟩
  refine ⟨?_, ?_, ?_, ?_, ?_, ?_⟩
  · exact fun b c x hb hc => h.unique b c x (hsome hb).2 (hsome hc).2
  · rw [hcheck]
    exact fun hact b hb => h.checked hact b (hsome hb).2
  · rw [hcheck]
    exact fun hph b hb => h.admitting hph b (hsome hb).2
  · rw [hcontrol, hseizures, hsession]
    intro hh b hb
    obtain ⟨hne, hb'⟩ := hsome hb
    rw [Function.update_of_ne hne]
    exact h.earned hh b hb'
  · intro i w hw
    rcases hwifi with ⟨heq, hne⟩ | hnone
    · rw [heq] at hw
      rw [hsession, Function.update_of_ne (hne i w hw).symm]
      exact h.wifiWait i w hw
    · rw [hnone] at hw
      cases hw
  · intro w hw
    rw [husb] at hw
    by_cases ha : a = .usb
    · refine .inr ⟨?_, hheld ha⟩
      rw [hid, if_pos ha.symm]
    · rw [hsession, Function.update_of_ne (Ne.symm ha), hid, if_neg (Ne.symm ha), hheld' ha]
      exact h.usbWait w hw

theorem Inv.retireWifiClient (h : Inv s) (i : Fin maxWifiClients) :
    Inv (s.retireWifiClient i) := by
  unfold Links.retireWifiClient
  split
  · exact h
  · refine h.sessionEnds (.wifi i) (fun b => ?_) rfl ?_ rfl rfl rfl rfl (by simp) (fun _ => rfl)
    · exact s.table.identAt_setAt (.wifi i) b none
    · simp only [Links.newSession, Links.forgetWifiClient]
      cases hw : s.wifiWaiting with
      | none => exact .inr (by simp)
      | some p =>
        by_cases hp : p.1 = i
        · exact .inr (by simp [hp])
        · refine .inl ⟨by simp [hp], ?_⟩
          rintro j w hj hij
          simp_all

theorem identAt_retireWifiClient (s : Links) (i : Fin maxWifiClients) (b : Seat) :
    (s.retireWifiClient i).table.identAt b =
      if b = .wifi i then none else s.table.identAt b := by
  unfold Links.retireWifiClient
  split
  · next hnone =>
    split
    · next hb =>
      subst hb
      simp only [Option.isNone_iff_eq_none] at hnone
      simp [ClientTable.identAt, ClientTable.clientAt, hnone]
    · rfl
  · exact s.table.identAt_setAt (.wifi i) b none

theorem identAt_clearUsbIdentity (s : Links) (b : Seat) :
    s.clearUsbIdentity.table.identAt b = if b = .usb then none else s.table.identAt b := by
  simp only [Links.clearUsbIdentity, Links.newSession, ClientTable.clearUsbIdentity,
    ClientTable.modifyAt, ClientTable.identAt_setAt]
  cases s.table.clientAt .usb <;> simp

theorem identAt_retireOld (s : Links) (b : Seat) :
    s.retireOld.table.identAt b = if b = s.check.old then none else s.table.identAt b := by
  unfold Links.retireOld
  cases s.check.old with
  | wifi i => exact identAt_retireWifiClient s i b
  | usb => exact identAt_clearUsbIdentity s b

theorem Inv.clearUsbIdentity (h : Inv s) : Inv s.clearUsbIdentity := by
  refine h.sessionEnds .usb (identAt_clearUsbIdentity s) rfl (.inl ⟨rfl, by simp⟩) rfl rfl rfl rfl
    (fun _ => ?_) (fun hne => absurd rfl hne)
  · simp only [Links.clearUsbIdentity, Links.newSession, ClientTable.clearUsbIdentity,
      ClientTable.modifyAt, ClientTable.usbHeld, ClientTable.setAt]
    cases s.table.clientAt .usb <;> simp

theorem Inv.retireOld (h : Inv s) : Inv s.retireOld := by
  unfold Links.retireOld
  cases s.check.old with
  | wifi i => exact h.retireWifiClient i
  | usb => exact h.clearUsbIdentity

/-- The client at `a` identifies with an id nobody else has and no check is about. -/
theorem Inv.admitAt (h : Inv s) (a : Seat) (hello : Hello)
    (hother : ∀ b, b ≠ a → s.table.identAt b ≠ some hello.id)
    (hcheck : s.check.active = true → s.check.hello.id ≠ hello.id)
    (husb : a = .usb → ∀ w, s.usbWaiting = some w → w.session = s.session .usb) :
    Inv (s.admitAt a hello) := by
  unfold Links.admitAt
  split
  · exact h
  · next self hself =>
    apply Inv.emit
    have hid : ∀ b, (s.table.setAt a (some (admitHello self hello s.control).1)).identAt b =
        if b = a then some hello.id else s.table.identAt b := by
      intro b
      rw [ClientTable.identAt_setAt]
      simp [admitHello, Client.setIdentity]
    have hsome : ∀ {b x}, (s.table.setAt a (some (admitHello self hello s.control).1)).identAt b =
        some x → b = a ∧ x = hello.id ∨ b ≠ a ∧ s.table.identAt b = some x := by
      intro b x hb
      rw [hid] at hb
      split at hb
      · next he => exact .inl ⟨he, by simpa using hb.symm⟩
      · next hne => exact .inr ⟨hne, hb⟩
    refine ⟨?_, ?_, ?_, ?_, h.wifiWait, ?_⟩
    · intro b c x hb hc
      -- Two seats with one id: at most one of them is the new one, and nobody else has its id.
      rcases hsome hb with ⟨rfl, rfl⟩ | ⟨hba, hb'⟩ <;> rcases hsome hc with ⟨rfl, hx⟩ | ⟨hca, hc'⟩
      · rfl
      · exact absurd hc' (hother c hca)
      · exact absurd (hx ▸ hb') (hother b hba)
      · exact h.unique b c x hb' hc'
    · intro hact b hb
      rcases hsome hb with ⟨-, hx⟩ | ⟨-, hb'⟩
      · exact absurd hx (hcheck hact)
      · exact h.checked hact b hb'
    · intro hph b hb
      change s.check.phase = .admits at hph
      have hact : s.check.active = true := by simp [IdentityCheck.active, hph]
      rcases hsome hb with ⟨-, hx⟩ | ⟨-, hb'⟩
      · exact hcheck hact hx
      · exact h.admitting hph b hb'
    · -- Control held under the admitted id was released.
      simp only [admitHello, releaseIfHolder_holder]
      split
      · intro hh
        cases hh
      · next hnot =>
        intro hh b hb
        rcases hsome hb with ⟨-, hx⟩ | ⟨-, hb'⟩
        · exact absurd ⟨hh, hx⟩ hnot
        · exact h.earned hh b hb'
    · intro w hw
      by_cases ha : a = .usb
      · exact .inl (husb ha w hw)
      · refine (h.usbWait w hw).imp_right fun hkept => ⟨?_, ?_⟩
        · exact (hid .usb).trans ((if_neg (Ne.symm ha)).trans hkept.1)
        · cases a with
          | wifi i => exact hkept.2
          | usb => exact absurd rfl ha

/-! ## The check -/

/-- The check changes phase but not what it is about. -/
theorem Inv.of_phase (h : Inv s) {check : IdentityCheck} (hhello : check.hello = s.check.hello)
    (hold : check.old = s.check.old) (hact : check.active = true → s.check.active = true)
    (hadm : check.phase = .admits → ∀ a, s.table.identAt a ≠ some s.check.hello.id) :
    Inv { s with check := check } where
  unique := h.unique
  checked := fun hc a ha => by
    rw [hhello] at ha
    exact (h.checked (hact hc) a ha).trans hold.symm
  admitting := fun hph a ha => by
    rw [hhello] at ha
    exact hadm hph a ha
  earned := h.earned
  wifiWait := h.wifiWait
  usbWait := h.usbWait

theorem oldPresent_iff {check : IdentityCheck} {table : ClientTable} :
    check.oldPresent table = true ↔ table.identAt check.old = some check.hello.id := by
  rw [ClientTable.identAt_eq_some]
  simp [IdentityCheck.oldPresent, Option.any_eq_true]

theorem Inv.nextStep (h : Inv s) (link : Link) (now : UInt32) (canRead : Bool) :
    Inv { s with check := (s.check.nextStep s.table link now canRead).2 } := by
  unfold IdentityCheck.nextStep
  split
  · exact h
  · next hact =>
    split
    · exact h
    · refine h.of_phase rfl rfl (fun _ => by simpa using hact) ?_
      intro hph a ha
      rcases IdentityCheck.settlePhase_admits hph with hadm | habsent
      · exact h.admitting hadm a ha
      · have hold := h.checked (by simpa using hact) a ha
        rw [hold] at ha
        rw [oldPresent_iff.mpr ha] at habsent
        cases habsent

theorem Inv.asked (h : Inv s) (now : UInt32) : Inv { s with check := s.check.asked now } := by
  unfold IdentityCheck.asked
  split
  · exact h
  · next hph =>
    refine h.of_phase rfl rfl (fun _ => ?_) (fun hp => by simp at hp)
    simp at hph
    simp [IdentityCheck.active, hph]

theorem Inv.noteAnswer (h : Inv s) (sender : Seat) (data : List UInt8) :
    Inv { s with check := (s.check.noteAnswer sender data).2 } := by
  unfold IdentityCheck.noteAnswer
  split
  · exact h
  · next hcond =>
    simp only [not_or, not_not] at hcond
    split
    · exact h
    · split
      · exact h
      · exact h.of_phase rfl rfl (fun _ => by simp [IdentityCheck.active, hcond.1])
          (fun hp => by simp at hp)

theorem identAt_endCheck (check : IdentityCheck) (table : ClientTable) (b : Seat) :
    (check.endCheck table).2.identAt b = table.identAt b := by
  unfold IdentityCheck.endCheck
  split
  · rfl
  · simp only
    split
    · exact table.identAt_modifyAt _ b fun c => ⟨rfl, rfl⟩
    · rfl

/-- The check ends and the newcomer's hold with it. -/
theorem Inv.endCheck (h : Inv s) :
    Inv { s with check := (s.check.endCheck s.table).1, table := (s.check.endCheck s.table).2 } := by
  unfold IdentityCheck.endCheck
  split
  · exact h
  · have hidle : Inv { s with
        check := { s.check with phase := .idle, number := s.check.number + 1 } } :=
      h.of_phase rfl rfl (fun hc => by simp [IdentityCheck.active] at hc) (fun hp => by simp at hp)
    simp only
    split
    · exact hidle.modifyAt s.check.newcomer fun c => ⟨rfl, rfl, .inr rfl⟩
    · exact hidle

theorem Inv.retired (h : Inv s) (hgone : ∀ a, s.table.identAt a ≠ some s.check.hello.id) :
    Inv { s with check := s.check.retired } := by
  unfold IdentityCheck.retired
  split
  · next hph =>
    exact h.of_phase rfl rfl (fun _ => by simp [IdentityCheck.active, hph]) (fun _ => hgone)
  · exact h

/-- Retiring the old entry leaves nobody with the id. -/
theorem Inv.retireOld_gone (h : Inv s) (hact : s.check.active = true) (a : Seat) :
    s.retireOld.table.identAt a ≠ some s.check.hello.id := by
  intro ha
  rw [identAt_retireOld] at ha
  split at ha
  · cases ha
  · next hne => exact hne (h.checked hact a ha)

/-- A held newcomer on USB keeps the USB loop from outliving its session. -/
theorem Inv.held_wait (h : Inv s) (hnew : s.check.newcomerPresent s.table = true) :
    s.check.newcomer = .usb → ∀ w, s.usbWaiting = some w → w.session = s.session .usb := by
  intro hseat w hw
  refine (h.usbWait w hw).resolve_right ?_
  rintro ⟨-, hheld⟩
  simp only [IdentityCheck.newcomerPresent, hseat, ClientTable.clientAt, Option.any_eq_true,
    Bool.and_eq_true] at hnew
  obtain ⟨c, hc, ⟨hch, -⟩, -⟩ := hnew
  simp [ClientTable.usbHeld, hc, hch] at hheld

theorem Inv.driveRound (h : Inv s) (link : Link) (now : UInt32) (canRead : Bool) :
    Inv (s.driveRound link now canRead).2 := by
  have hn := h.nextStep link now canRead
  unfold Links.driveRound
  generalize hr : s.check.nextStep s.table link now canRead = r at hn ⊢
  obtain ⟨step, check⟩ := r
  simp only at hn ⊢
  -- By what the check asks for; only retiring and admitting touch the identities.
  cases step with
  | wait => exact hn
  | ask => exact (hn.emit _).asked now
  | drop => exact hn.endCheck
  | refuse => exact (hn.emit _).endCheck
  | retire =>
    obtain ⟨hact, -, hcheck, hstep⟩ := IdentityCheck.nextStep_spec hr (by simp) (by simp)
    simp only at hcheck hstep
    have hph := ((IdentityCheck.stepFor_eq hstep.symm).2.1 rfl).1
    have hact' : check.active = true := by
      subst hcheck
      simp [IdentityCheck.active, hph]
    refine Inv.retired hn.retireOld ?_
    rw [check_retireOld]
    exact hn.retireOld_gone hact'
  | admits =>
    obtain ⟨hact, hnew, hcheck, hstep⟩ := IdentityCheck.nextStep_spec hr (by simp) (by simp)
    simp only at hcheck hstep
    have hph : check.phase = .admits := by
      subst hcheck
      exact ((IdentityCheck.stepFor_eq hstep.symm).2.2.2 rfl).1
    have hnew' : check.newcomerPresent s.table = true := by
      subst hcheck
      exact hnew
    refine hn.endCheck.admitAt _ _ ?_ ?_ ?_
    · intro b _
      rw [identAt_endCheck]
      exact hn.admitting hph b
    · intro hact'
      rw [IdentityCheck.endCheck_idle] at hact'
      cases hact'
    · exact hn.held_wait hnew'

theorem Inv.driveLoop (h : Inv s) (link : Link) (now : UInt32) (canRead : Bool) (fuel : Nat) :
    Inv (driveLoop link now canRead fuel s) := by
  induction fuel generalizing s with
  | zero => exact h
  | succ fuel ih =>
    simp only [Links.driveLoop]
    split
    · exact ih (h.driveRound link now canRead)
    · exact h.driveRound link now canRead

/-! ## Hellos and frames -/

theorem Inv.answerBusy (h : Inv s) (a : Seat) (now : UInt32) : Inv (s.answerBusy a now) := by
  refine Inv.emit (h.modifyAt a fun c => ?_) _
  unfold Client.restartHelloWindow
  split <;> simp

theorem Inv.repeatHello (h : Inv s) (a : Seat) (hello : Hello) : Inv (s.repeatHello a hello) := by
  refine Inv.emit (h.modifyAt a fun c => ?_) _
  exact ⟨rfl, rfl, .inl rfl⟩

/-- What a decision other than `busy` says: the id is not the one being checked, and either nobody
else has it and the hello is admitted, or the entry named has it. -/
theorem decideHello_spec {table : ClientTable} {a : Seat} {hello : Hello} {check : IdentityCheck}
    {d : HelloDecision} (hd : decideHello table a hello check = d) (hbusy : d.action ≠ .busy) :
    (check.active = true → check.hello.id ≠ hello.id) ∧
      ((d.action = .admits ∧ d.other = none ∧ ∀ b, b ≠ a → table.identAt b ≠ some hello.id) ∨
        ∃ other, d.other = some other ∧ d.action ≠ .admits ∧
          table.identAt other = some hello.id) := by
  unfold decideHello at hd
  split at hd
  · subst hd
    simp at hbusy
  next hid =>
  simp only at hd
  split at hd
  · subst hd
    simp at hbusy
  refine ⟨fun hact hx => hid (by simp [hact, hx]), ?_⟩
  unfold decideHelloAlone at hd
  split at hd
  · next hnone =>
    subst hd
    refine .inl ⟨rfl, rfl, fun b hb hx => ?_⟩
    obtain ⟨c, hc, hid', hcid⟩ := ClientTable.identAt_eq_some.mp hx
    exact otherWithId_eq_none hnone b c hb hc hid' hcid
  · next other hother =>
    subst hd
    obtain ⟨-, c, hc⟩ := otherWithId_eq_some hother
    refine .inr ⟨other, rfl, ?_, ClientTable.identAt_eq_some.mpr ⟨c, hc⟩⟩
    simp only
    split <;> simp

/-- A check starts against the entry that has the id. -/
theorem Inv.beginCheck (h : Inv s) {a other : Seat} {hello : Hello} {askFirst : Bool}
    {now : UInt32} {check : IdentityCheck} {table : ClientTable}
    (hold : s.table.identAt other = some hello.id) (husb : a = .usb → s.usbWaiting = none)
    (hbegin : s.check.beginCheck s.table a other hello askFirst now = (true, check, table)) :
    Inv { s with check := check, table := table } := by
  unfold IdentityCheck.beginCheck at hbegin
  split at hbegin
  · simp at hbegin
  · split at hbegin
    · simp at hbegin
    · next client hclient =>
      simp only [Prod.mk.injEq, true_and] at hbegin
      obtain ⟨rfl, rfl⟩ := hbegin
      -- holding the hello identifies nobody
      have hid : ∀ b, (s.table.setAt a (some { client with helloHeld := true })).identAt b =
          s.table.identAt b := by
        intro b
        rw [ClientTable.identAt_setAt]
        split
        · next hb =>
          subst hb
          simp [ClientTable.identAt, hclient]
        · rfl
      refine ⟨?_, ?_, ?_, ?_, h.wifiWait, ?_⟩
      · exact fun b c x hb hc => h.unique b c x (hid b ▸ hb) (hid c ▸ hc)
      · exact fun _ b hb => h.unique b other hello.id (hid b ▸ hb) hold
      · intro hph
        cases askFirst <;> simp at hph
      · exact fun hh b hb => h.earned hh b (hid b ▸ hb)
      · intro w hw
        cases a with
        | usb =>
          rw [husb rfl] at hw
          cases hw
        | wifi i => exact h.usbWait w hw

theorem Inv.handleWifiHello (h : Inv s) (i : Fin maxWifiClients) (hello : Hello) (now : UInt32) :
    Inv (s.handleWifiHello i hello now) := by
  unfold Links.handleWifiHello
  split
  · exact h
  split
  · exact h.repeatHello _ _
  split
  · exact h
  split
  · exact h.emit _
  simp only
  rcases hd : decideHello s.table (.wifi i) hello s.check with ⟨action, other⟩
  by_cases hbusy : action = .busy
  · subst hbusy
    exact h.answerBusy _ _
  obtain ⟨hcheck, ⟨hadm, hnone, hfree⟩ | ⟨seat, hseat, hnot, hfound⟩⟩ :=
    decideHello_spec hd hbusy
  · simp only at hadm hnone
    subst hadm hnone
    exact h.admitAt _ _ hfree hcheck (by simp)
  simp only at hseat hnot
  subst hseat
  cases action with
  | busy => exact absurd rfl hbusy
  | admits => exact absurd rfl hnot
  | replace =>
    -- The entry that is replaced goes first, so that its id is free when the newcomer gets it.
    cases seat with
    | usb =>
      refine h.clearUsbIdentity.admitAt _ _ (fun b _ => ?_) hcheck (by simp)
      rw [identAt_clearUsbIdentity]
      split
      · simp
      · next hb => exact fun hx => hb (h.unique b _ _ hx hfound)
    | wifi j =>
      refine (h.retireWifiClient j).admitAt _ _ (fun b _ => ?_) ?_ (by simp)
      · rw [identAt_retireWifiClient]
        split
        · simp
        · next hb => exact fun hx => hb (h.unique b _ _ hx hfound)
      · rw [check_retireWifiClient]
        exact hcheck
  | ask =>
    simp only
    split
    · next hbegin => exact (h.beginCheck hfound (by simp) hbegin).driveLoop _ _ _ _
    · exact h.answerBusy _ _

theorem Inv.handleUsbHello (h : Inv s) (hwait : s.usbWaiting = none) (hello : Hello)
    (now later : UInt32) (canRead : Bool) : Inv (s.handleUsbHello hello now later canRead) := by
  unfold Links.handleUsbHello
  split
  · exact h
  split
  · exact h.repeatHello _ _
  split
  · exact h
  split
  · exact h.emit _
  simp only
  rcases hd : decideHello s.table .usb hello s.check with ⟨action, other⟩
  by_cases hbusy : action = .busy
  · subst hbusy
    exact h.answerBusy _ _
  obtain ⟨hcheck, ⟨hadm, hnone, hfree⟩ | ⟨seat, hseat, hnot, hfound⟩⟩ :=
    decideHello_spec hd hbusy
  · simp only at hadm hnone
    subst hadm hnone
    exact h.admitAt _ _ hfree hcheck (fun _ w hw => by rw [hwait] at hw; cases hw)
  simp only at hseat hnot
  subst hseat
  cases action with
  | busy => exact absurd rfl hbusy
  | admits => exact absurd rfl hnot
  | replace | ask =>
    simp only
    split
    · next hbegin => exact (h.beginCheck hfound (fun _ => hwait) hbegin).driveLoop _ _ _ _
    · exact h.answerBusy _ _

/-- Control stays where it is or becomes free. -/
theorem Inv.of_control (h : Inv s) {token : ControlToken}
    (htoken : token.holder = {} ∨ token.holder = s.control.holder) :
    Inv { s with control := token } where
  unique := h.unique
  checked := h.checked
  admitting := h.admitting
  earned := by
    rcases htoken with hfree | hsame
    · intro hh
      simp only [hfree] at hh
      cases hh
    · simp only [hsame]
      exact h.earned
  wifiWait := h.wifiWait
  usbWait := h.usbWait

theorem Inv.handleControlRelease (h : Inv s) (a : Seat) : Inv (s.handleControlRelease a) := by
  unfold Links.handleControlRelease
  split
  · exact h
  split
  · exact h
  · refine h.of_control ?_
    rw [releaseIfHolder_holder]
    split <;> simp

theorem Inv.routeMakeraClient (h : Inv s) (hwait : s.wifiWaiting = none) (address : Address)
    (now : UInt32) : Inv (s.routeMakeraClient address now).2 := by
  unfold Links.routeMakeraClient
  split
  · exact h
  next hfind =>
  unfold ClientTable.addWifi
  simp only [hfind]
  split
  · next i table hadd =>
    split at hadd
    · next j hj =>
      simp only [Prod.mk.injEq, Option.some.injEq] at hadd
      obtain ⟨rfl, rfl⟩ := hadd
      refine h.sessionEnds (.wifi j) (fun b => ?_) rfl (.inr hwait) rfl rfl rfl rfl (by simp)
        (fun _ => rfl)
      exact s.table.identAt_setAt (.wifi j) b (some (ClientTable.newWifiClient address now))
    · cases hadd
  · next table hadd =>
    split at hadd
    · cases hadd
    · simp only [Prod.mk.injEq, true_and] at hadd
      subst hadd
      exact h

theorem waitingFor_session (s : Links) (a : Seat) (c : Command) :
    (s.waitingFor a c).session = s.session a := rfl

theorem Inv.wifiFrame (h : Inv s) (cfg : Config) (i : Fin maxWifiClients) (frame : WireFrame)
    (motion : MotionState) (now : UInt32) : Inv (s.wifiFrame cfg i frame motion now) := by
  unfold Links.wifiFrame
  split
  · exact h
  cases frame with
  | hello hello => exact h.handleWifiHello i hello now
  | heartbeat => exact h.modifyAt _ fun c => ⟨rfl, rfl, .inl rfl⟩
  | presenceReply data => exact h.noteAnswer _ data
  | controlRelease =>
    simp only
    split
    · exact h.handleControlRelease _
    · exact h
  | command c =>
    simp only
    split
    · refine ⟨h.unique, h.checked, h.admitting, h.earned, ?_, h.usbWait⟩
      intro j w hw
      simp only [Option.some.injEq, Prod.mk.injEq] at hw
      obtain ⟨rfl, rfl⟩ := hw
      exact waitingFor_session s (.wifi i) c
    · exact h
  | other => exact h

theorem Inv.usbFrame (h : Inv s) (hwait : s.usbWaiting = none) (cfg : Config) (frame : WireFrame)
    (motion : MotionState) (later : UInt32) (cachewait : Bool) :
    Inv (s.usbFrame cfg frame motion later cachewait) := by
  unfold Links.usbFrame
  simp only
  split
  · exact h
  cases frame with
  | hello hello => exact h.handleUsbHello hwait hello _ later _
  | heartbeat => exact h.modifyAt _ fun c => ⟨rfl, rfl, .inl rfl⟩
  | presenceReply data => exact h.noteAnswer _ data
  | controlRelease =>
    simp only
    split
    · exact h.handleControlRelease _
    · exact h
  | command c =>
    simp only
    split
    · refine ⟨h.unique, h.checked, h.admitting, h.earned, h.wifiWait, ?_⟩
      intro w hw
      simp only [Option.some.injEq] at hw
      subst hw
      exact .inl (waitingFor_session s .usb c)
    · exact h
  | other => exact h

/-! ## Dispatch -/

theorem identityOf_identified {table : ClientTable} {a : Seat}
    (h : (identityOf (table.clientAt a)).identified = true) :
    table.identAt a = some (identityOf (table.clientAt a)).id := by
  unfold ClientTable.identAt
  cases hat : table.clientAt a with
  | none => simp [hat, identityOf] at h
  | some c =>
    cases hc : c.identified
    · simp [hat, identityOf, hc] at h
    · simp [identityOf, hc]

/-- A command that passes the gate was sent in the session its sender now has, unless its sender
has no identity left to take control with. -/
theorem Inv.gateDispatch (h : Inv s) (cfg : Config) (a : Seat) (w : Waiting) (motion : MotionState)
    (hw : w.session = s.session a ∨ s.table.identAt a = none) :
    Inv (s.gateDispatch cfg a w motion).2 := by
  have hgate := gate_holder s.control (s.gateInputsFor cfg a w.command motion)
  unfold Links.gateDispatch
  simp only
  cases hchanged : (decideGate s.control.holder (s.gateInputsFor cfg a w.command motion)).holderChanged
  · have hsame : Inv { s with
        control := (s.control.gate (s.gateInputsFor cfg a w.command motion)).2 } := by
      refine h.of_control (.inr ?_)
      rw [hgate, hchanged]
      rfl
    split
    · exact hsame.emit _
    split
    · next hyes =>
      simp [ControlToken.gate, hchanged] at hyes
    · exact hsame
  · obtain ⟨-, hid, -⟩ := decideGate_holderChanged.mp hchanged
    have hident := identityOf_identified hid
    have hsession : w.session = s.session a := hw.resolve_right (by rw [hident]; simp)
    have hgate : s.control.gate (s.gateInputsFor cfg a w.command motion) =
        ({ holderChanged := true }, { holder := identityOf (s.table.clientAt a) }) := by
      simp only [ControlToken.gate, decideGate_not_refused hchanged]
      rfl
    simp only [hgate]
    refine ⟨h.unique, h.checked, h.admitting, ?_, h.wifiWait, h.usbWait⟩
    intro _ b hb
    -- The only client with the new holder's id is the sender.
    obtain rfl : b = a := h.unique b a _ hb hident
    exact ⟨_, List.mem_append_right _ (List.mem_singleton.mpr rfl), rfl, hsession, rfl, rfl⟩

theorem Inv.dispatch (h : Inv s) (cfg : Config) (a : Seat) (w : Waiting) (motion : MotionState)
    (startPending automaticRefused : Bool)
    (hw : w.session = s.session a ∨ s.table.identAt a = none) :
    Inv (s.dispatch cfg a w motion startPending automaticRefused) := by
  unfold Links.dispatch
  split
  · split
    · exact h
    · exact h.emit _
  split
  · exact h
  · have hg := h.gateDispatch cfg a w motion hw
    simp only
    split
    · exact hg.emit _
    · exact hg

/-! ## Runs -/

theorem Inv.init (now : UInt32) : Inv (Links.init now) := by
  have hnone : ∀ a, (Links.init now).table.identAt a = none := by
    intro a
    cases a <;> rfl
  refine ⟨?_, ?_, ?_, ?_, ?_, ?_⟩
  · intro a b x ha
    rw [hnone] at ha
    cases ha
  · intro _ a ha
    rw [hnone] at ha
    cases ha
  · intro _ a ha
    rw [hnone] at ha
    cases ha
  · intro hh
    cases hh
  · intro i w hw
    cases hw
  · intro w hw
    cases hw

theorem Inv.step (h : Inv s) (cfg : Config) (e : LinkEvent) : Inv (s.step cfg e) := by
  cases e with
  | wifiData address frame motion admitted now =>
    simp only [Links.step]
    split
    · exact h
    next hwait =>
    have hr := h.routeMakeraClient (by simpa using hwait) address admitted
    generalize s.routeMakeraClient address admitted = r at hr ⊢
    obtain ⟨slot, t⟩ := r
    cases slot with
    | none => exact hr
    | some i =>
      cases frame with
      | none => exact hr
      | some f => exact hr.wifiFrame cfg i f motion now
  | wifiGone i => exact h.retireWifiClient i
  | usbByte now =>
    -- The first byte only starts the window of the USB client.
    have hm := h.modifyAt .usb (f := fun c => if c.helloWindowStarted then c
      else { c with helloWindowStarted := true, helloWindowStartUs := now }) fun c => by
        split <;> simp
    exact ⟨hm.unique, hm.checked, hm.admitting, hm.earned, hm.wifiWait, hm.usbWait⟩
  | usbRx enabled now =>
    exact ⟨h.unique, h.checked, h.admitting, h.earned, h.wifiWait, h.usbWait⟩
  | usbData frame motion later cachewait =>
    simp only [Links.step]
    split
    · exact h
    · next hwait => exact h.usbFrame (by simpa using hwait) cfg frame motion later cachewait
  | usbExpiry now =>
    simp only [Links.step]
    split
    · exact h
    split
    · exact h.clearUsbIdentity
    · exact h
  | driveWifi now => exact h.driveLoop _ _ _ _
  | driveUsb now cachewait => exact h.driveLoop _ _ _ _
  | dispatchWifi motion startPending automaticRefused =>
    simp only [Links.step]
    split
    · exact h
    · next i w hw =>
      -- The command leaves its place before it is dispatched.
      have hclear : Inv { s with wifiWaiting := none } :=
        ⟨h.unique, h.checked, h.admitting, h.earned, fun _ _ hn => (by cases hn), h.usbWait⟩
      exact hclear.dispatch cfg _ w motion _ _ (.inl (h.wifiWait i w hw))
  | dispatchUsb motion startPending automaticRefused =>
    simp only [Links.step]
    split
    · exact h
    · next w hw =>
      have hclear : Inv { s with usbWaiting := none } :=
        ⟨h.unique, h.checked, h.admitting, h.earned, h.wifiWait, fun _ hn => by cases hn⟩
      exact hclear.dispatch cfg _ w motion _ _ ((h.usbWait w hw).imp_right fun hn => hn.1)
  | secondTick =>
    refine h.of_control ?_
    rw [reconcileHolder_holder]
    split <;> simp

theorem Inv.run (cfg : Config) (now : UInt32) (events : List LinkEvent) :
    Inv (Links.run cfg (Links.init now) events) := by
  induction events using List.reverseRecOn with
  | nil => exact Inv.init now
  | append_singleton events e ih =>
    rw [Links.run, List.foldl_append]
    exact ih.step cfg e

end Links

/-- In every reachable state identified clients have distinct ids, and one that is in control took
it by a command sent on this connection that passed the gate once the connection was
identified. -/
theorem holder_took_control (cfg : Config) (now : UInt32) (events : List LinkEvent) :
    let s := Links.run cfg (Links.init now) events
    (∀ a b c c', s.table.clientAt a = some c → s.table.clientAt b = some c' →
      c.identified = true → c'.identified = true → c.id = c'.id → a = b) ∧
    ∀ a c, s.table.clientAt a = some c → c.identified = true →
      s.control.holder.identified = true → s.control.holder.id = c.id →
      ∃ z ∈ s.seizures, z.seat = a ∧ z.sentIn = s.session a ∧ z.passedIn = s.session a ∧
        z.sender.identified = true ∧ z.sender.id = c.id := by
  intro s
  have h : Links.Inv s := Links.Inv.run cfg now events
  refine ⟨fun a b c c' ha hb hid hid' heq => ?_, fun a c ha hid hh hc => ?_⟩
  · exact h.unique a b c'.id (ClientTable.identAt_eq_some.mpr ⟨c, ha, hid, heq⟩)
      (ClientTable.identAt_eq_some.mpr ⟨c', hb, hid', rfl⟩)
  · obtain ⟨z, hz, hseat, hsent, hpassed, hsender⟩ :=
      h.earned hh a (ClientTable.identAt_eq_some.mpr ⟨c, ha, hid, hc.symm⟩)
    exact ⟨z, hz, hseat, hsent, hpassed, by rw [hsender, hh], by rw [hsender, hc]⟩

end CarveraFirmware.Clients
