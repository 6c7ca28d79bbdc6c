import Mathlib
import CarveraFirmware.Clients.Holder

/-!
# Who is admitted, and when the USB identity goes

Which events identify a client and which take the identity of the USB client, told from the event
and the state it finds: a hello that is decided on at once, a held hello whose check ends, a session
that runs out. No other step touches an identity in these ways.
-/

namespace CarveraFirmware.Clients

namespace Links

/-- A hello from this seat is decided on: it comes from a client that has not identified, is not held
already, and no other client is old. -/
def HelloDecided (s : Links) (seat : Seat) (now : UInt32) : Prop :=
  (∃ self, s.table.clientAt seat = some self ∧ self.identified = false) ∧
    s.check.holds seat = false ∧
      match seat with
      | .wifi i => s.table.hasOldClient now (some i) false = false
      | .usb => s.table.hasOldClient now none true = false

/-- The hello is admitted as it arrives. -/
def HelloAdmits (s : Links) (seat : Seat) (hello : Hello) (now : UInt32) : Prop :=
  s.HelloDecided seat now ∧
    ((decideHello s.table seat hello s.check).action = .admits ∨
      seat.link = .wifi ∧ (decideHello s.table seat hello s.check).action = .replace)

/-- The hello takes the place of the USB client. -/
def HelloReplacesUsb (s : Links) (seat : Seat) (hello : Hello) (now : UInt32) : Prop :=
  s.HelloDecided seat now ∧
    decideHello s.table seat hello s.check = { action := .replace, other := some .usb }

/-- A turn of a link's check retires the old entry. -/
def CheckRetires (s : Links) (link : Link) (now : UInt32) (canRead : Bool) : Prop :=
  (s.check.nextStep s.table link now canRead).1 = .retire

/-- The turn admits the newcomer, right away or after the old entry. -/
def CheckAdmits (s : Links) (link : Link) (now : UInt32) (canRead : Bool) : Prop :=
  (s.check.nextStep s.table link now canRead).1 = .admits ∨
    s.CheckRetires link now canRead ∧ s.check.newcomer.link = link

/-- The event admits a client at a seat. -/
def Admits (s : Links) : LinkEvent → Seat → Prop
  | .wifiData address (some (.hello hello)) _ admitted now, b =>
    s.wifiWaiting = none ∧ ∃ i, (s.routeMakeraClient address admitted).1 = some i ∧ b = .wifi i ∧
      (s.routeMakeraClient address admitted).2.HelloAdmits (.wifi i) hello now
  | .usbData (.hello hello) _ _ _, b =>
    s.usbWaiting = none ∧ b = .usb ∧ s.HelloAdmits .usb hello s.usbActivity.lastActivityUs
  | .driveWifi now, b => b = s.check.newcomer ∧ s.CheckAdmits .wifi now true
  | .driveUsb now cachewait, b =>
    b = s.check.newcomer ∧ s.CheckAdmits .usb now (!s.usbActivity.rxDetached && !cachewait)
  | _, _ => False

/-- The event takes the identity of the USB client. -/
def ClearsUsb (s : Links) : LinkEvent → Prop
  | .wifiData address (some (.hello hello)) _ admitted now =>
    s.wifiWaiting = none ∧ ∃ i, (s.routeMakeraClient address admitted).1 = some i ∧
      (s.routeMakeraClient address admitted).2.HelloReplacesUsb (.wifi i) hello now
  | .usbExpiry now =>
    ∃ usb, s.table.usb = some usb ∧ s.usbActivity.sessionExpired usb.helloWindowStarted now = true
  | .driveUsb now cachewait =>
    s.check.old = .usb ∧ s.CheckRetires .usb now (!s.usbActivity.rxDetached && !cachewait)
  | _ => False

/-- From one state to another only seats that are admitted gain an identity, and the USB client
loses its own only when it is cleared. -/
structure Changes (admitted : Seat → Prop) (cleared : Prop) (s t : Links) : Prop where
  gained : ∀ b, t.table.identAt b ≠ none → s.table.identAt b ≠ none ∨ admitted b
  lost : s.table.identAt .usb ≠ none → t.table.identAt .usb = none → cleared

variable {admitted : Seat → Prop} {cleared : Prop} {s t u : Links}

theorem Changes.of_identAt (h : ∀ b, t.table.identAt b = s.table.identAt b) :
    Changes admitted cleared s t where
  gained := fun b hb => .inl (h b ▸ hb)
  lost := fun hsome hnone => absurd ((h .usb).symm.trans hnone) hsome

theorem Changes.refl : Changes admitted cleared s s := .of_identAt fun _ => rfl

theorem Changes.trans (h : Changes admitted cleared s t) (h' : Changes admitted cleared t u) :
    Changes admitted cleared s u where
  gained := fun b hb => (h'.gained b hb).elim (h.gained b) .inr
  lost := fun hsome hnone => by
    by_cases ht : t.table.identAt .usb = none
    · exact h.lost hsome ht
    · exact h'.lost ht hnone

theorem Changes.mono {admitted' : Seat → Prop} {cleared' : Prop}
    (h : Changes admitted cleared s t) (hadmitted : ∀ b, admitted b → admitted' b)
    (hcleared : cleared → cleared') : Changes admitted' cleared' s t where
  gained := fun b hb => (h.gained b hb).imp_right (hadmitted b)
  lost := fun hsome hnone => hcleared (h.lost hsome hnone)

theorem changes_modifyAt (s : Links) (a : Seat) {f : Client → Client}
    (hf : ∀ c, (f c).identified = c.identified ∧ (f c).id = c.id) :
    Changes admitted cleared s { s with table := s.table.modifyAt a f } :=
  .of_identAt fun b => s.table.identAt_modifyAt a b hf

theorem changes_admitAt (s : Links) (a : Seat) (hello : Hello) :
    Changes (· = a) False s (s.admitAt a hello) := by
  unfold Links.admitAt
  split
  · exact .refl
  · next self hself =>
    have hid (b : Seat) : (s.table.setAt a (some (admitHello self hello s.control).1)).identAt b =
        if b = a then some hello.id else s.table.identAt b := by
      rw [ClientTable.identAt_setAt]
      simp [admitHello, Client.setIdentity]
    refine ⟨fun b hb => ?_, fun hsome hnone => ?_⟩
    · by_cases hba : b = a
      · exact .inr hba
      · exact .inl (by rwa [← (hid b).trans (if_neg hba)])
    · have hnone' := (hid .usb).symm.trans hnone
      split at hnone'
      · cases hnone'
      · exact hsome hnone'

theorem changes_retireWifiClient (s : Links) (i : Fin maxWifiClients) :
    Changes admitted cleared s (s.retireWifiClient i) := by
  refine ⟨fun b hb => .inl ?_, fun hsome hnone => ?_⟩
  · rw [identAt_retireWifiClient] at hb
    split at hb
    · exact absurd rfl hb
    · exact hb
  · rw [identAt_retireWifiClient, if_neg (by simp)] at hnone
    exact absurd hnone hsome

theorem changes_clearUsbIdentity (s : Links) : Changes admitted True s s.clearUsbIdentity := by
  refine ⟨fun b hb => .inl ?_, fun _ _ => trivial⟩
  rw [identAt_clearUsbIdentity] at hb
  split at hb
  · exact absurd rfl hb
  · exact hb

theorem changes_retireOld (s : Links) : Changes admitted (s.check.old = .usb) s s.retireOld := by
  unfold Links.retireOld
  split
  · exact changes_retireWifiClient s _
  · next hold => exact (changes_clearUsbIdentity s).mono (fun _ => id) fun _ => hold

/-- What one round of the loop does to the identities, told from the step it is given. -/
theorem changes_driveRound (s : Links) (link : Link) (now : UInt32) (canRead : Bool) :
    Changes
      (fun b => b = s.check.newcomer ∧ (s.check.nextStep s.table link now canRead).1 = .admits)
      (s.check.old = .usb ∧ s.CheckRetires link now canRead) s
      (s.driveRound link now canRead).2 := by
  unfold Links.driveRound CheckRetires
  rcases hr : s.check.nextStep s.table link now canRead with ⟨step, check⟩
  cases step with
  | wait => exact .of_identAt fun _ => rfl
  | ask => exact .of_identAt fun _ => rfl
  | refuse => exact .of_identAt (identAt_endCheck check s.table)
  | drop => exact .of_identAt (identAt_endCheck check s.table)
  | admits =>
    obtain ⟨-, -, hcheck, -⟩ := IdentityCheck.nextStep_spec hr (by simp) (by simp)
    have hnewcomer : check.newcomer = s.check.newcomer := by rw [show check = _ from hcheck]
    have hend : Changes (· = check.newcomer) False s { s with
        check := (check.endCheck s.table).1, table := (check.endCheck s.table).2 } :=
      .of_identAt (identAt_endCheck check s.table)
    exact (hend.trans (changes_admitAt _ check.newcomer check.hello)).mono
      (fun b hb => ⟨hb.trans hnewcomer, rfl⟩) False.elim
  | retire =>
    obtain ⟨-, -, hcheck, -⟩ := IdentityCheck.nextStep_spec hr (by simp) (by simp)
    have hold : check.old = s.check.old := by rw [show check = _ from hcheck]
    have hretire := @changes_retireOld (fun b => b = s.check.newcomer ∧ CheckStep.retire = .admits)
      { s with check := check }
    exact ⟨hretire.gained, fun hsome hnone => ⟨hold ▸ hretire.lost hsome hnone, rfl⟩⟩

theorem newcomer_nextStep (check : IdentityCheck) (table : ClientTable) (link : Link) (now : UInt32)
    (canRead : Bool) : (check.nextStep table link now canRead).2.newcomer = check.newcomer := by
  unfold IdentityCheck.nextStep
  split
  · rfl
  · split <;> rfl

theorem newcomer_asked (check : IdentityCheck) (now : UInt32) :
    (check.asked now).newcomer = check.newcomer := by
  unfold IdentityCheck.asked
  split <;> rfl

theorem newcomer_retired (check : IdentityCheck) : check.retired.newcomer = check.newcomer := by
  unfold IdentityCheck.retired
  split <;> rfl

/-- A round that goes round again keeps the newcomer. -/
theorem newcomer_driveRound (s : Links) (link : Link) (now : UInt32) (canRead : Bool)
    (h : (s.driveRound link now canRead).1 = true) :
    (s.driveRound link now canRead).2.check.newcomer = s.check.newcomer := by
  rw [driveRound_again] at h
  unfold Links.driveRound
  have hcheck := newcomer_nextStep s.check s.table link now canRead
  rcases hr : s.check.nextStep s.table link now canRead with ⟨step, check⟩
  rw [hr] at h hcheck
  simp only at h ⊢
  rcases h with rfl | rfl
  · exact (newcomer_asked check now).trans hcheck
  · dsimp only
    rw [newcomer_retired, check_retireOld]
    exact hcheck

/-- The round behind one that retires admits the newcomer if it is on this link; the one behind a
question only waits. -/
theorem changes_driveIdentityCheck (s : Links) (link : Link) (now : UInt32) (canRead : Bool) :
    Changes (fun b => b = s.check.newcomer ∧ s.CheckAdmits link now canRead)
      (s.check.old = .usb ∧ s.CheckRetires link now canRead) s
      (s.driveIdentityCheck link now canRead) := by
  have hfirst : Changes (fun b => b = s.check.newcomer ∧ s.CheckAdmits link now canRead)
      (s.check.old = .usb ∧ s.CheckRetires link now canRead) s (s.driveRound link now canRead).2 :=
    (changes_driveRound s link now canRead).mono (fun b hb => ⟨hb.1, .inl hb.2⟩) id
  unfold Links.driveIdentityCheck
  simp only [Links.driveLoop]
  split
  · next hagain =>
    have hend := driveRound_driveRound s link now canRead hagain
    have hphase := driveRound_phase s link now canRead hagain rfl
    have hnewcomer := newcomer_driveRound s link now canRead hagain
    generalize (s.driveRound link now canRead).2 = t at hfirst hend hphase hnewcomer
    rw [if_neg (by simp [hend])]
    refine hfirst.trans ((changes_driveRound t link now canRead).mono ?_ ?_)
    · rintro b ⟨rfl, hadmits⟩
      obtain ⟨-, -, -, hstep⟩ := @IdentityCheck.nextStep_spec t.check t.table link now canRead _ rfl
        (by simp [hadmits]) (by simp [hadmits])
      obtain ⟨hadm, hlink⟩ :=
        (IdentityCheck.stepFor_eq (hstep.symm.trans hadmits)).2.2.2 rfl
      obtain ⟨-, hwait⟩ | ⟨hretire, -⟩ := hphase
      · rw [hwait] at hadm
        cases hadm
      · exact ⟨hnewcomer, .inr ⟨hretire, hnewcomer ▸ hlink.symm⟩⟩
    · rintro ⟨-, hretire⟩
      rw [Bool.eq_false_iff, ne_eq, driveRound_again] at hend
      exact absurd (.inr hretire) hend
  · exact hfirst

/-- A check that has just begun against an identified entry neither admits nor retires. -/
theorem changes_beginCheck {a other : Seat} {hello : Hello} {askFirst : Bool} {now : UInt32}
    {check : IdentityCheck} {table : ClientTable} {link : Link} {canRead : Bool}
    (hold : s.table.identAt other = some hello.id) (hask : askFirst = true ∨ link ≠ other.link)
    (hbegin : s.check.beginCheck s.table a other hello askFirst now = (true, check, table)) :
    Changes admitted cleared s
      ({ s with check := check, table := table }.driveIdentityCheck link now canRead) := by
  unfold IdentityCheck.beginCheck at hbegin
  split at hbegin
  · simp at hbegin
  split at hbegin
  · simp at hbegin
  next client hclient =>
  simp only [Prod.mk.injEq, true_and] at hbegin
  obtain ⟨hcheck, htable⟩ := hbegin
  have hid (b : Seat) : table.identAt b = s.table.identAt b := by
    rw [← htable, ClientTable.identAt_setAt]
    split
    · next hb => simp [ClientTable.identAt, hb, hclient]
    · rfl
  have hpresent : check.oldPresent table = true := by
    rw [oldPresent_iff, hid, ← hcheck]
    exact hold
  -- Asking stays asking, and retiring is for the link of the old entry.
  have hphase : check.settlePhase table link now canRead = .ask ∨
      check.settlePhase table link now canRead = .retire ∧ link ≠ check.old.link := by
    rw [IdentityCheck.settlePhase, hpresent, ← hcheck]
    cases askFirst with
    | true => exact .inl (by simp)
    | false =>
      have hlink : link ≠ other.link := hask.resolve_left (by simp)
      exact .inr ⟨by simp [hlink], hlink⟩
  have hstep : (check.nextStep table link now canRead).1 ≠ .admits ∧
      (check.nextStep table link now canRead).1 ≠ .retire := by
    unfold IdentityCheck.nextStep
    split
    · simp
    split
    · simp
    obtain hask | ⟨hretire, hlink⟩ := hphase
    · simp only [hask, IdentityCheck.stepFor]
      split <;> simp
    · simp [hretire, IdentityCheck.stepFor, hlink]
  have hdrive := changes_driveIdentityCheck { s with check := check, table := table } link now canRead
  refine Changes.trans (.of_identAt hid) (hdrive.mono (fun b hb => ?_) fun hb => ?_)
  · exact (hb.2.elim (absurd · hstep.1) fun h => absurd h.1 hstep.2)
  · exact absurd hb.2 hstep.2

theorem changes_answerBusy (s : Links) (a : Seat) (now : UInt32) :
    Changes admitted cleared s (s.answerBusy a now) := by
  have hfield (c : Client) : (c.restartHelloWindow now).identified = c.identified ∧
      (c.restartHelloWindow now).id = c.id := by
    unfold Client.restartHelloWindow
    split <;> exact ⟨rfl, rfl⟩
  exact .of_identAt fun b => s.table.identAt_modifyAt a b hfield

theorem changes_repeatHello (s : Links) (a : Seat) (hello : Hello) :
    Changes admitted cleared s (s.repeatHello a hello) :=
  .of_identAt fun b => s.table.identAt_modifyAt a b fun _ => ⟨rfl, rfl⟩

theorem changes_handleWifiHello (s : Links) (i : Fin maxWifiClients) (hello : Hello) (now : UInt32) :
    Changes (fun b => b = .wifi i ∧ s.HelloAdmits (.wifi i) hello now)
      (s.HelloReplacesUsb (.wifi i) hello now) s (s.handleWifiHello i hello now) := by
  unfold Links.handleWifiHello
  split
  · exact .refl
  next self hself =>
  split
  · exact changes_repeatHello s _ _
  next hnot =>
  split
  · exact .refl
  next hholds =>
  split
  · exact .of_identAt fun _ => rfl
  next hold =>
  -- Past the four early returns the hello is decided on.
  have hdecided : s.HelloDecided (.wifi i) now :=
    ⟨⟨self, hself, by simpa using hnot⟩, by simpa using hholds, by simpa using hold⟩
  simp only
  rcases hd : decideHello s.table (.wifi i) hello s.check with ⟨action, other⟩
  have hadmits (h : action = .admits ∨ Seat.link (.wifi i) = .wifi ∧ action = .replace) (b : Seat)
      (hb : b = .wifi i) : b = .wifi i ∧ s.HelloAdmits (.wifi i) hello now :=
    ⟨hb, hdecided, by rw [hd]; exact h⟩
  by_cases hbusy : action = .busy
  · subst hbusy
    exact changes_answerBusy s _ _
  obtain ⟨-, ⟨hadm, hnone, -⟩ | ⟨seat, hseat, hnadm, hfound⟩⟩ := decideHello_spec hd hbusy
  · simp only at hadm hnone
    subst hadm hnone
    exact (changes_admitAt s _ hello).mono (hadmits (.inl rfl)) False.elim
  simp only at hseat hnadm
  subst hseat
  cases action with
  | busy => exact absurd rfl hbusy
  | admits => exact absurd rfl hnadm
  | replace =>
    cases seat with
    | usb =>
      have hreplaces : s.HelloReplacesUsb (.wifi i) hello now := ⟨hdecided, hd⟩
      exact ((changes_clearUsbIdentity s).mono (fun _ => id) fun _ => hreplaces).trans
        ((changes_admitAt _ _ hello).mono (hadmits (.inr ⟨rfl, rfl⟩)) False.elim)
    | wifi j =>
      exact (changes_retireWifiClient s j).trans
        ((changes_admitAt _ _ hello).mono (hadmits (.inr ⟨rfl, rfl⟩)) False.elim)
  | ask =>
    simp only
    split
    · next hbegin => exact changes_beginCheck hfound (.inl rfl) hbegin
    · exact changes_answerBusy s _ _

theorem changes_handleUsbHello (s : Links) (hello : Hello) (now later : UInt32) (canRead : Bool) :
    Changes (fun b => b = .usb ∧ s.HelloAdmits .usb hello now) False s
      (s.handleUsbHello hello now later canRead) := by
  unfold Links.handleUsbHello
  split
  · exact .refl
  next self hself =>
  split
  · exact changes_repeatHello s _ _
  next hnot =>
  split
  · exact .refl
  next hholds =>
  split
  · exact .of_identAt fun _ => rfl
  next hold =>
  have hdecided : s.HelloDecided .usb now :=
    ⟨⟨self, hself, by simpa using hnot⟩, by simpa using hholds, by simpa using hold⟩
  simp only
  rcases hd : decideHello s.table .usb hello s.check with ⟨action, other⟩
  by_cases hbusy : action = .busy
  · subst hbusy
    exact changes_answerBusy s _ _
  obtain ⟨-, ⟨hadm, hnone, -⟩ | ⟨seat, hseat, hnadm, hfound⟩⟩ := decideHello_spec hd hbusy
  · simp only at hadm hnone
    subst hadm hnone
    exact (changes_admitAt s _ hello).mono (fun b hb => ⟨hb, hdecided, .inl (by rw [hd])⟩)
      False.elim
  simp only at hseat hnadm
  subst hseat
  -- The USB client has not identified, so the entry with the id is one on WiFi.
  have hlink : Link.usb ≠ seat.link := by
    cases seat with
    | wifi j => simp [Seat.link]
    | usb =>
      obtain ⟨c, hc, hid, -⟩ := ClientTable.identAt_eq_some.mp hfound
      obtain rfl : self = c := Option.some.inj (hself.symm.trans hc)
      exact absurd hid hnot
  cases action with
  | busy => exact absurd rfl hbusy
  | admits => exact absurd rfl hnadm
  | replace | ask =>
    simp only
    split
    · next hbegin => exact changes_beginCheck hfound (.inr hlink) hbegin
    · exact changes_answerBusy s _ _

/-- A new client has no identity. -/
theorem changes_routeMakeraClient (s : Links) (address : Address) (now : UInt32) :
    Changes admitted cleared s (s.routeMakeraClient address now).2 := by
  unfold Links.routeMakeraClient
  split
  · exact .refl
  next hfind =>
  unfold ClientTable.addWifi
  simp only [hfind]
  split
  · next hadd =>
    split at hadd
    · next j hj =>
      simp only [Prod.mk.injEq, Option.some.injEq] at hadd
      obtain ⟨rfl, rfl⟩ := hadd
      have hfree := List.find?_some hj
      simp only [Option.isNone_iff_eq_none] at hfree
      refine .of_identAt fun b => ?_
      change (s.table.setAt (.wifi j) _).identAt b = _
      rw [ClientTable.identAt_setAt]
      split
      · next hb => simp [ClientTable.newWifiClient, ClientTable.identAt, ClientTable.clientAt, hb, hfree]
      · rfl
    · cases hadd
  · next hadd =>
    split at hadd
    · cases hadd
    · simp only [Prod.mk.injEq, true_and] at hadd
      subst hadd
      exact .refl

/-- A frame other than a hello touches no identity. -/
theorem changes_wifiFrame (s : Links) (cfg : Config) (i : Fin maxWifiClients) (frame : WireFrame)
    (motion : MotionState) (now : UInt32) :
    Changes (fun b => ∃ hello, frame = .hello hello ∧ b = .wifi i ∧ s.HelloAdmits (.wifi i) hello now)
      (∃ hello, frame = .hello hello ∧ s.HelloReplacesUsb (.wifi i) hello now) s
      (s.wifiFrame cfg i frame motion now) := by
  unfold Links.wifiFrame
  split
  · exact .refl
  cases frame with
  | hello hello =>
    exact (changes_handleWifiHello s i hello now).mono (fun b hb => ⟨hello, rfl, hb⟩)
      fun hb => ⟨hello, rfl, hb⟩
  | heartbeat => exact changes_modifyAt s _ fun _ => ⟨rfl, rfl⟩
  | presenceReply data => exact .of_identAt fun _ => rfl
  | controlRelease =>
    simp only [Links.handleControlRelease]
    split_ifs
    · split
      · exact .refl
      · split <;> exact .of_identAt fun _ => rfl
    · exact .refl
  | command c =>
    simp only
    split <;> exact .of_identAt fun _ => rfl
  | other => exact .refl

theorem changes_usbFrame (s : Links) (cfg : Config) (frame : WireFrame) (motion : MotionState)
    (later : UInt32) (cachewait : Bool) :
    Changes (fun b => ∃ hello, frame = .hello hello ∧ b = .usb ∧
        s.HelloAdmits .usb hello s.usbActivity.lastActivityUs) False s
      (s.usbFrame cfg frame motion later cachewait) := by
  unfold Links.usbFrame
  simp only
  split
  · exact .refl
  cases frame with
  | hello hello =>
    exact (changes_handleUsbHello s hello _ later _).mono (fun b hb => ⟨hello, rfl, hb⟩) id
  | heartbeat => exact changes_modifyAt s _ fun _ => ⟨rfl, rfl⟩
  | presenceReply data => exact .of_identAt fun _ => rfl
  | controlRelease =>
    simp only [Links.handleControlRelease]
    split_ifs
    · split
      · exact .refl
      · split <;> exact .of_identAt fun _ => rfl
    · exact .refl
  | command c =>
    simp only
    split <;> exact .of_identAt fun _ => rfl
  | other => exact .refl

theorem table_dispatch (s : Links) (cfg : Config) (a : Seat) (w : Waiting) (motion : MotionState)
    (p r : Bool) : (s.dispatch cfg a w motion p r).table = s.table ∧
      (s.dispatch cfg a w motion p r).wifiWaiting = s.wifiWaiting ∧
      (s.dispatch cfg a w motion p r).usbWaiting = s.usbWaiting := by
  unfold Links.dispatch Links.gateDispatch Links.emit
  simp only
  split_ifs <;> simp

/-- Only the events that admit a client identify one, and only those that clear the USB identity
take it. -/
theorem changes_step (s : Links) (cfg : Config) (e : LinkEvent) :
    Changes (s.Admits e) (s.ClearsUsb e) s (s.step cfg e) := by
  cases e with
  | wifiData address frame motion admitted now =>
    simp only [Links.step]
    split
    · exact .refl
    next hwait =>
    have hnone : s.wifiWaiting = none := by simpa using hwait
    have hroute : Changes (s.Admits (.wifiData address frame motion admitted now))
        (s.ClearsUsb (.wifiData address frame motion admitted now)) s
        (s.routeMakeraClient address admitted).2 := changes_routeMakeraClient s address admitted
    rcases hr : s.routeMakeraClient address admitted with ⟨slot, t⟩
    rw [hr] at hroute
    cases slot with
    | none => exact hroute
    | some i =>
      cases frame with
      | none => exact hroute
      | some f =>
        refine hroute.trans ((changes_wifiFrame t cfg i f motion now).mono ?_ ?_)
        · rintro b ⟨hello, rfl, hb, hadm⟩
          exact ⟨hnone, i, by rw [hr], hb, by rw [hr]; exact hadm⟩
        · rintro ⟨hello, rfl, hrep⟩
          exact ⟨hnone, i, by rw [hr], by rw [hr]; exact hrep⟩
  | wifiGone i => exact changes_retireWifiClient s i
  | usbByte now =>
    refine .of_identAt fun b => ?_
    simp only [Links.step, ClientTable.startUsbHelloWindow]
    exact s.table.identAt_modifyAt .usb b fun c => by split <;> simp
  | usbRx enabled now => exact .of_identAt fun _ => rfl
  | usbData frame motion later cachewait =>
    simp only [Links.step]
    split
    · exact .refl
    next hwait =>
    refine (changes_usbFrame s cfg frame motion later cachewait).mono ?_ False.elim
    rintro b ⟨hello, rfl, hb, hadm⟩
    exact ⟨by simpa using hwait, hb, hadm⟩
  | usbExpiry now =>
    simp only [Links.step]
    split
    · exact .refl
    next usb husb =>
    split
    · next hexpired => exact (changes_clearUsbIdentity s).mono (fun _ => id) fun _ => ⟨usb, husb, hexpired⟩
    · exact .refl
  | driveWifi now =>
    refine (changes_driveIdentityCheck s .wifi now true).mono (fun b hb => hb) ?_
    -- Retiring is for the link of the old entry.
    rintro ⟨hold, hretire⟩
    obtain ⟨-, -, -, hstep⟩ := @IdentityCheck.nextStep_spec s.check s.table .wifi now true _ rfl
      (by rw [show _ = CheckStep.retire from hretire]; simp)
      (by rw [show _ = CheckStep.retire from hretire]; simp)
    have hlink := ((IdentityCheck.stepFor_eq (hstep.symm.trans hretire)).2.1 rfl).2
    rw [hold] at hlink
    cases hlink
  | driveUsb now cachewait =>
    exact (changes_driveIdentityCheck s .usb now _).mono (fun b hb => hb) id
  | dispatchWifi motion p r =>
    simp only [Links.step]
    split
    · exact .refl
    · next i w hw =>
      exact .of_identAt fun b => by
        rw [(table_dispatch { s with wifiWaiting := none } cfg (.wifi i) w motion p r).1]
  | dispatchUsb motion p r =>
    simp only [Links.step]
    split
    · exact .refl
    · next w hw =>
      exact .of_identAt fun b => by
        rw [(table_dispatch { s with usbWaiting := none } cfg .usb w motion p r).1]
  | secondTick => exact .of_identAt fun _ => rfl

end Links

end CarveraFirmware.Clients
