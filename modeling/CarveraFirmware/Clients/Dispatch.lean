import Mathlib
import CarveraFirmware.Clients.Admissions
import CarveraFirmware.Library.Reached

/-!
# Identify before commanding

A command frame is dropped on arrival when its sender has not identified and somebody else
has. It is dispatched later, and in between somebody else may identify, or the sender's
identity may be cleared. Where neither happens, no command of an unidentified client is
dispatched while another client is identified.
-/

namespace CarveraFirmware.Clients

namespace Links

/-- The command waiting at a seat. -/
def Waits (s : Links) (a : Seat) (w : Waiting) : Prop :=
  match a with
  | .wifi i => s.wifiWaiting = some (i, w)
  | .usb => s.usbWaiting = some w

/-- The sender of a waiting command had not identified when it arrived, or is not identified now. -/
def Unidentified (s : Links) (a : Seat) (w : Waiting) : Prop :=
  w.identified = false ∨ s.table.identAt a = none

/-- No client at a seat other than `a` is identified. -/
def NoneButIdentified (s : Links) (a : Seat) : Prop := ∀ b, b ≠ a → s.table.identAt b = none

/-- The event makes the main loop dispatch the command `w` from seat `a`. -/
def Dispatches (cfg : Config) (s : Links) (e : LinkEvent) (a : Seat) (w : Waiting) : Prop :=
  ((∃ m p r, a.link = .wifi ∧ e = .dispatchWifi m p r) ∨
    ∃ m p r, a.link = .usb ∧ e = .dispatchUsb m p r) ∧
  s.Waits a w ∧ (s.step cfg e).sent = s.sent ++ [.dispatched a w]

/-- What an event must not do in the state it finds. -/
structure Orderly (s : Links) (e : LinkEvent) : Prop where
  /-- While a command of an unidentified client waits, no other client is admitted. -/
  noAdmission : ∀ a w, s.Waits a w → s.Unidentified a w → ∀ b, b ≠ a → ¬ s.Admits e b
  /-- The identity of a USB client whose command waits goes only where no other client has one. -/
  noClearing : ∀ w, s.usbWaiting = some w → s.table.identAt .usb ≠ none → s.ClearsUsb e →
    s.NoneButIdentified .usb ∧ ∀ b, b ≠ .usb → ¬ s.Admits e b

/-- What the steps below do to waiting commands: a WiFi command goes with its client, a USB
command stays. -/
structure Keeps (s t : Links) : Prop where
  wifi : ∀ i w, t.wifiWaiting = some (i, w) → s.wifiWaiting = some (i, w) ∧
    (s.table.identAt (.wifi i) ≠ none → t.table.identAt (.wifi i) ≠ none)
  usb : t.usbWaiting = s.usbWaiting
  present : s.table.usb.isSome = true → t.table.usb.isSome = true

theorem Keeps.refl (s : Links) : Keeps s s := ⟨fun _ _ h => ⟨h, id⟩, rfl, id⟩

theorem Keeps.trans {s t u : Links} (h : Keeps s t) (h' : Keeps t u) : Keeps s u where
  wifi := fun i w hw => by
    obtain ⟨ht, hid'⟩ := h'.wifi i w hw
    obtain ⟨hs, hid⟩ := h.wifi i w ht
    exact ⟨hs, hid' ∘ hid⟩
  usb := h'.usb.trans h.usb
  present := h'.present ∘ h.present

/-- Waiting commands are untouched and no identity is lost. -/
theorem Keeps.of_table {s t : Links} (hwifi : t.wifiWaiting = s.wifiWaiting)
    (husb : t.usbWaiting = s.usbWaiting)
    (hid : ∀ i, s.table.identAt (.wifi i) ≠ none → t.table.identAt (.wifi i) ≠ none)
    (hpresent : s.table.usb.isSome = true → t.table.usb.isSome = true) : Keeps s t :=
  ⟨fun i _ hw => ⟨hwifi ▸ hw, hid i⟩, husb, hpresent⟩

theorem usb_modifyAt (table : ClientTable) (a : Seat) (f : Client → Client) :
    (table.modifyAt a f).usb.isSome = table.usb.isSome := by
  cases a <;> simp [ClientTable.modifyAt, ClientTable.setAt, ClientTable.clientAt]

theorem keeps_modifyAt (s : Links) (a : Seat) {f : Client → Client}
    (hf : ∀ c, (f c).identified = c.identified ∧ (f c).id = c.id) :
    Keeps s { s with table := s.table.modifyAt a f } :=
  Keeps.of_table rfl rfl (fun i h => by rwa [s.table.identAt_modifyAt a _ hf])
    (fun h => (usb_modifyAt s.table a f).trans h)

theorem keeps_emit (s : Links) (x : Sent) : Keeps s (s.emit x) := Keeps.of_table rfl rfl (fun _ => id) id

theorem keeps_check (s : Links) (check : IdentityCheck) : Keeps s { s with check := check } :=
  Keeps.of_table rfl rfl (fun _ => id) id

theorem keeps_control (s : Links) (token : ControlToken) : Keeps s { s with control := token } :=
  Keeps.of_table rfl rfl (fun _ => id) id

theorem keeps_heartbeat (s : Links) (a : Seat) (now : UInt32) :
    Keeps s { s with table := s.table.modifyAt a (·.recordHeartbeat now) } :=
  keeps_modifyAt s a fun _ => ⟨rfl, rfl⟩

theorem keeps_handleControlRelease (s : Links) (a : Seat) :
    Keeps s (s.handleControlRelease a) := by
  unfold Links.handleControlRelease
  split
  · exact Keeps.refl s
  split
  · exact Keeps.refl s
  · exact keeps_control s _

theorem keeps_retireWifiClient (s : Links) (i : Fin maxWifiClients) :
    Keeps s (s.retireWifiClient i) := by
  refine ⟨fun j w hw => ?_, ?_, fun h => ?_⟩
  · rw [identAt_retireWifiClient]
    unfold Links.retireWifiClient at hw
    split at hw
    · next hnone =>
      refine ⟨hw, ?_⟩
      split
      · next hij =>
        simp only [Option.isNone_iff_eq_none] at hnone
        rw [Seat.wifi.injEq] at hij
        simp [ClientTable.identAt, ClientTable.clientAt, hij, hnone]
      · exact id
    · simp only [Links.newSession, Links.forgetWifiClient] at hw
      split at hw
      · cases hw
      · next hany =>
        simp only [hw, Option.any_some, beq_iff_eq] at hany
        refine ⟨hw, ?_⟩
        rw [if_neg (by simpa using hany)]
        exact id
  · unfold Links.retireWifiClient
    split <;> rfl
  · unfold Links.retireWifiClient
    split <;> exact h

theorem keeps_clearUsbIdentity (s : Links) : Keeps s s.clearUsbIdentity := by
  refine Keeps.of_table rfl rfl (fun i h => ?_) (fun h => ?_)
  · rwa [identAt_clearUsbIdentity, if_neg (by simp)]
  · exact (usb_modifyAt s.table .usb _).trans h

theorem keeps_admitAt (s : Links) (a : Seat) (hello : Hello) : Keeps s (s.admitAt a hello) := by
  unfold Links.admitAt
  split
  · exact Keeps.refl s
  · next self hself =>
    refine Keeps.of_table rfl rfl (fun i h => ?_) (fun h => ?_)
    · change (s.table.setAt a _).identAt _ ≠ none
      rw [ClientTable.identAt_setAt]
      split
      · simp [admitHello, Client.setIdentity]
      · exact h
    · cases a <;> simp [Links.emit, ClientTable.setAt, h]

theorem keeps_endCheck (s : Links) : Keeps s { s with
    check := (s.check.endCheck s.table).1, table := (s.check.endCheck s.table).2 } := by
  refine Keeps.of_table rfl rfl (fun i h => ?_) (fun h => ?_)
  · rwa [identAt_endCheck]
  · unfold IdentityCheck.endCheck
    split
    · exact h
    · simp only
      split
      · rwa [usb_modifyAt]
      · exact h

theorem keeps_retireOld (s : Links) : Keeps s s.retireOld := by
  unfold Links.retireOld
  split
  · exact keeps_retireWifiClient s _
  · exact keeps_clearUsbIdentity s

theorem keeps_driveRound (s : Links) (link : Link) (now : UInt32) (canRead : Bool) :
    Keeps s (s.driveRound link now canRead).2 := by
  unfold Links.driveRound
  rcases s.check.nextStep s.table link now canRead with ⟨step, check⟩
  refine (keeps_check s check).trans ?_
  cases step with
  | wait => exact Keeps.refl _
  | ask => exact (keeps_emit _ _).trans (keeps_check _ _)
  | retire => exact (keeps_retireOld _).trans (keeps_check _ _)
  | refuse => exact (keeps_emit _ _).trans (keeps_endCheck _)
  | admits => exact (keeps_endCheck _).trans (keeps_admitAt _ _ _)
  | drop => exact keeps_endCheck _

theorem keeps_driveLoop (link : Link) (now : UInt32) (canRead : Bool) (fuel : Nat) (s : Links) :
    Keeps s (driveLoop link now canRead fuel s) := by
  induction fuel generalizing s with
  | zero => exact Keeps.refl s
  | succ fuel ih =>
    simp only [Links.driveLoop]
    split
    · exact (keeps_driveRound s link now canRead).trans (ih _)
    · exact keeps_driveRound s link now canRead

theorem keeps_answerBusy (s : Links) (a : Seat) (now : UInt32) : Keeps s (s.answerBusy a now) := by
  refine (keeps_modifyAt s a fun c => ?_).trans (keeps_emit _ _)
  unfold Client.restartHelloWindow
  split <;> simp

theorem keeps_repeatHello (s : Links) (a : Seat) (hello : Hello) :
    Keeps s (s.repeatHello a hello) := by
  refine (keeps_modifyAt s a fun c => ?_).trans (keeps_emit _ _)
  exact ⟨rfl, rfl⟩

theorem keeps_beginCheck {s : Links} {a other : Seat} {hello : Hello} {askFirst : Bool}
    {now : UInt32} {check : IdentityCheck} {table : ClientTable}
    (hbegin : s.check.beginCheck s.table a other hello askFirst now = (true, check, table)) :
    Keeps s { s with check := check, table := table } := by
  unfold IdentityCheck.beginCheck at hbegin
  split at hbegin
  · simp at hbegin
  split at hbegin
  · simp at hbegin
  next client hclient =>
  simp only [Prod.mk.injEq, true_and] at hbegin
  obtain ⟨rfl, rfl⟩ := hbegin
  have hmod : s.table.setAt a (some { client with helloHeld := true }) =
      s.table.modifyAt a fun c => { c with helloHeld := true } := by
    rw [ClientTable.modifyAt, hclient]
    rfl
  have hk : Keeps s { s with table := s.table.modifyAt a fun c => { c with helloHeld := true } } :=
    keeps_modifyAt s a fun c => ⟨rfl, rfl⟩
  rw [← hmod] at hk
  exact hk.trans (keeps_check _ _)

theorem keeps_handleWifiHello (s : Links) (i : Fin maxWifiClients) (hello : Hello) (now : UInt32) :
    Keeps s (s.handleWifiHello i hello now) := by
  unfold Links.handleWifiHello
  split
  · exact Keeps.refl s
  split
  · exact keeps_repeatHello s _ _
  split
  · exact Keeps.refl s
  split
  · exact keeps_emit s _
  simp only
  split
  · exact (keeps_clearUsbIdentity s).trans (keeps_admitAt _ _ _)
  · exact (keeps_retireWifiClient s _).trans (keeps_admitAt _ _ _)
  · split
    · next hbegin => exact (keeps_beginCheck hbegin).trans (keeps_driveLoop _ _ _ _ _)
    · exact keeps_answerBusy s _ _
  · exact keeps_answerBusy s _ _
  · exact keeps_admitAt s _ _

theorem keeps_handleUsbHello (s : Links) (hello : Hello) (now later : UInt32) (canRead : Bool) :
    Keeps s (s.handleUsbHello hello now later canRead) := by
  unfold Links.handleUsbHello
  split
  · exact Keeps.refl s
  split
  · exact keeps_repeatHello s _ _
  split
  · exact Keeps.refl s
  split
  · exact keeps_emit s _
  simp only
  split
  · exact keeps_answerBusy s _ _
  · exact keeps_admitAt s _ _
  · split
    · next hbegin => exact (keeps_beginCheck hbegin).trans (keeps_driveLoop _ _ _ _ _)
    · exact keeps_answerBusy s _ _
  · exact keeps_answerBusy s _ _

/-- A command that is taken from a present client: nobody else has identified, or its sender has. -/
theorem taken_spec {s : Links} {a : Seat} {c : Command} {client : Client}
    (hclient : s.table.clientAt a = some client)
    (hfirst : mustIdentifyFirst s.table (s.table.clientAt a) = false) :
    s.Unidentified a (s.waitingFor a c) → s.NoneButIdentified a := by
  intro hun b _
  have hnot : client.identified = false := by
    rcases hun with hw | hnone
    · cases hc : client.identified
      · rfl
      · simp [waitingFor, identityOf, hclient, hc] at hw
    · simpa [ClientTable.identAt, hclient] using hnone
  have hno : s.table.anyIdentifiedPresent = false := by
    simpa [mustIdentifyFirst, hclient, hnot] using hfirst
  rw [Bool.eq_false_iff, ne_eq, ClientTable.anyIdentifiedPresent_iff] at hno
  by_contra hne
  obtain ⟨x, hx⟩ := Option.ne_none_iff_exists'.mp hne
  obtain ⟨c', hc', hid, -⟩ := ClientTable.identAt_eq_some.mp hx
  exact hno ⟨b, c', hc', hid⟩

/-- What a step does to the waiting commands: those still waiting were waiting before, or have just
been taken under the rule. -/
structure WaitStep (s t : Links) : Prop where
  wifi : ∀ i w, t.Waits (.wifi i) w →
    (s.Waits (.wifi i) w ∧ (s.table.identAt (.wifi i) ≠ none → t.table.identAt (.wifi i) ≠ none)) ∨
      (t.Unidentified (.wifi i) w → t.NoneButIdentified (.wifi i))
  usb : ∀ w, t.Waits .usb w → s.Waits .usb w ∨ (t.Unidentified .usb w → t.NoneButIdentified .usb)
  present : s.table.usb.isSome = true → t.table.usb.isSome = true

theorem Keeps.waitStep {s t : Links} (h : Keeps s t) : WaitStep s t where
  wifi := fun i w hw => .inl (h.wifi i w hw)
  usb := fun _ hw => .inl (h.usb.symm.trans hw)
  present := h.present

theorem clientAt_routeMakeraClient {s t : Links} {address : Address} {now : UInt32}
    {i : Fin maxWifiClients} (h : s.routeMakeraClient address now = (some i, t)) :
    ∃ client, t.table.wifi i = some client := by
  unfold Links.routeMakeraClient at h
  split at h
  · next j hj =>
    simp only [Prod.mk.injEq, Option.some.injEq] at h
    obtain ⟨rfl, rfl⟩ := h
    have := List.find?_some hj
    simp only [Option.any_eq_true] at this
    exact ⟨_, this.choose_spec.1⟩
  next hfind =>
  unfold ClientTable.addWifi at h
  simp only [hfind] at h
  split at h
  · next hadd =>
    split at hadd
    · simp only [Prod.mk.injEq, Option.some.injEq] at hadd h
      obtain ⟨rfl, rfl⟩ := hadd
      obtain ⟨rfl, rfl⟩ := h
      exact ⟨ClientTable.newWifiClient address now, by simp [Links.newSession, ClientTable.setAt]⟩
    · cases hadd
  · simp at h

theorem keeps_routeMakeraClient (s : Links) (hwait : s.wifiWaiting = none) (address : Address)
    (now : UInt32) : Keeps s (s.routeMakeraClient address now).2 := by
  unfold Links.routeMakeraClient
  split
  · exact Keeps.refl s
  next hfind =>
  unfold ClientTable.addWifi
  simp only [hfind]
  split
  · next hadd =>
    split at hadd
    · simp only [Prod.mk.injEq] at hadd
      obtain ⟨-, rfl⟩ := hadd
      exact ⟨fun i w hw => absurd (hwait.symm.trans hw) (by simp), rfl, id⟩
    · cases hadd
  · next hadd =>
    split at hadd
    · cases hadd
    · simp only [Prod.mk.injEq, true_and] at hadd
      subst hadd
      exact Keeps.refl s

theorem waitStep_wifiFrame (s : Links) (cfg : Config) (i : Fin maxWifiClients) {client : Client}
    (hclient : s.table.wifi i = some client) (frame : WireFrame) (motion : MotionState)
    (now : UInt32) : WaitStep s (s.wifiFrame cfg i frame motion now) := by
  unfold Links.wifiFrame
  split
  · exact (Keeps.refl s).waitStep
  next hfirst =>
  cases frame with
  | hello hello => exact (keeps_handleWifiHello s i hello now).waitStep
  | heartbeat => exact (keeps_heartbeat s _ _).waitStep
  | presenceReply data => exact (keeps_check s _).waitStep
  | controlRelease =>
    simp only
    split
    · exact (keeps_handleControlRelease s _).waitStep
    · exact (Keeps.refl s).waitStep
  | command c =>
    simp only
    split
    · refine ⟨fun j w hw => .inr ?_, fun w hw => .inl hw, id⟩
      simp only [Waits, Option.some.injEq, Prod.mk.injEq] at hw
      obtain ⟨rfl, rfl⟩ := hw
      exact taken_spec (a := .wifi i) (c := c) hclient
        (by simpa [takenBeforeIdentifying, ClientTable.clientAt] using hfirst)
    · exact (Keeps.refl s).waitStep
  | other => exact (Keeps.refl s).waitStep

theorem waitStep_usbFrame (s : Links) (cfg : Config) (hpresent : s.table.usb.isSome = true)
    (frame : WireFrame) (motion : MotionState) (later : UInt32) (cachewait : Bool) :
    WaitStep s (s.usbFrame cfg frame motion later cachewait) := by
  obtain ⟨client, hclient⟩ := Option.isSome_iff_exists.mp hpresent
  unfold Links.usbFrame
  simp only
  split
  · exact (Keeps.refl s).waitStep
  next hfirst =>
  cases frame with
  | hello hello => exact (keeps_handleUsbHello s hello _ _ _).waitStep
  | heartbeat => exact (keeps_heartbeat s _ _).waitStep
  | presenceReply data => exact (keeps_check s _).waitStep
  | controlRelease =>
    simp only
    split
    · exact (keeps_handleControlRelease s _).waitStep
    · exact (Keeps.refl s).waitStep
  | command c =>
    simp only
    split
    · refine ⟨fun i w hw => .inl ⟨hw, id⟩, fun w hw => .inr ?_, id⟩
      simp only [Waits, Option.some.injEq] at hw
      subst hw
      exact taken_spec (a := .usb) (c := c) hclient
        (by simpa [takenBeforeIdentifying, ClientTable.clientAt] using hfirst)
    · exact (Keeps.refl s).waitStep
  | other => exact (Keeps.refl s).waitStep

theorem waitStep_step (s : Links) (cfg : Config) (hpresent : s.table.usb.isSome = true)
    (e : LinkEvent) : WaitStep s (s.step cfg e) := by
  cases e with
  | wifiData address frame motion admitted now =>
    simp only [Links.step]
    split
    · exact (Keeps.refl s).waitStep
    next hwait =>
    have hkeep := keeps_routeMakeraClient s (by simpa using hwait) address admitted
    rcases hr : s.routeMakeraClient address admitted with ⟨slot, t⟩
    rw [hr] at hkeep
    cases slot with
    | none => exact hkeep.waitStep
    | some i =>
      cases frame with
      | none => exact hkeep.waitStep
      | some f =>
        -- Routing may admit the sender first; what waits is only told from the frame.
        obtain ⟨client, hclient⟩ := clientAt_routeMakeraClient hr
        have hf := waitStep_wifiFrame t cfg i hclient f motion now
        refine ⟨fun j w hw => ?_, fun w hw => ?_, hf.present ∘ hkeep.present⟩
        · rcases hf.wifi j w hw with ⟨ht, hid⟩ | hnew
          · obtain ⟨hs, hid'⟩ := hkeep.wifi j w ht
            exact .inl ⟨hs, hid ∘ hid'⟩
          · exact .inr hnew
        · exact (hf.usb w hw).imp_left fun ht => hkeep.usb.symm.trans ht
  | wifiGone i => exact (keeps_retireWifiClient s i).waitStep
  | usbByte now =>
    refine Keeps.waitStep (Keeps.of_table rfl rfl (fun i h => ?_) (fun h => ?_))
    · simp only [Links.step, ClientTable.startUsbHelloWindow]
      rwa [s.table.identAt_modifyAt .usb _ fun c => by split <;> simp]
    · exact (usb_modifyAt s.table .usb _).trans h
  | usbRx enabled now =>
    exact Keeps.waitStep (Keeps.of_table rfl rfl (fun _ h => h) (fun h => h))
  | usbData frame motion later cachewait =>
    simp only [Links.step]
    split
    · exact (Keeps.refl s).waitStep
    · exact waitStep_usbFrame s cfg hpresent frame motion later cachewait
  | usbExpiry now =>
    simp only [Links.step]
    split
    · exact (Keeps.refl s).waitStep
    split
    · exact (keeps_clearUsbIdentity s).waitStep
    · exact (Keeps.refl s).waitStep
  | driveWifi now => exact (keeps_driveLoop _ _ _ _ s).waitStep
  | driveUsb now cachewait => exact (keeps_driveLoop _ _ _ _ s).waitStep
  | dispatchWifi motion p r =>
    simp only [Links.step]
    split
    · exact (Keeps.refl s).waitStep
    · next i w hw =>
      -- The command that is dispatched no longer waits, and the table stays.
      obtain ⟨ht, hwifi, husb⟩ :=
        table_dispatch { s with wifiWaiting := none } cfg (.wifi i) w motion p r
      exact ⟨fun j w' hw' => absurd (hwifi.symm.trans hw') (by simp),
        fun w' hw' => .inl (husb.symm.trans hw'), fun h => by rw [ht]; exact h⟩
  | dispatchUsb motion p r =>
    simp only [Links.step]
    split
    · exact (Keeps.refl s).waitStep
    · next w hw =>
      obtain ⟨ht, hwifi, husb⟩ := table_dispatch { s with usbWaiting := none } cfg .usb w motion p r
      refine ⟨fun j w' hw' => .inl ⟨hwifi.symm.trans hw', fun h => by rw [ht]; exact h⟩,
        fun w' hw' => absurd (husb.symm.trans hw') (by simp), fun h => by rw [ht]; exact h⟩
  | secondTick => exact (keeps_control s _).waitStep

/-- Every waiting command could be dispatched now without breaking the rule. -/
structure WaitInv (s : Links) : Prop where
  present : s.table.usb.isSome = true
  rule : ∀ a w, s.Waits a w → s.Unidentified a w → s.NoneButIdentified a

/-- A step that admits nobody else leaves nobody else identified. -/
theorem NoneButIdentified.step {s : Links} {a : Seat} (h : s.NoneButIdentified a) (cfg : Config)
    {e : LinkEvent} (hno : ∀ b, b ≠ a → ¬ s.Admits e b) : (s.step cfg e).NoneButIdentified a := by
  intro b hb
  by_contra hsome
  obtain hbefore | hadmits := (changes_step s cfg e).gained b hsome
  · exact hbefore (h b hb)
  · exact hno b hb hadmits

theorem WaitInv.step {s : Links} (h : WaitInv s) (cfg : Config) (e : LinkEvent)
    (horder : Orderly s e) : WaitInv (s.step cfg e) := by
  have hstep := waitStep_step s cfg h.present e
  refine ⟨hstep.present h.present, fun a w hw hun => ?_⟩
  have hold (hw' : s.Waits a w) (hun' : s.Unidentified a w) :
      (s.step cfg e).NoneButIdentified a :=
    (h.rule a w hw' hun').step cfg (horder.noAdmission a w hw' hun')
  cases a with
  | wifi i =>
    rcases hstep.wifi i w hw with ⟨hw', hid⟩ | hnew
    · refine hold hw' (hun.imp_right fun hnone => ?_)
      by_contra hne
      exact hid hne hnone
    · exact hnew hun
  | usb =>
    rcases hstep.usb w hw with hw' | hnew
    · by_cases hun' : s.Unidentified .usb w
      · exact hold hw' hun'
      · simp only [Unidentified, not_or] at hun'
        have hcleared := (changes_step s cfg e).lost hun'.2 (hun.resolve_left hun'.1)
        obtain ⟨hnone, hno⟩ := horder.noClearing w hw' hun'.2 hcleared
        exact hnone.step cfg hno
    · exact hnew hun

theorem WaitInv.run {cfg : Config} {s : Links} (h : WaitInv s) {events : List LinkEvent}
    (horder : AllOk (Links.step cfg) Orderly s events) : WaitInv (Links.run cfg s events) := by
  induction events generalizing s with
  | nil => exact h
  | cons e events ih => exact ih (h.step cfg e horder.1) horder.2

theorem WaitInv.init (now : UInt32) : WaitInv (Links.init now) := by
  refine ⟨rfl, fun a w hw => ?_⟩
  cases a <;> cases hw

/-- Where no command waits, everything is in order. -/
theorem orderly_of_not_waiting {s : Links} {e : LinkEvent} (hwifi : s.wifiWaiting = none)
    (husb : s.usbWaiting = none) : Orderly s e := by
  refine ⟨fun a w hw => ?_, fun w hw => ?_⟩
  · cases a with
    | wifi i => exact absurd (hwifi.symm.trans hw) (by simp)
    | usb => exact absurd (husb.symm.trans hw) (by simp)
  · exact absurd (husb.symm.trans hw) (by simp)

/-- An event that admits nobody and takes no identity is in order. -/
theorem orderly_of_unchanging {s : Links} {e : LinkEvent} (hadmits : ∀ b, ¬ s.Admits e b)
    (hclears : ¬ s.ClearsUsb e) : Orderly s e :=
  ⟨fun _ _ _ _ b _ => hadmits b, fun _ _ _ h => absurd h hclears⟩

end Links

/-- In a run in which nobody else is admitted while a command of an unidentified client waits, and
the USB link does not lose its identity beside an identified client while its command waits, no
command of an unidentified client is dispatched while another client is identified. -/
theorem dispatch_identified_first {cfg : Config} {now : UInt32} {pre : List LinkEvent}
    (horder : AllOk (Links.step cfg) Links.Orderly (Links.init now) pre) {e : LinkEvent} {a : Seat}
    {w : Waiting} (hdispatch : Links.Dispatches cfg (Links.run cfg (Links.init now) pre) e a w) :
    (Links.run cfg (Links.init now) pre).Unidentified a w →
      (Links.run cfg (Links.init now) pre).NoneButIdentified a :=
  ((Links.WaitInv.init now).run horder).rule a w hdispatch.2.1

/-- A WiFi client that has not identified sends a command. -/
def earlyCommand : LinkEvent :=
  .wifiData { port := 2222 } (some (.command { type := .ctrlMulti, data := ascii "G0" })) {} 0 0

/-- The command as it waits in slot 0. -/
def earlyWaiting : Waiting :=
  { command := { type := .ctrlMulti, data := ascii "G0" }, session := 1, identified := false }

/-- A USB client identifies and its session runs out; a WiFi client sends its command, and before that
is dispatched another USB client talks without a hello. -/
def besideUsbClient : List LinkEvent :=
  [.usbByte 1000, .usbData (.hello { id := 7 }) {} 1000 false, .usbExpiry 20000000, earlyCommand,
    .usbByte 20001000, .usbData .heartbeat {} 20001000 false, .driveUsb 20002000 false]

theorem dispatch_identified_first_besideUsb :
    (Links.run {} (Links.init 0) besideUsbClient).NoneButIdentified (.wifi 0) ∧
      (Links.run {} (Links.init 0) besideUsbClient).table.presentCount = 2 := by
  have hdrive (s : Links) (now : UInt32) (h : s.check.phase = .idle) :
      (s.check.nextStep s.table .usb now (!s.usbActivity.rxDetached && !false)).1 = .wait := by
    rw [IdentityCheck.nextStep, if_pos (by simp [IdentityCheck.active, h])]
  have horder : AllOk (Links.step {}) Links.Orderly (Links.init 0) besideUsbClient := by
    refine ⟨Links.orderly_of_not_waiting rfl rfl, Links.orderly_of_not_waiting rfl rfl,
      Links.orderly_of_not_waiting rfl rfl, Links.orderly_of_not_waiting rfl rfl,
      Links.orderly_of_unchanging (fun _ => id) id, Links.orderly_of_unchanging (fun _ => id) id,
      Links.orderly_of_unchanging ?_ ?_, trivial⟩
    · rintro b ⟨-, hadmits | ⟨hretires, -⟩⟩
      · rw [hdrive _ _ (by decide)] at hadmits
        cases hadmits
      · rw [Links.CheckRetires, hdrive _ _ (by decide)] at hretires
        cases hretires
    · rintro ⟨-, hretires⟩
      rw [Links.CheckRetires, hdrive _ _ (by decide)] at hretires
      cases hretires
  refine ⟨dispatch_identified_first horder (e := .dispatchWifi {} false false) (a := .wifi 0)
    (w := earlyWaiting) ⟨.inl ⟨_, _, _, rfl, rfl⟩, ?_, ?_⟩ (.inl rfl), ?_⟩
  · change (Links.run {} (Links.init 0) besideUsbClient).wifiWaiting = some (0, earlyWaiting)
    decide +kernel
  · decide +kernel
  · decide +kernel

/-- Between the command's arrival and its dispatch the USB controller says hello. -/
def helloBetween : List LinkEvent :=
  [earlyCommand, .usbByte 1000, .usbData (.hello { id := 7 }) {} 1000 false]

/-- The command of the unidentified WiFi client is dispatched although the USB client has
identified. -/
theorem dispatch_unidentified_beside_identified :
    ¬ ∀ (cfg : Config) (now : UInt32) (pre : List LinkEvent) (e : LinkEvent) (a : Seat)
      (w : Waiting), Links.Dispatches cfg (Links.run cfg (Links.init now) pre) e a w →
      (Links.run cfg (Links.init now) pre).Unidentified a w →
      (Links.run cfg (Links.init now) pre).NoneButIdentified a := by
  intro h
  have hd : Links.Dispatches {} (Links.run {} (Links.init 0) helloBetween)
      (.dispatchWifi {} false false) (.wifi 0) earlyWaiting := by
    refine ⟨.inl ⟨_, _, _, rfl, rfl⟩, ?_, ?_⟩
    · change (Links.run {} (Links.init 0) helloBetween).wifiWaiting = some (0, earlyWaiting)
      decide
    · decide
  have hnone := h {} 0 helloBetween _ _ _ hd (.inl rfl) .usb (by decide)
  have hsome : (Links.run {} (Links.init 0) helloBetween).table.identAt .usb = some 7 := by decide
  rw [hsome] at hnone
  cases hnone

end CarveraFirmware.Clients
