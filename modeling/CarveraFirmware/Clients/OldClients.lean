import Mathlib
import CarveraFirmware.Clients.Holder

/-!
# Old clients

A client that lets its hello window pass without identifying is old. The firmware measures
windows on a wrapping clock; here histories run on the true time, and the clock's half turn
(`2 ^ 31` microseconds) is the span over which the two agree.
-/

namespace CarveraFirmware.Clients

open WrapClock ClientTable

/-- `enforce_old_client_rule`: the WiFi clients it disconnects. -/
def enforceOldClientRule (table : ClientTable) (now : UInt32) : List (Fin maxWifiClients) :=
  if table.presentCount ≤ 1 then []
  else
    let spareEarliest := !table.anyIdentifiedPresent
    slots.filter fun i =>
      (table.wifi i).any (·.isOld now) && !(spareEarliest && table.isEarliestPresent i)

/-- A table, the true time, and the true time at which the window at each seat started. -/
structure Timed where
  table : ClientTable
  start : Seat → Nat := fun _ => 0
  now : Nat := 0

/-- What happens to the table. A hello that is accepted is `identify`, one that is held is `hold`,
and one that is answered busy is `restart`. -/
inductive HistoryOp where
  | admits (address : Address)
  | usbTalks
  | identify (seat : Seat) (hello : Hello)
  | hold (seat : Seat)
  | release (seat : Seat)
  | remove (i : Fin maxWifiClients)
  | clearUsb
  | restart (seat : Seat)

namespace Timed

def setStart (s : Timed) (seat : Seat) : Timed :=
  { s with start := Function.update s.start seat s.now }

def apply (s : Timed) : HistoryOp → Timed
  | .admits address =>
    match s.table.findWifi address, s.table.addWifi address (stamp s.now) with
    | none, (some i, table) => { s with table := table }.setStart (.wifi i)
    | _, (_, table) => { s with table := table }
  | .usbTalks =>
    let t := { s with table := s.table.startUsbHelloWindow (stamp s.now) }
    if s.table.usb.any (!·.helloWindowStarted) then t.setStart .usb else t
  | .identify seat hello =>
    { s with table := s.table.modifyAt seat fun c => (admitHello c hello {}).1 }
  | .hold seat => { s with table := s.table.modifyAt seat fun c => { c with helloHeld := true } }
  | .release seat =>
    { s with table := s.table.modifyAt seat fun c => { c with helloHeld := false } }
  | .remove i => { s with table := s.table.removeWifi i }
  | .clearUsb => { s with table := s.table.clearUsbIdentity }
  | .restart seat =>
    { s with table := s.table.modifyAt seat (·.restartHelloWindow (stamp s.now)) }.setStart seat

def init : Timed := { table := ({} : ClientTable).setUsbPresent true 0 }

/-- A history: some time passes before each operation, and after the last one. -/
def run (s : Timed) (history : List (Nat × HistoryOp)) : Timed :=
  history.foldl (fun s x => { s with now := s.now + x.1 }.apply x.2) s

/-- The time the firmware reads is that of the true start of the window. -/
structure Inv (s : Timed) : Prop where
  started : ∀ a c, s.table.clientAt a = some c → c.helloWindowStarted = true →
    c.helloWindowStartUs = stamp (s.start a) ∧ s.start a ≤ s.now
  wifi : ∀ i c, s.table.wifi i = some c → c.helloWindowStarted = true

variable {s : Timed}

theorem Inv.later (h : Inv s) (dt : Nat) : Inv { s with now := s.now + dt } where
  started := fun a c hc hs => by
    obtain ⟨h1, h2⟩ := h.started a c hc hs
    exact ⟨h1, Nat.le_add_right_of_le h2⟩
  wifi := h.wifi

/-- A client is rewritten and its window left alone. -/
theorem Inv.modifyAt (h : Inv s) (a : Seat) {f : Client → Client}
    (hf : ∀ c, (f c).helloWindowStarted = c.helloWindowStarted ∧
      (f c).helloWindowStartUs = c.helloWindowStartUs) :
    Inv { s with table := s.table.modifyAt a f } := by
  have hback : ∀ b c, (s.table.modifyAt a f).clientAt b = some c → ∃ c',
      s.table.clientAt b = some c' ∧ c.helloWindowStarted = c'.helloWindowStarted ∧
        c.helloWindowStartUs = c'.helloWindowStartUs := by
    intro b c hc
    rw [clientAt_modifyAt] at hc
    split at hc
    · next hb =>
      obtain ⟨c', hc', rfl⟩ := Option.map_eq_some_iff.mp hc
      exact ⟨c', hb ▸ hc', hf c'⟩
    · exact ⟨c, hc, rfl, rfl⟩
  refine ⟨fun b c hc hs => ?_, fun i c hc => ?_⟩
  · obtain ⟨c', hc', h1, h2⟩ := hback b c hc
    rw [h2]
    exact h.started b c' hc' (h1 ▸ hs)
  · obtain ⟨c', hc', h1, -⟩ := hback (.wifi i) c hc
    rw [h1]
    exact h.wifi i c' hc'

/-- The window at `a` starts now. -/
theorem Inv.startsNow (h : Inv s) (a : Seat) {table : ClientTable}
    (hother : ∀ b, b ≠ a → table.clientAt b = s.table.clientAt b)
    (hself : ∀ c, table.clientAt a = some c → c.helloWindowStarted = true →
      c.helloWindowStartUs = stamp s.now)
    (hwifi : ∀ i c, a = .wifi i → table.wifi i = some c → c.helloWindowStarted = true) :
    Inv ({ s with table := table }.setStart a) := by
  refine ⟨fun b c hc hs => ?_, fun i c hc => ?_⟩
  · by_cases hb : b = a
    · subst hb
      simp only [setStart, Function.update_self]
      exact ⟨hself c hc hs, le_refl _⟩
    · simp only [setStart, Function.update_of_ne hb]
      exact h.started b c ((hother b hb).symm.trans hc) hs
  · by_cases hi : a = .wifi i
    · exact hwifi i c hi hc
    · exact h.wifi i c ((hother (.wifi i) (Ne.symm hi)).symm.trans hc)

theorem addWifi_new {table t : ClientTable} {address : Address} {now : UInt32}
    {i : Fin maxWifiClients} (hfind : table.findWifi address = none)
    (h : table.addWifi address now = (some i, t)) :
    table.wifi i = none ∧ t = table.setAt (.wifi i) (some (newWifiClient address now)) := by
  unfold addWifi at h
  simp only [hfind] at h
  split at h
  · next j hj =>
    simp only [Prod.mk.injEq, Option.some.injEq] at h
    obtain ⟨rfl, rfl⟩ := h
    exact ⟨by simpa using List.find?_some hj, rfl⟩
  · cases h

theorem addWifi_known {table t : ClientTable} {address : Address} {now : UInt32}
    {r : Option (Fin maxWifiClients)} (h : table.addWifi address now = (r, t))
    (hknown : table.findWifi address ≠ none ∨ r = none) : t = table := by
  unfold addWifi at h
  split at h
  · exact (congrArg Prod.snd h).symm
  · next hnone =>
    split at h
    · simp only [Prod.mk.injEq] at h
      rcases hknown with hk | hk
      · exact absurd hnone hk
      · rw [hk] at h
        cases h.1
    · exact (congrArg Prod.snd h).symm

theorem Inv.apply (h : Inv s) (op : HistoryOp) : Inv (s.apply op) := by
  cases op with
  | admits address =>
    simp only [Timed.apply]
    rcases hadd : s.table.addWifi address (stamp s.now) with ⟨r, t⟩
    cases hfind : s.table.findWifi address with
    | some j =>
      rw [addWifi_known hadd (.inl (by simp [hfind]))]
      exact h
    | none =>
      cases r with
      | none =>
        rw [addWifi_known hadd (.inr rfl)]
        exact h
      | some i =>
        rw [(addWifi_new hfind hadd).2]
        refine h.startsNow (.wifi i) (fun b hb => clientAt_setAt_ne _ _ hb) ?_ ?_
        · intro c hc _
          rw [clientAt_setAt_self, Option.some.injEq] at hc
          rw [← hc]
          rfl
        · rintro j c hj hc
          obtain rfl : i = j := by simpa using hj
          simp only [setAt, Function.update_self, Option.some.injEq] at hc
          rw [← hc]
          rfl
  | usbTalks =>
    simp only [Timed.apply]
    split
    · next hnot =>
      refine h.startsNow .usb (fun b hb => ?_) ?_ (by simp)
      · rw [startUsbHelloWindow, clientAt_modifyAt, if_neg hb]
      · intro c hc _
        rw [startUsbHelloWindow, clientAt_modifyAt, if_pos rfl, Option.map_eq_some_iff] at hc
        obtain ⟨c', hc', rfl⟩ := hc
        have : c'.helloWindowStarted = false := by
          change s.table.usb = some c' at hc'
          simpa [hc'] using hnot
        simp [this]
    · next hstarted =>
      -- The window had started, so the table stays as it was.
      have hsame : s.table.startUsbHelloWindow (stamp s.now) = s.table := by
        refine modifyAt_of_fixed fun c hc => ?_
        change s.table.usb = some c at hc
        have hst : c.helloWindowStarted = true := by simpa [hc] using hstarted
        rw [if_pos hst]
      rw [hsame]
      exact h
  | identify seat hello => exact h.modifyAt seat fun c => ⟨rfl, rfl⟩
  | hold seat => exact h.modifyAt seat fun c => ⟨rfl, rfl⟩
  | release seat => exact h.modifyAt seat fun c => ⟨rfl, rfl⟩
  | remove i =>
    refine ⟨fun b c hc hs => ?_, fun j c hc => ?_⟩
    · simp only [Timed.apply, removeWifi, clientAt_setAt] at hc
      split at hc
      · cases hc
      · exact h.started b c hc hs
    · by_cases hj : j = i
      · simp [Timed.apply, removeWifi, setAt, hj] at hc
      · exact h.wifi j c (by simpa [Timed.apply, removeWifi, setAt, hj] using hc)
  | clearUsb =>
    refine ⟨fun b c hc hs => ?_, fun i c hc => h.wifi i c hc⟩
    simp only [Timed.apply, clearUsbIdentity, clientAt_modifyAt] at hc
    split at hc
    · obtain ⟨c', -, rfl⟩ := Option.map_eq_some_iff.mp hc
      simp at hs
    · exact h.started b c hc hs
  | restart seat =>
    refine h.startsNow seat (fun b hb => by rw [clientAt_modifyAt, if_neg hb]) ?_ ?_
    · intro c hc hs
      rw [clientAt_modifyAt, if_pos rfl, Option.map_eq_some_iff] at hc
      obtain ⟨c', hc', rfl⟩ := hc
      unfold Client.restartHelloWindow at hs ⊢
      split at hs
      · next hst => rw [if_pos hst]
      · next hst => exact absurd hs hst
    · rintro i c rfl hc
      have hc' : (s.table.modifyAt (.wifi i) (·.restartHelloWindow (stamp s.now))).clientAt
          (.wifi i) = some c := hc
      rw [clientAt_modifyAt, if_pos rfl, Option.map_eq_some_iff] at hc'
      obtain ⟨c', hc', rfl⟩ := hc'
      unfold Client.restartHelloWindow
      split
      · next hst => exact hst
      · exact h.wifi i c' hc'

theorem Inv.run (h : Inv s) (history : List (Nat × HistoryOp)) : Inv (s.run history) := by
  induction history generalizing s with
  | nil => exact h
  | cons x xs ih => exact ih ((h.later x.1).apply x.2)

theorem Inv.init : Inv init := by
  refine ⟨fun a c hc hs => ?_, fun i c hc => by cases hc⟩
  cases a with
  | wifi i => cases hc
  | usb =>
    obtain rfl : c = _ := (Option.some.inj hc).symm
    cases hs

/-! ## An old client stays old -/

/-- The operations that end a client's being old. -/
def Touches (a : Seat) : HistoryOp → Prop
  | .identify b _ => b = a
  | .hold b => b = a
  | .restart b => b = a
  | .remove i => a = .wifi i
  | .clearUsb => a = .usb
  | _ => False

theorem apply_frame {a : Seat} {c : Client} (hc : s.table.clientAt a = some c)
    (hheld : c.helloHeld = false) (hstarted : c.helloWindowStarted = true) {op : HistoryOp}
    (hop : ¬ Touches a op) :
    (s.apply op).table.clientAt a = some c ∧ (s.apply op).start a = s.start a := by
  -- What is left is at another seat, or changes nothing of a client that is not held and whose
  -- window has started.
  cases op with
  | admits address =>
    simp only [Timed.apply]
    rcases hadd : s.table.addWifi address (stamp s.now) with ⟨r, t⟩
    cases hfind : s.table.findWifi address with
    | some j =>
      rw [addWifi_known hadd (.inl (by simp [hfind]))]
      exact ⟨hc, rfl⟩
    | none =>
      cases r with
      | none =>
        rw [addWifi_known hadd (.inr rfl)]
        exact ⟨hc, rfl⟩
      | some i =>
        obtain ⟨hnone, rfl⟩ := addWifi_new hfind hadd
        have hne : a ≠ .wifi i := by
          rintro rfl
          rw [clientAt, hnone] at hc
          cases hc
        simp only [setStart, Function.update_of_ne hne, clientAt_setAt_ne _ _ hne, and_true]
        exact hc
  | usbTalks =>
    simp only [Timed.apply]
    by_cases ha : a = .usb
    · subst ha
      have hst : s.table.usb.any (!·.helloWindowStarted) = false := by
        change s.table.usb = some c at hc
        simp [hc, hstarted]
      rw [if_neg (by simp [hst]), startUsbHelloWindow, clientAt_modifyAt, if_pos rfl, hc]
      simp [hstarted]
    · split
      · rw [startUsbHelloWindow]
        simp only [setStart, clientAt_modifyAt, if_neg ha, Function.update_of_ne ha, and_true]
        exact hc
      · rw [startUsbHelloWindow, clientAt_modifyAt, if_neg ha]
        exact ⟨hc, rfl⟩
  | identify b hello => exact ⟨by simp [Timed.apply, clientAt_modifyAt, Ne.symm hop, hc], rfl⟩
  | hold b => exact ⟨by simp [Timed.apply, clientAt_modifyAt, Ne.symm hop, hc], rfl⟩
  | release b =>
    refine ⟨?_, rfl⟩
    simp only [Timed.apply, clientAt_modifyAt]
    split
    · next hab =>
      rw [← hab, hc, Option.map_some, ← hheld]
    · exact hc
  | remove i => exact ⟨by simp [Timed.apply, removeWifi, clientAt_setAt, show a ≠ _ from hop, hc], rfl⟩
  | clearUsb =>
    refine ⟨?_, rfl⟩
    simp [Timed.apply, clearUsbIdentity, clientAt_modifyAt, show a ≠ _ from hop, hc]
  | restart b =>
    simp only [Timed.apply, setStart, clientAt_modifyAt, Function.update_of_ne (Ne.symm hop),
      if_neg (Ne.symm hop), and_true]
    exact hc

theorem run_frame {a : Seat} {c : Client} {later : List (Nat × HistoryOp)}
    (hc : s.table.clientAt a = some c) (hheld : c.helloHeld = false)
    (hstarted : c.helloWindowStarted = true) (hlater : ∀ x ∈ later, ¬ Touches a x.2) :
    (s.run later).table.clientAt a = some c ∧ (s.run later).start a = s.start a := by
  induction later generalizing s with
  | nil => exact ⟨hc, rfl⟩
  | cons x xs ih =>
    obtain ⟨hc', hs'⟩ := apply_frame (s := { s with now := s.now + x.1 }) hc hheld hstarted
      (hlater x (by simp))
    obtain ⟨h1, h2⟩ := ih hc' (fun y hy => hlater y (by simp [hy]))
    exact ⟨h1, h2.trans hs'⟩

/-- A client whose window started at `w` is old from the end of the window for half a turn of the
clock. -/
theorem isOld_iff {c : Client} {w t : Nat} (hid : c.identified = false) (hheld : c.helloHeld = false)
    (hstarted : c.helloWindowStarted = true) (hw : c.helloWindowStartUs = stamp w) (hwt : w ≤ t)
    (hturn : t - w < 2 ^ 31) : c.isOld (stamp t) = true ↔ w + 5000000 ≤ t := by
  simp only [Client.isOld, hid, hheld, hstarted, hw, Bool.or_self, Bool.not_true]
  rw [signedSub_stamp hwt hturn]
  simp only [helloWindowUs]
  constructor
  · intro h
    simp at h
    omega
  · intro h
    simp
    omega

/-! ## The old-client rule -/

/-- The position of a seat in ties: USB before the WiFi slots. -/
def slotIndex : Seat → Int
  | .wifi i => i
  | .usb => usbSlotIndex

/-- The window at `a` started first, in true time. -/
def StartedBefore (s : Timed) (a b : Seat) : Prop :=
  s.start a < s.start b ∨ s.start a = s.start b ∧ slotIndex a < slotIndex b

/-- A client at `a` counts as present. -/
def Present (s : Timed) (a : Seat) : Prop :=
  ∃ c, s.table.clientAt a = some c ∧ c.helloWindowStarted = true

theorem stamp_inj {x y : Nat} (hxy : x < y + 2 ^ 31) (hyx : y < x + 2 ^ 31) :
    stamp x = stamp y ↔ x = y := by
  constructor
  · intro h
    have := congrArg UInt32.toNat h
    simp only [stamp_toNat] at this
    omega
  · exact congrArg stamp

theorem admittedBefore_iff {x y : Nat} {i j : Int} (hxy : x < y + 2 ^ 31) (hyx : y < x + 2 ^ 31) :
    admittedBefore (stamp x) i (stamp y) j = true ↔ x < y ∨ x = y ∧ i < j := by
  unfold admittedBefore
  by_cases heq : x = y
  · simp [heq]
  · rw [if_pos (by rwa [ne_eq, stamp_inj hxy hyx])]
    unfold before
    rcases Nat.lt_or_gt_of_ne heq with hlt | hgt
    · rw [signedSub_stamp_neg hlt (by omega)]
      simp [hlt]
    · rw [signedSub_stamp (by omega) (by omega)]
      simp
      omega

/-- The first-started client among those present, by the firmware's stamps and in truth. -/
theorem isEarliestPresent_iff (h : Inv s) {t : Nat} (hnow : s.now ≤ t)
    (hturn : ∀ a, Present s a → t - s.start a < 2 ^ 31) {i : Fin maxWifiClients}
    (hi : Present s (.wifi i)) :
    s.table.isEarliestPresent i = true ↔
      ∀ b, b ≠ .wifi i → Present s b → ¬ StartedBefore s b (.wifi i) := by
  have hstamp : ∀ a c, s.table.clientAt a = some c → c.helloWindowStarted = true →
      c.helloWindowStartUs = stamp (s.start a) ∧ s.start a ≤ t ∧ t - s.start a < 2 ^ 31 := by
    intro a c hc hs
    obtain ⟨h1, h2⟩ := h.started a c hc hs
    exact ⟨h1, by omega, hturn a ⟨c, hc, hs⟩⟩
  obtain ⟨candidate, hcand, hcs⟩ := hi
  obtain ⟨hcw, hct, hcturn⟩ := hstamp _ _ hcand hcs
  -- Within 2^31 us of now the wrapped stamps compare as the times do.
  have hbefore : ∀ b c, s.table.clientAt b = some c → c.helloWindowStarted = true →
      (admittedBefore c.helloWindowStartUs (slotIndex b) candidate.helloWindowStartUs
        (slotIndex (.wifi i)) = true ↔ StartedBefore s b (.wifi i)) := by
    intro b c hc hs
    obtain ⟨hw, hbt, hbturn⟩ := hstamp b c hc hs
    rw [hw, hcw, admittedBefore_iff (by omega) (by omega)]
    rfl
  change s.table.wifi i = some candidate at hcand
  simp only [isEarliestPresent, hcand, Bool.and_eq_true, List.all_eq_true, mem_slots, true_implies,
    Bool.or_eq_true, beq_iff_eq, Bool.not_eq_true', Option.any_eq_false]
  constructor
  · rintro ⟨hwifi, husb⟩ b hb ⟨c, hc, hs⟩ hbef
    rw [← hbefore b c hc hs] at hbef
    cases b with
    | wifi j =>
      rcases hwifi j with hji | hj
      · exact hb (by rw [hji])
      · exact Bool.eq_false_iff.mp (hj c hc) hbef
    | usb => exact Bool.eq_false_iff.mp (husb c hc) (by rw [hs]; exact hbef)
  · intro hfirst
    refine ⟨fun j => ?_, fun c hc => Bool.eq_false_iff.mpr fun hcon => ?_⟩
    · by_cases hj : j = i
      · exact .inl hj
      · refine .inr fun c hc => Bool.eq_false_iff.mpr fun hcon => ?_
        have hs := h.wifi j c hc
        exact hfirst (.wifi j) (by simpa using hj) ⟨c, hc, hs⟩ ((hbefore (.wifi j) c hc hs).mp hcon)
    · simp only [Bool.and_eq_true] at hcon
      exact hfirst .usb (by simp) ⟨c, hc, hcon.1⟩ ((hbefore .usb c hc hcon.1).mp hcon.2)

/-- The client at `a` has not identified, is not held, and its window had passed by time `t`. -/
def TrulyOld (s : Timed) (a : Seat) (t : Nat) : Prop :=
  ∃ c, s.table.clientAt a = some c ∧ c.identified = false ∧ c.helloHeld = false ∧
    c.helloWindowStarted = true ∧ s.start a + 5000000 ≤ t

theorem isOld_of_trulyOld (h : Inv s) {a : Seat} {t : Nat} (hold : TrulyOld s a t)
    (hturn : t - s.start a < 2 ^ 31) : ∃ c, s.table.clientAt a = some c ∧ c.isOld (stamp t) = true := by
  obtain ⟨c, hc, hid, hheld, hs, ht⟩ := hold
  exact ⟨c, hc, (isOld_iff hid hheld hs (h.started a c hc hs).1 (by omega) hturn).mpr ht⟩

/-- Whom the rule disconnects, in true times. -/
theorem mem_enforceOldClientRule (h : Inv s) {t : Nat} (hnow : s.now ≤ t)
    (hturn : ∀ a, Present s a → t - s.start a < 2 ^ 31) (i : Fin maxWifiClients) :
    i ∈ enforceOldClientRule s.table (stamp t) ↔
      1 < s.table.presentCount ∧ TrulyOld s (.wifi i) t ∧
        (s.table.anyIdentifiedPresent = true ∨
          ∃ b, b ≠ .wifi i ∧ Present s b ∧ StartedBefore s b (.wifi i)) := by
  have hold : (s.table.wifi i).any (·.isOld (stamp t)) = true ↔ TrulyOld s (.wifi i) t := by
    rw [Option.any_eq_true]
    constructor
    · rintro ⟨c, hc, hisOld⟩
      have hs := h.wifi i c hc
      obtain ⟨hw, hle⟩ := h.started (.wifi i) c hc hs
      have hid : c.identified = false ∧ c.helloHeld = false := by
        unfold Client.isOld at hisOld
        split at hisOld
        · cases hisOld
        · next hn => simpa using hn
      refine ⟨c, hc, hid.1, hid.2, hs, ?_⟩
      exact (isOld_iff hid.1 hid.2 hs hw (by omega) (hturn _ ⟨c, hc, hs⟩)).mp hisOld
    · rintro ⟨c, hc, hrest⟩
      obtain ⟨c', hc', hisOld⟩ := isOld_of_trulyOld h ⟨c, hc, hrest⟩ (hturn _ ⟨c, hc, hrest.2.2.1⟩)
      exact ⟨c', hc', hisOld⟩
  unfold enforceOldClientRule
  split
  · next hcount => simp [Nat.not_lt.mpr hcount]
  · next hcount =>
    simp only [List.mem_filter, mem_slots, true_and, Bool.and_eq_true, hold, Bool.not_eq_true',
      Bool.and_eq_false_iff, Bool.not_eq_false']
    -- the client that came first is spared while nobody has identified
    refine ⟨fun ⟨ho, hspare⟩ => ⟨(by omega), ho, ?_⟩, fun ⟨_, ho, hspare⟩ => ⟨ho, ?_⟩⟩
    · refine hspare.imp_right fun hne => ?_
      obtain ⟨c, hc, -, -, hs, -⟩ := ho
      by_contra hcon
      rw [Bool.eq_false_iff, ne_eq, isEarliestPresent_iff h hnow hturn ⟨c, hc, hs⟩] at hne
      exact hne fun b hb hp hst => hcon ⟨b, hb, hp, hst⟩
    · refine hspare.imp_right fun ⟨b, hb, hp, hst⟩ => ?_
      obtain ⟨c, hc, -, -, hs, -⟩ := ho
      rw [Bool.eq_false_iff, ne_eq, isEarliestPresent_iff h hnow hturn ⟨c, hc, hs⟩]
      exact fun hfirst => hfirst b hb hp hst

end Timed

/-! ## Hellos beside an old client -/

namespace Links

/-- With another client old, a first hello on WiFi is refused or still being decided. -/
theorem handleWifiHello_beside_old {s : Links} {i : Fin maxWifiClients} {self c : Client}
    {a : Seat} {hello : Hello} {now : UInt32} (hself : s.table.wifi i = some self)
    (hid : self.identified = false) (ha : a ≠ .wifi i) (hc : s.table.clientAt a = some c)
    (hold : c.isOld now = true) :
    s.handleWifiHello i hello now = s ∨
      s.handleWifiHello i hello now = s.emit (.helloAck (.wifi i) .oldControllerPresent) := by
  have hany : s.table.hasOldClient now (some i) false = true := by
    unfold hasOldClient
    cases a with
    | wifi j =>
      have hj : j ≠ i := by simpa using ha
      have : (slots.any fun k => some k != some i && (s.table.wifi k).any (·.isOld now)) = true := by
        rw [List.any_eq_true]
        refine ⟨j, mem_slots j, ?_⟩
        change s.table.wifi j = some c at hc
        simp [hj, hc, hold]
      simp [this]
    | usb =>
      change s.table.usb = some c at hc
      simp [hc, hold]
  unfold handleWifiHello
  simp only [hself, hid, Bool.false_eq_true, if_false, hany, if_true]
  split
  · exact .inl rfl
  · exact .inr rfl

/-- With a WiFi client old, a first hello on USB is refused or still being decided. -/
theorem handleUsbHello_beside_old {s : Links} {self c : Client} {j : Fin maxWifiClients}
    {hello : Hello} {now later : UInt32} {canRead : Bool} (hself : s.table.usb = some self)
    (hid : self.identified = false) (hc : s.table.wifi j = some c) (hold : c.isOld now = true) :
    s.handleUsbHello hello now later canRead = s ∨
      s.handleUsbHello hello now later canRead =
        s.emit (.helloAck .usb .oldControllerPresent) := by
  have hany : s.table.hasOldClient now none true = true := by
    have : (slots.any fun k => some k != none && (s.table.wifi k).any (·.isOld now)) = true := by
      rw [List.any_eq_true]
      exact ⟨j, mem_slots j, by simp [hc, hold]⟩
    simp [hasOldClient, this]
  unfold handleUsbHello
  simp only [hself, hid, Bool.false_eq_true, if_false, hany, if_true]
  split
  · exact .inl rfl
  · exact .inr rfl

end Links

/-- After any history: a client whose window has passed stays old until something touches it; no
first hello read while another client is old is accepted; and the old-client rule disconnects
every old WiFi client when somebody present has identified, and otherwise every one but the
client, WiFi or USB, whose window started first. All while windows are less than half a turn of
the clock old. -/
theorem old_clients_stay_old (history : List (Nat × HistoryOp)) :
    let s := Timed.init.run history
    (∀ a t, Timed.TrulyOld s a t → ∀ later, (∀ x ∈ later, ¬ Timed.Touches a x.2) →
      ∀ u, t ≤ u → (s.run later).now ≤ u → u - s.start a < 2 ^ 31 →
      ∃ c, (s.run later).table.clientAt a = some c ∧ c.isOld (stamp u) = true) ∧
    (∀ a t, Timed.TrulyOld s a t → t - s.start a < 2 ^ 31 → ∀ links : Links, links.table = s.table →
      (∀ i self hello, a ≠ .wifi i → s.table.wifi i = some self → self.identified = false →
        links.handleWifiHello i hello (stamp t) = links ∨
          links.handleWifiHello i hello (stamp t) =
            links.emit (.helloAck (.wifi i) .oldControllerPresent)) ∧
      ∀ self hello later canRead, a ≠ .usb → s.table.usb = some self → self.identified = false →
        links.handleUsbHello hello (stamp t) later canRead = links ∨
          links.handleUsbHello hello (stamp t) later canRead =
            links.emit (.helloAck .usb .oldControllerPresent)) ∧
    ∀ t, s.now ≤ t → (∀ a, Timed.Present s a → t - s.start a < 2 ^ 31) → ∀ i,
      i ∈ enforceOldClientRule s.table (stamp t) ↔
        1 < s.table.presentCount ∧ Timed.TrulyOld s (.wifi i) t ∧
          (s.table.anyIdentifiedPresent = true ∨
            ∃ b, b ≠ .wifi i ∧ Timed.Present s b ∧ Timed.StartedBefore s b (.wifi i)) := by
  intro s
  have h : Timed.Inv s := Timed.Inv.init.run history
  refine ⟨?_, ?_, fun t hnow hturn i => Timed.mem_enforceOldClientRule h hnow hturn i⟩
  · rintro a t ⟨c, hc, hid, hheld, hs, ht⟩ later hlater u htu hnow hturn
    obtain ⟨hc', hstart⟩ := Timed.run_frame hc hheld hs hlater
    exact Timed.isOld_of_trulyOld (h.run later)
      ⟨c, hc', hid, hheld, hs, by rw [hstart]; omega⟩ (by rwa [hstart])
  · intro a t hold hturn links htable
    obtain ⟨c, hc, hisOld⟩ := Timed.isOld_of_trulyOld h hold hturn
    rw [← htable] at hc
    refine ⟨fun i self hello ha hself hid => ?_, fun self hello later canRead ha hself hid => ?_⟩
    · rw [← htable] at hself
      exact Links.handleWifiHello_beside_old hself hid ha hc hisOld
    · rw [← htable] at hself
      cases a with
      | wifi j => exact Links.handleUsbHello_beside_old hself hid hc hisOld
      | usb => exact absurd rfl ha

/-- Two clients connect a second apart. -/
def twoConnect : List (Nat × HistoryOp) :=
  [(0, .admits { port := 1 }), (1000000, .admits { port := 2 })]

def besideTwo : Links := { table := (Timed.init.run twoConnect).table }

/-- Neither of the two identifies: the first stays old while USB starts to talk, a USB hello is
refused beside it, and the rule disconnects the second. -/
theorem old_clients_stay_old_two :
    (∃ c, ((Timed.init.run twoConnect).run [(6000000, .usbTalks)]).table.clientAt (.wifi 0) = some c ∧
      c.isOld (stamp 8000000) = true) ∧
    (besideTwo.handleUsbHello { id := 7 } (stamp 6500000) 6500000 true = besideTwo ∨
      besideTwo.handleUsbHello { id := 7 } (stamp 6500000) 6500000 true =
        besideTwo.emit (.helloAck .usb .oldControllerPresent)) ∧
    1 ∈ enforceOldClientRule (Timed.init.run twoConnect).table (stamp 6500000) := by
  have hfirst : Timed.TrulyOld (Timed.init.run twoConnect) (.wifi 0) 5000000 :=
    ⟨newWifiClient { port := 1 } (stamp 0), by decide, rfl, rfl, rfl, by decide⟩
  have hfirst' : Timed.TrulyOld (Timed.init.run twoConnect) (.wifi 0) 6500000 :=
    ⟨newWifiClient { port := 1 } (stamp 0), by decide, rfl, rfl, rfl, by decide⟩
  have hsecond : Timed.TrulyOld (Timed.init.run twoConnect) (.wifi 1) 6500000 :=
    ⟨newWifiClient { port := 2 } (stamp 1000000), by decide, rfl, rfl, rfl, by decide⟩
  obtain ⟨hstay, hhello, hrule⟩ := old_clients_stay_old twoConnect
  refine ⟨hstay _ _ hfirst [(6000000, .usbTalks)] (by simp [Timed.Touches]) 8000000 (by decide)
    (by decide) (by decide), ?_, ?_⟩
  · exact (hhello _ _ hfirst' (by decide) besideTwo rfl).2
      _ { id := 7 } 6500000 true (by simp) rfl rfl
  · refine (hrule 6500000 (by decide) (fun a _ => ?_) 1).mpr ⟨by decide, hsecond, .inr
      ⟨.wifi 0, by decide, ⟨newWifiClient { port := 1 } (stamp 0), by decide, rfl⟩,
        .inl (by decide)⟩⟩
    exact (Nat.sub_le _ _).trans_lt (by norm_num)

/-- Two clients connect a second apart and the second one identifies. -/
def secondIdentifies : List (Nat × HistoryOp) :=
  twoConnect ++ [(1000000, .identify (.wifi 1) { id := 7 })]

/-- The rule disconnects the client that was truly admitted first once another has identified. -/
theorem first_admitted_disconnected :
    ¬ ∀ (history : List (Nat × HistoryOp)) (t : Nat) (i : Fin maxWifiClients),
      (Timed.init.run history).now ≤ t → Timed.Present (Timed.init.run history) (.wifi i) →
      (∀ b, b ≠ .wifi i → Timed.Present (Timed.init.run history) b →
        Timed.StartedBefore (Timed.init.run history) (.wifi i) b) →
      i ∉ enforceOldClientRule (Timed.init.run history).table (stamp t) := by
  intro h
  refine h secondIdentifies 6000000 0 (by decide) ?_ ?_ (by decide)
  · exact ⟨newWifiClient { port := 1 } (stamp 0), by decide, rfl⟩
  · rintro b hb ⟨c, hc, hs⟩
    have hnone : ∀ a, a ≠ .wifi 0 → a ≠ .wifi 1 →
        ((Timed.init.run secondIdentifies).table.clientAt a).any (·.helloWindowStarted) = false := by
      rintro (j | _) h0 h1
      · obtain rfl : j = 2 := by
          have h0' : j ≠ 0 := by simpa using h0
          have h1' : j ≠ 1 := by simpa using h1
          revert h0' h1'
          revert j
          decide
        decide
      · decide
    by_cases h1 : b = .wifi 1
    · subst h1
      exact .inl (by decide)
    · have := hnone b hb h1
      simp [hc, hs] at this

/-- Half a turn of the clock after it connected, a lone client is no longer old. -/
theorem lone_client_forgotten :
    ¬ ∀ (history : List (Nat × HistoryOp)) (a : Seat) (t u : Nat),
      Timed.TrulyOld (Timed.init.run history) a t → t ≤ u → (Timed.init.run history).now ≤ u →
      ∃ c, (Timed.init.run history).table.clientAt a = some c ∧ c.isOld (stamp u) = true := by
  intro h
  obtain ⟨c, hc, hold⟩ := h [(0, .admits { port := 1 })] (.wifi 0) 5000000 (2 ^ 31)
    ⟨newWifiClient { port := 1 } (stamp 0), by decide, rfl, rfl, rfl, by decide⟩ (by decide)
    (by decide)
  have hclient : (Timed.init.run [(0, .admits { port := 1 })]).table.clientAt (.wifi 0) =
      some (newWifiClient { port := 1 } (stamp 0)) := by decide
  obtain rfl := Option.some.inj (hclient.symm.trans hc)
  revert hold
  decide

/-- A client connects and says nothing. Another identifies, and at four seconds comes back over
USB: its hello is held until the WiFi link, two seconds later, has removed the old entry. -/
def heldWhileAging : List LinkEvent :=
  [.wifiData { port := 1 } none {} 0 0, .wifiData { port := 2 } (some (.hello { id := 7 })) {} 1000 1000,
    .usbByte 4000000, .usbData (.hello { id := 7 }) {} 4000000 false, .driveWifi 6000000]

/-- The hello held at four seconds is accepted at six, beside a client that is old by then. -/
theorem held_hello_accepted_beside_old :
    (Links.run {} (Links.init 0) heldWhileAging).table.hasOldClient 6000000 none true = true ∧
      (Links.run {} (Links.init 0) heldWhileAging).table.identAt .usb = none ∧
      (Links.step {} (Links.run {} (Links.init 0) heldWhileAging)
        (.driveUsb 6000000 false)).table.identAt .usb = some 7 := by
  refine ⟨?_, ?_, ?_⟩ <;> decide +kernel

/-- A hello repeated by a client that has identified is accepted beside one that is old by then. -/
theorem repeated_hello_accepted_beside_old :
    (Links.run {} (Links.init 0) (heldWhileAging.take 2)).table.hasOldClient 6000000 (some 1) false =
        true ∧
      (Links.step {} (Links.run {} (Links.init 0) (heldWhileAging.take 2))
        (.wifiData { port := 2 } (some (.hello { id := 7 })) {} 6000000 6000000)).sent.getLast? =
        some (.helloAck (.wifi 1) .accepted) := by
  refine ⟨?_, ?_⟩ <;> decide +kernel

/-- Old clients do not stay old past half a turn of the clock, a held hello and a repeated one are
accepted beside one, and the client that was truly admitted first is not always spared. -/
theorem old_clients_not_kept :
    (¬ ∀ (history : List (Nat × HistoryOp)) (a : Seat) (t u : Nat),
      Timed.TrulyOld (Timed.init.run history) a t → t ≤ u → (Timed.init.run history).now ≤ u →
      ∃ c, (Timed.init.run history).table.clientAt a = some c ∧ c.isOld (stamp u) = true) ∧
    ((Links.run {} (Links.init 0) heldWhileAging).table.hasOldClient 6000000 none true = true ∧
      (Links.run {} (Links.init 0) heldWhileAging).table.identAt .usb = none ∧
      (Links.step {} (Links.run {} (Links.init 0) heldWhileAging)
        (.driveUsb 6000000 false)).table.identAt .usb = some 7) ∧
    ((Links.run {} (Links.init 0) (heldWhileAging.take 2)).table.hasOldClient 6000000 (some 1)
          false = true ∧
      (Links.step {} (Links.run {} (Links.init 0) (heldWhileAging.take 2))
        (.wifiData { port := 2 } (some (.hello { id := 7 })) {} 6000000 6000000)).sent.getLast? =
        some (.helloAck (.wifi 1) .accepted)) ∧
    ¬ ∀ (history : List (Nat × HistoryOp)) (t : Nat) (i : Fin maxWifiClients),
      (Timed.init.run history).now ≤ t → Timed.Present (Timed.init.run history) (.wifi i) →
      (∀ b, b ≠ .wifi i → Timed.Present (Timed.init.run history) b →
        Timed.StartedBefore (Timed.init.run history) (.wifi i) b) →
      i ∉ enforceOldClientRule (Timed.init.run history).table (stamp t) :=
  ⟨lone_client_forgotten, held_hello_accepted_beside_old, repeated_hello_accepted_beside_old,
    first_admitted_disconnected⟩

end CarveraFirmware.Clients
