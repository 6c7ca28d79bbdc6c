import Mathlib
import CarveraFirmware.Clients.OldClients

/-!
# What a table says of its entries

Whatever has happened to a client table, each entry is on the link of its seat and its name is one
that a hello may carry.
-/

namespace CarveraFirmware.Clients

open ClientTable WrapClock

/-- A client that may sit at the seat. -/
structure Client.Fits (client : Client) (seat : Seat) : Prop where
  link : client.link = seat.link
  name : client.name.length ≤ maxNameLength

/-- A table whose entries all fit their seats. -/
def ClientTable.Proper (table : ClientTable) : Prop :=
  ∀ seat c, table.clientAt seat = some c → c.Fits seat

namespace ClientTable.Proper

variable {table : ClientTable}

theorem setAt (h : table.Proper) (a : Seat) {client : Option Client}
    (hfits : ∀ c, client = some c → c.Fits a) : (table.setAt a client).Proper := by
  intro b c hc
  rw [clientAt_setAt] at hc
  split at hc
  · next hb =>
    rw [hb]
    exact hfits c hc
  · exact h b c hc

theorem modifyAt (h : table.Proper) (a : Seat) {f : Client → Client}
    (hf : ∀ c, c.Fits a → (f c).Fits a) : (table.modifyAt a f).Proper := by
  refine h.setAt a fun c hc => ?_
  obtain ⟨c', hc', rfl⟩ := Option.map_eq_some_iff.mp hc
  exact hf c' (h a c' hc')

/-- A change to neither the link nor the name. -/
theorem modifyAt_of_same (h : table.Proper) (a : Seat) {f : Client → Client}
    (hf : ∀ c, (f c).link = c.link ∧ (f c).name = c.name) : (table.modifyAt a f).Proper :=
  h.modifyAt a fun c hc => ⟨(hf c).1.trans hc.link, by rw [(hf c).2]; exact hc.name⟩

theorem addWifi (h : table.Proper) (address : Address) (now : UInt32) :
    (table.addWifi address now).2.Proper := by
  unfold ClientTable.addWifi
  split
  · exact h
  split
  · next i _ =>
    refine h.setAt (.wifi i) fun c hc => ?_
    obtain rfl := Option.some_inj.mp hc
    exact ⟨rfl, Nat.zero_le _⟩
  · exact h

end ClientTable.Proper

namespace Timed

variable {s : Timed}

theorem proper_apply (h : s.table.Proper) (op : HistoryOp) : (s.apply op).table.Proper := by
  cases op with
  | admits address =>
    have hadd := h.addWifi address (stamp s.now)
    simp only [Timed.apply]
    rcases hr : s.table.addWifi address (stamp s.now) with ⟨r, table⟩
    rw [hr] at hadd
    cases s.table.findWifi address <;> cases r <;> exact hadd
  | usbTalks =>
    have hstart : (s.table.startUsbHelloWindow (stamp s.now)).Proper := by
      refine h.modifyAt_of_same .usb fun c => ?_
      split <;> exact ⟨rfl, rfl⟩
    simp only [Timed.apply]
    split <;> exact hstart
  | identify seat hello =>
    refine h.modifyAt seat fun c hc => ⟨hc.link, ?_⟩
    exact List.length_take_le _ _
  | hold seat => exact h.modifyAt_of_same seat fun _ => ⟨rfl, rfl⟩
  | release seat => exact h.modifyAt_of_same seat fun _ => ⟨rfl, rfl⟩
  | remove i =>
    refine h.setAt (.wifi i) fun c hc => ?_
    cases hc
  | clearUsb => exact h.modifyAt .usb fun _ _ => ⟨rfl, Nat.zero_le _⟩
  | restart seat =>
    refine h.modifyAt_of_same seat fun c => ?_
    unfold Client.restartHelloWindow
    split <;> exact ⟨rfl, rfl⟩

/-- The entries of every table that comes about fit their seats. -/
theorem proper_run (history : List (Nat × HistoryOp)) : (init.run history).table.Proper := by
  induction history using List.reverseRecOn with
  | nil =>
    intro seat c hc
    cases seat with
    | wifi i => cases hc
    | usb =>
      obtain rfl := Option.some_inj.mp hc
      exact ⟨rfl, Nat.zero_le _⟩
  | append_singleton history x ih =>
    rw [run, List.foldl_append, List.foldl_cons, List.foldl_nil]
    exact proper_apply (s := { init.run history with now := (init.run history).now + x.1 }) ih x.2

end Timed

end CarveraFirmware.Clients
