import Mathlib
import CarveraFirmware.Library.WrapClock

/-!
# The client table

`libs/ClientTable.cpp`: up to three WiFi clients and the USB entry, with the identity each
has given and the window it has to give one. A slot that is not in use is `none`; the
source clears a slot whenever it leaves use, so nothing is lost by that.
-/

namespace CarveraFirmware.Clients

open WrapClock

inductive Link where
  | wifi | usb
  deriving DecidableEq, Repr

structure Address where
  ip : UInt8 × UInt8 × UInt8 × UInt8 := (0, 0, 0, 0)
  port : UInt16 := 0
  deriving DecidableEq

def maxNameLength : Nat := 31
def helloWindowUs : Int := 5000000
def usbIdleTimeoutUs : Int := 10000000
def maxWifiClients : Nat := 3

instance : NeZero maxWifiClients := ⟨by decide⟩

/-- One connected client. `name` holds the `name_len` bytes of the name. -/
structure Client where
  link : Link := .wifi
  address : Address := {}
  identified : Bool := false
  id : UInt64 := 0
  name : List UInt8 := []
  lastUserUs : UInt32 := 0
  lastHeartbeatUs : UInt32 := 0
  helloWindowStarted : Bool := false
  helloWindowStartUs : UInt32 := 0
  sendFailed : Bool := false
  consecutiveSendFailures : UInt8 := 0
  features : UInt8 := 0
  jobStartReady : UInt16 := 0
  helloHeld : Bool := false
  hasLaunch : Bool := false
  launch : UInt64 := 0
  deriving DecidableEq

namespace Client

def setIdentity (client : Client) (id : UInt64) (name : List UInt8) : Client :=
  { client with id := id, name := name.take maxNameLength, identified := true }

def recordHeartbeat (client : Client) (now : UInt32) : Client :=
  { client with lastHeartbeatUs := now }

def isOld (client : Client) (now : UInt32) : Bool :=
  if client.identified || client.helloHeld then false
  else if !client.helloWindowStarted then false
  else signedSub now client.helloWindowStartUs ≥ helloWindowUs

def restartHelloWindow (client : Client) (now : UInt32) : Client :=
  if client.helloWindowStarted then { client with helloWindowStartUs := now } else client

end Client

def usbSessionExpired (helloWindowStarted : Bool) (now lastActivity : UInt32) : Bool :=
  if !helloWindowStarted then false else signedSub now lastActivity ≥ usbIdleTimeoutUs

/-- `before(a, b)` of two readings of the counter. -/
def before (a b : UInt32) : Bool := signedSub a b < 0

/-- Where a client sits: a WiFi slot, or the USB entry. -/
inductive Seat where
  | wifi (index : Fin maxWifiClients)
  | usb
  deriving DecidableEq

def Seat.link : Seat → Link
  | .wifi _ => .wifi
  | .usb => .usb

structure ClientTable where
  wifi : Fin maxWifiClients → Option Client := fun _ => none
  usb : Option Client := none

namespace ClientTable

/-- `client_at(table, seat)`. -/
def clientAt (table : ClientTable) : Seat → Option Client
  | .wifi i => table.wifi i
  | .usb => table.usb

/-- Writing what a seat holds. -/
def setAt (table : ClientTable) (seat : Seat) (client : Option Client) : ClientTable :=
  match seat with
  | .wifi i => { table with wifi := Function.update table.wifi i client }
  | .usb => { table with usb := client }

/-- Changing the client at a seat through the pointer `client_at` returns. -/
def modifyAt (table : ClientTable) (seat : Seat) (f : Client → Client) : ClientTable :=
  table.setAt seat ((table.clientAt seat).map f)

def slots : List (Fin maxWifiClients) := List.finRange maxWifiClients

def findWifi (table : ClientTable) (address : Address) : Option (Fin maxWifiClients) :=
  slots.find? fun i => (table.wifi i).any fun c => c.address == address

/-- The entry `add_wifi` writes for a new client. -/
def newWifiClient (address : Address) (now : UInt32) : Client :=
  { link := .wifi, address := address, lastUserUs := now, lastHeartbeatUs := now
    helloWindowStarted := true, helloWindowStartUs := now }

/-- `add_wifi(address, now)`: the index, when there is one, and the table. -/
def addWifi (table : ClientTable) (address : Address) (now : UInt32) :
    Option (Fin maxWifiClients) × ClientTable :=
  match table.findWifi address with
  | some i => (some i, table)
  | none =>
    match slots.find? fun i => (table.wifi i).isNone with
    | some i => (some i, table.setAt (.wifi i) (some (newWifiClient address now)))
    | none => (none, table)

def removeWifi (table : ClientTable) (index : Fin maxWifiClients) : ClientTable :=
  table.setAt (.wifi index) none

def clearWifi (table : ClientTable) : ClientTable := { table with wifi := fun _ => none }

def setUsbPresent (table : ClientTable) (present : Bool) (now : UInt32) : ClientTable :=
  if !present then { table with usb := none }
  else if table.usb.isSome then table
  else { table with usb := some { link := .usb, lastUserUs := now, lastHeartbeatUs := now } }

def startUsbHelloWindow (table : ClientTable) (now : UInt32) : ClientTable :=
  table.modifyAt .usb fun c =>
    if c.helloWindowStarted then c
    else { c with helloWindowStarted := true, helloWindowStartUs := now }

def clearUsbIdentity (table : ClientTable) : ClientTable :=
  table.modifyAt .usb fun _ => { link := .usb }

def wifiCount (table : ClientTable) : Nat := (slots.filter fun i => (table.wifi i).isSome).length

def presentCount (table : ClientTable) : Nat :=
  table.wifiCount + if table.usb.any (·.helloWindowStarted) then 1 else 0

def findWifiById (table : ClientTable) (id : UInt64) (except : Option (Fin maxWifiClients)) :
    Option (Fin maxWifiClients) :=
  slots.find? fun i => some i != except && (table.wifi i).any fun c => c.identified && c.id == id

def usbHasId (table : ClientTable) (id : UInt64) : Bool :=
  table.usb.any fun c => c.identified && c.id == id

def hasOldClient (table : ClientTable) (now : UInt32) (except : Option (Fin maxWifiClients))
    (excludeUsb : Bool) : Bool :=
  (slots.any fun i => some i != except && (table.wifi i).any (·.isOld now)) ||
    (!excludeUsb && table.usb.any (·.isOld now))

def anyIdentifiedPresent (table : ClientTable) : Bool :=
  (slots.any fun i => (table.wifi i).any (·.identified)) || table.usb.any (·.identified)

/-- `admitted_before`: the earlier time stamp, then the lower slot. -/
def admittedBefore (a : UInt32) (slotA : Int) (b : UInt32) (slotB : Int) : Bool :=
  if a ≠ b then before a b else slotA < slotB

def usbSlotIndex : Int := -1

def isEarliestPresent (table : ClientTable) (index : Fin maxWifiClients) : Bool :=
  match table.wifi index with
  | none => false
  | some candidate =>
    (slots.all fun i => i == index || !(table.wifi i).any fun c =>
      admittedBefore c.helloWindowStartUs i candidate.helloWindowStartUs index) &&
    !(table.usb.any fun c => c.helloWindowStarted &&
      admittedBefore c.helloWindowStartUs usbSlotIndex candidate.helloWindowStartUs index)

end ClientTable

/-! ## What the loops over the slots decide -/

namespace ClientTable

variable {table : ClientTable}

@[simp] theorem clientAt_setAt_self (table : ClientTable) (s : Seat) (c : Option Client) :
    (table.setAt s c).clientAt s = c := by
  cases s <;> simp [clientAt, setAt]

theorem clientAt_setAt_ne (table : ClientTable) {s s' : Seat} (c : Option Client) (h : s' ≠ s) :
    (table.setAt s c).clientAt s' = table.clientAt s' := by
  cases s <;> cases s' <;> simp_all [clientAt, setAt]

theorem clientAt_setAt (table : ClientTable) (s s' : Seat) (c : Option Client) :
    (table.setAt s c).clientAt s' = if s' = s then c else table.clientAt s' := by
  split
  · next h => rw [h, clientAt_setAt_self]
  · next h => exact clientAt_setAt_ne table c h

theorem clientAt_modifyAt (table : ClientTable) (a b : Seat) (f : Client → Client) :
    (table.modifyAt a f).clientAt b =
      if b = a then (table.clientAt a).map f else table.clientAt b := by
  rw [modifyAt, clientAt_setAt]

theorem setAt_clientAt (table : ClientTable) (a : Seat) :
    table.setAt a (table.clientAt a) = table := by
  cases a <;> simp [setAt, clientAt]

/-- Rewriting a client to itself. -/
theorem modifyAt_of_fixed {a : Seat} {f : Client → Client}
    (h : ∀ c, table.clientAt a = some c → f c = c) : table.modifyAt a f = table := by
  have hmap : (table.clientAt a).map f = table.clientAt a := by
    cases hc : table.clientAt a with
    | none => rfl
    | some c => rw [Option.map_some, h c hc]
  rw [modifyAt, hmap, setAt_clientAt]

theorem mem_slots (i : Fin maxWifiClients) : i ∈ slots := List.mem_finRange i

theorem findWifiById_eq_some {id : UInt64} {except : Option (Fin maxWifiClients)}
    {i : Fin maxWifiClients} (h : table.findWifiById id except = some i) :
    some i ≠ except ∧ ∃ c, table.wifi i = some c ∧ c.identified = true ∧ c.id = id := by
  have := List.find?_some h
  simpa [Option.any_eq_true] using this

theorem findWifiById_eq_none {id : UInt64} {except : Option (Fin maxWifiClients)} :
    table.findWifiById id except = none ↔
      ∀ i c, some i ≠ except → table.wifi i = some c → c.identified = true → c.id ≠ id := by
  simp only [findWifiById, List.find?_eq_none, mem_slots, true_implies]
  constructor
  · intro h i c hi hc hid hcid
    have := h i
    simp [hi, hc, hid, hcid] at this
  · intro h i hcon
    simp only [Bool.and_eq_true, bne_iff_ne, Option.any_eq_true, beq_iff_eq] at hcon
    obtain ⟨hi, c, hc, hid, hcid⟩ := hcon
    exact h i c hi hc hid hcid

theorem usbHasId_iff {id : UInt64} :
    table.usbHasId id = true ↔ ∃ c, table.usb = some c ∧ c.identified = true ∧ c.id = id := by
  simp [usbHasId, Option.any_eq_true]

/-- Somebody is identified at some seat. -/
theorem anyIdentifiedPresent_iff :
    table.anyIdentifiedPresent = true ↔ ∃ s c, table.clientAt s = some c ∧ c.identified = true := by
  simp only [anyIdentifiedPresent, Bool.or_eq_true, List.any_eq_true, Option.any_eq_true]
  constructor
  · rintro (⟨i, -, c, hc, hid⟩ | ⟨c, hc, hid⟩)
    · exact ⟨.wifi i, c, hc, hid⟩
    · exact ⟨.usb, c, hc, hid⟩
  · rintro ⟨s, c, hc, hid⟩
    cases s with
    | wifi i => exact .inl ⟨i, mem_slots i, c, hc, hid⟩
    | usb => exact .inr ⟨c, hc, hid⟩

end ClientTable

end CarveraFirmware.Clients
