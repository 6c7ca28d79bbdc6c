import Mathlib
import CarveraFirmware.Clients.Table

/-!
# The control token

`libs/ControlToken.cpp`: who has control of the machine, and which messages may take it,
need it, or are let through without it.
-/

namespace CarveraFirmware.Clients

inductive Mode where
  | singleUser | multiUser
  deriving DecidableEq, Repr

inductive PassiveRights where
  | watchOnly | watchStop | watchStopUpload
  deriving DecidableEq, Repr

/-- The numeric value the source compares rights by. -/
def PassiveRights.level : PassiveRights → Nat
  | .watchOnly => 0
  | .watchStop => 1
  | .watchStopUpload => 2

inductive PassiveAction where
  | none | pause | stop | upload
  deriving DecidableEq, Repr

inductive Traffic where
  | automatic | userCaused
  deriving DecidableEq, Repr

structure MotionState where
  run : Bool := false
  homing : Bool := false
  jobPlaying : Bool := false
  idle : Bool := false
  deriving DecidableEq

def blocksTransfer (state : MotionState) : Bool :=
  state.homing || (state.run && !state.jobPlaying)

def passiveActionAllowed (action : PassiveAction) (rights : PassiveRights)
    (motion : MotionState) : Bool :=
  match action with
  | .pause | .stop => rights.level ≥ PassiveRights.watchStop.level
  | .upload => rights.level ≥ PassiveRights.watchStopUpload.level && motion.idle
  | .none => false

structure Identity where
  identified : Bool := false
  id : UInt64 := 0
  link : Link := .wifi
  name : List UInt8 := []
  deriving DecidableEq

def identityOf : Option Client → Identity
  | none => {}
  | some client =>
    if !client.identified then {}
    else { identified := true, id := client.id, link := client.link, name := client.name }

inductive RefusalReason where
  | none | notHolder | motionInProgress
  deriving DecidableEq, Repr

structure GateResult where
  refused : Bool := false
  holderChanged : Bool := false
  reason : RefusalReason := .none
  deriving DecidableEq

/-- What a message brings to the gate. -/
structure GateInputs where
  sender : Identity
  traffic : Traffic
  motion : MotionState
  mode : Mode
  action : PassiveAction
  rights : PassiveRights
  deriving DecidableEq

/-- `decide(holder, sender, traffic, motion, mode, action, rights)`. -/
def decideGate (holder : Identity) (i : GateInputs) : GateResult :=
  if i.traffic = .automatic then {}
  else if !i.sender.identified then
    if holder.identified then { refused := true, reason := .notHolder } else {}
  else if holder.identified && holder.id == i.sender.id then {}
  else if i.mode = .multiUser && holder.identified then
    if passiveActionAllowed i.action i.rights i.motion then {}
    else { refused := true, reason := .notHolder }
  else if blocksTransfer i.motion then { refused := true, reason := .motionInProgress }
  else { holderChanged := true }

structure ControlToken where
  holder : Identity := {}
  deriving DecidableEq

namespace ControlToken

def hasHolder (token : ControlToken) : Bool := token.holder.identified

def gate (token : ControlToken) (i : GateInputs) : GateResult × ControlToken :=
  let result := decideGate token.holder i
  (result, if result.holderChanged then { holder := i.sender } else token)

def peek (token : ControlToken) (i : GateInputs) : GateResult :=
  { decideGate token.holder i with holderChanged := false }

def clear (_ : ControlToken) : ControlToken := { holder := {} }

def releaseIfHolder (token : ControlToken) (id : UInt64) : Bool × ControlToken :=
  if !token.holder.identified || token.holder.id != id then (false, token)
  else (true, { holder := {} })

end ControlToken

def reconcileHolder (token : ControlToken) (table : ClientTable) : Bool × ControlToken :=
  if !token.hasHolder then (false, token)
  else if (table.findWifiById token.holder.id none).isSome then (false, token)
  else if table.usbHasId token.holder.id then (false, token)
  else token.releaseIfHolder token.holder.id

/-! ## What each operation can do to the holder -/

/-- The gate moves control exactly to an identified sender of user-caused traffic who is not the
holder, while no interactive move blocks it and control is free or shared one at a time. -/
theorem decideGate_holderChanged {holder : Identity} {i : GateInputs} :
    (decideGate holder i).holderChanged = true ↔
      i.traffic = .userCaused ∧ i.sender.identified = true ∧
      ¬ (holder.identified = true ∧ holder.id = i.sender.id) ∧
      (i.mode = .singleUser ∨ holder.identified = false) ∧ blocksTransfer i.motion = false := by
  unfold decideGate
  cases i.traffic <;> cases i.sender.identified <;> cases holder.identified <;> cases i.mode <;>
    by_cases hid : holder.id = i.sender.id <;> cases blocksTransfer i.motion <;> simp [hid] <;>
    split <;> rfl

/-- A user-caused message from somebody other than the holder, in multi-user mode, passes only as
an allowed passive action. -/
theorem decideGate_multiUser {holder : Identity} {i : GateInputs}
    (hholder : holder.identified = true) (hmode : i.mode = .multiUser)
    (htraffic : i.traffic = .userCaused)
    (hother : ¬ (i.sender.identified = true ∧ i.sender.id = holder.id)) :
    (decideGate holder i).holderChanged = false ∧
      ((decideGate holder i).refused = true ∧ (decideGate holder i).reason = .notHolder ∨
        i.sender.identified = true ∧ passiveActionAllowed i.action i.rights i.motion = true) := by
  by_cases hsender : i.sender.identified = true
  · have hid : holder.id ≠ i.sender.id := fun h => hother ⟨hsender, h.symm⟩
    cases hallow : passiveActionAllowed i.action i.rights i.motion <;>
      simp [decideGate, hholder, hmode, htraffic, hsender, hid, hallow]
  · simp [decideGate, hholder, htraffic, hsender]

/-- A message that takes control is not refused. -/
theorem decideGate_not_refused {holder : Identity} {i : GateInputs}
    (h : (decideGate holder i).holderChanged = true) :
    decideGate holder i = { holderChanged := true } := by
  unfold decideGate at h ⊢
  split_ifs at h ⊢
  rfl

theorem gate_holder (token : ControlToken) (i : GateInputs) :
    (token.gate i).2.holder =
      if (decideGate token.holder i).holderChanged then i.sender else token.holder := by
  simp only [ControlToken.gate]
  split <;> rfl

theorem releaseIfHolder_holder (token : ControlToken) (id : UInt64) :
    (token.releaseIfHolder id).2.holder =
      if token.holder.identified = true ∧ token.holder.id = id then {} else token.holder := by
  unfold ControlToken.releaseIfHolder
  by_cases h : token.holder.identified = true <;> by_cases hid : token.holder.id = id <;>
    simp [h, hid]

/-- `id` belongs to no identified client of the table. -/
def Absent (table : ClientTable) (id : UInt64) : Prop :=
  ∀ s c, table.clientAt s = some c → c.identified = true → c.id ≠ id

theorem absent_iff {table : ClientTable} {id : UInt64} :
    Absent table id ↔ table.findWifiById id none = none ∧ table.usbHasId id = false := by
  rw [ClientTable.findWifiById_eq_none, Bool.eq_false_iff, ne_eq, ClientTable.usbHasId_iff]
  constructor
  · intro h
    exact ⟨fun i c _ hc => h (.wifi i) c hc, fun ⟨c, hc, hid, hcid⟩ => h .usb c hc hid hcid⟩
  · rintro ⟨hw, hu⟩ (i | _) c hc hid hcid
    · exact hw i c (by simp) hc hid hcid
    · exact hu ⟨c, hc, hid, hcid⟩

open Classical in
theorem reconcileHolder_holder (token : ControlToken) (table : ClientTable) :
    (reconcileHolder token table).2.holder =
      if token.holder.identified = true ∧ Absent table token.holder.id then {}
      else token.holder := by
  unfold reconcileHolder ControlToken.hasHolder
  rw [absent_iff]
  cases hh : token.holder.identified <;> cases hw : table.findWifiById token.holder.id none <;>
    cases hu : table.usbHasId token.holder.id <;> simp [ControlToken.releaseIfHolder, hh]

end CarveraFirmware.Clients
