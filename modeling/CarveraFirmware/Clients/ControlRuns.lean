import Mathlib
import CarveraFirmware.Clients.Check

/-!
# Control over whole runs

Every order of gate, peek, clear, release, reconcile and admission. Control only ever moves
to nobody, or by the gate to an identified sender when it is free or shared one at a time.
-/

namespace CarveraFirmware.Clients

/-- The calls that read or write the token. -/
inductive ControlOp where
  | gate (i : GateInputs)
  | peek (i : GateInputs)
  | clear
  | releaseIfHolder (id : UInt64)
  | reconcileHolder (table : ClientTable)
  | admitHello (self : Client) (hello : Hello)

def ControlOp.apply (token : ControlToken) : ControlOp → ControlToken
  | .gate i => (token.gate i).2
  | .peek _ => token
  | .clear => token.clear
  | .releaseIfHolder id => (token.releaseIfHolder id).2
  | .reconcileHolder table => (Clients.reconcileHolder token table).2
  | .admitHello self hello => (Clients.admitHello self hello token).2.2

/-- The token after a run of calls on a fresh one. -/
def controlRun (ops : List ControlOp) : ControlToken := ops.foldl ControlOp.apply {}

/-- The calls that can free control held by `x`. -/
def FreesControl (x : Identity) (op : ControlOp) : Prop :=
  op = .clear ∨ op = .releaseIfHolder x.id ∨
    (∃ self hello, op = .admitHello self hello ∧ hello.id = x.id) ∨
    ∃ table, op = .reconcileHolder table ∧ Absent table x.id

/-- The passive commands a client without control may run at each level of rights. -/
def PassiveExempt (i : GateInputs) : Prop :=
  (i.action = .pause ∨ i.action = .stop) ∧ PassiveRights.watchStop.level ≤ i.rights.level ∨
    i.action = .upload ∧ i.rights = .watchStopUpload ∧ i.motion.idle = true

theorem passiveActionAllowed_iff {i : GateInputs} :
    passiveActionAllowed i.action i.rights i.motion = true ↔ PassiveExempt i := by
  unfold passiveActionAllowed PassiveExempt
  cases i.action <;> cases i.rights <;> simp [PassiveRights.level]

/-- What one call does to the holder and, at the gate, to the message. -/
structure ControlStep (token : ControlToken) (op : ControlOp) : Prop where
  /-- In multi-user mode everybody but the holder is refused, passive exemptions apart. -/
  refused : ∀ i, op = .gate i ∨ op = .peek i → token.holder.identified = true →
    i.mode = .multiUser → i.traffic = .userCaused →
    (i.sender.identified = false ∨ i.sender.id ≠ token.holder.id) →
    ((token.gate i).1.refused = true ∨ PassiveExempt i) ∧ op.apply token = token
  /-- Control moves to nobody, or by the gate to a sender it may move to. -/
  moves : (op.apply token).holder ≠ token.holder →
    (token.holder.identified = true ∧ (op.apply token).holder = {} ∧
      FreesControl token.holder op) ∨
    ∃ i, op = .gate i ∧ (op.apply token).holder = i.sender ∧ i.sender.identified = true ∧
      i.traffic = .userCaused ∧ blocksTransfer i.motion = false ∧
      (i.mode = .singleUser ∨ token.holder.identified = false)
  automatic : ∀ i, op = .gate i → i.traffic = .automatic → op.apply token = token
  peeks : ∀ i, op = .peek i → op.apply token = token
  /-- Peeking answers what the gate would. -/
  agrees : ∀ i, (token.peek i).refused = (token.gate i).1.refused ∧
    (token.peek i).reason = (token.gate i).1.reason

/-- Nobody in control is the empty identity. -/
def HolderClean (token : ControlToken) : Prop :=
  token.holder.identified = true ∨ token.holder = {}

theorem apply_moves {token : ControlToken} (hclean : HolderClean token) (op : ControlOp)
    (hmove : (op.apply token).holder ≠ token.holder) :
    (token.holder.identified = true ∧ (op.apply token).holder = {} ∧
      FreesControl token.holder op) ∨
    ∃ i, op = .gate i ∧ (op.apply token).holder = i.sender ∧ i.sender.identified = true ∧
      i.traffic = .userCaused ∧ blocksTransfer i.motion = false ∧
      (i.mode = .singleUser ∨ token.holder.identified = false) := by
  -- A gate gives control to its sender; every other call can only free it.
  cases op with
  | gate i =>
    simp only [ControlOp.apply, gate_holder] at hmove ⊢
    split at hmove
    · next hchanged =>
      rw [if_pos hchanged]
      obtain ⟨htraffic, hid, -, hmode, hblocks⟩ := decideGate_holderChanged.mp hchanged
      exact .inr ⟨i, rfl, rfl, hid, htraffic, hblocks, hmode⟩
    · exact absurd rfl hmove
  | peek i => exact absurd rfl hmove
  | clear =>
    have hne : token.holder ≠ {} := fun h => hmove h.symm
    exact .inl ⟨hclean.resolve_right hne, rfl, .inl rfl⟩
  | releaseIfHolder id =>
    simp only [ControlOp.apply, releaseIfHolder_holder] at hmove ⊢
    split at hmove
    · next h =>
      rw [if_pos h]
      exact .inl ⟨h.1, rfl, .inr (.inl (by rw [h.2]))⟩
    · exact absurd rfl hmove
  | reconcileHolder table =>
    simp only [ControlOp.apply, reconcileHolder_holder] at hmove ⊢
    split at hmove
    · next h =>
      rw [if_pos h]
      exact .inl ⟨h.1, rfl, .inr (.inr (.inr ⟨table, rfl, h.2⟩))⟩
    · exact absurd rfl hmove
  | admitHello self hello =>
    simp only [ControlOp.apply, admitHello, releaseIfHolder_holder] at hmove ⊢
    split at hmove
    · next h =>
      rw [if_pos h]
      exact .inl ⟨h.1, rfl, .inr (.inr (.inl ⟨self, hello, rfl, h.2.symm⟩))⟩
    · exact absurd rfl hmove

theorem holderClean_apply {token : ControlToken} (h : HolderClean token) (op : ControlOp) :
    HolderClean (op.apply token) := by
  by_cases hmove : (op.apply token).holder = token.holder
  · unfold HolderClean
    rw [hmove]
    exact h
  · rcases apply_moves h op hmove with ⟨-, hnew, -⟩ | ⟨i, -, hnew, hid, -⟩
    · exact .inr hnew
    · exact .inl (by rw [hnew, hid])

theorem holderClean_run (ops : List ControlOp) : HolderClean (controlRun ops) := by
  induction ops using List.reverseRecOn with
  | nil => exact .inr rfl
  | append_singleton ops op ih =>
    rw [controlRun, List.foldl_append]
    exact holderClean_apply ih op

/-- A step either frees `x`, or is let through the gate in single-user mode, or leaves `x` in
control. -/
theorem apply_keeps {token : ControlToken} {x : Identity} {op : ControlOp}
    (hclean : HolderClean token) (hx : token.holder = x) (hid : x.identified = true)
    (hfree : ¬ FreesControl x op) (hmulti : ∀ i, op = .gate i → i.mode = .multiUser) :
    (op.apply token).holder = x := by
  by_contra hne
  rw [← hx] at hne
  rcases apply_moves hclean op hne with ⟨-, -, hfrees⟩ | ⟨i, rfl, -, -, -, -, hsingle | hnobody⟩
  · exact hfree (hx ▸ hfrees)
  · rw [hmulti i rfl] at hsingle
    cases hsingle
  · rw [hx, hid] at hnobody
    cases hnobody

theorem controlStep_of_clean {token : ControlToken} (hclean : HolderClean token)
    (op : ControlOp) : ControlStep token op where
  refused := by
    intro i hop hheld hmode htraffic hother
    obtain ⟨hstay, hpass⟩ := decideGate_multiUser (i := i) hheld hmode htraffic
      (fun h => by rcases hother with h' | h' <;> simp_all)
    refine ⟨?_, ?_⟩
    · rcases hpass with ⟨href, -⟩ | ⟨-, hallow⟩
      · exact .inl href
      · exact .inr (passiveActionAllowed_iff.mp hallow)
    · rcases hop with rfl | rfl
      · simp [ControlOp.apply, ControlToken.gate, hstay]
      · rfl
  moves := apply_moves hclean op
  automatic := by
    rintro i rfl htraffic
    simp [ControlOp.apply, ControlToken.gate, decideGate, htraffic]
  peeks := by
    rintro i rfl
    rfl
  agrees := fun i => ⟨rfl, rfl⟩

/-- After any run, the next call behaves as `ControlStep` says, and whoever has control keeps it
over any further calls of which none frees it and the gate works in multi-user mode. -/
theorem control_over_runs (ops : List ControlOp) :
    (∀ op, ControlStep (controlRun ops) op) ∧
    ∀ seg x, (controlRun ops).holder = x → x.identified = true →
      (∀ op ∈ seg, ¬ FreesControl x op) → (∀ i, .gate i ∈ seg → i.mode = .multiUser) →
      (controlRun (ops ++ seg)).holder = x := by
  refine ⟨controlStep_of_clean (holderClean_run ops), ?_⟩
  intro seg x hx hid hfree hmulti
  induction seg using List.reverseRecOn with
  | nil => simpa using hx
  | append_singleton seg op ih =>
    have hseg : (controlRun (ops ++ seg)).holder = x :=
      ih (fun o ho => hfree o (by simp [ho])) (fun i hi => hmulti i (by simp [hi]))
    rw [← List.append_assoc, controlRun, List.foldl_append]
    exact apply_keeps (holderClean_run _) hseg hid (hfree op (by simp))
      (fun i hi => hmulti i (by simp [hi]))

end CarveraFirmware.Clients
