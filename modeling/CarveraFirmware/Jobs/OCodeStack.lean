import Mathlib
import CarveraFirmware.Library.Reached
import CarveraFirmware.Jobs.OCodeHandler

/-!
# The stack of the O-codes

What a call of `process_line` keeps of the stack and of the file, and the lines at which it does not.
-/

namespace CarveraFirmware.Jobs.OCode

/-- A frame that is read or removed is in the stack. -/
def Access.InStack : Access → Prop
  | .read i n => 0 ≤ i ∧ i < n
  | .removed i n => 0 ≤ i ∧ i < n
  | _ => True

variable {V : Type}

/-- A call that has kept to the stack, and after an error that halts has left no frame and kept away
from the file, which is closed. -/
structure Disciplined (s : Handler V) : Prop where
  nonneg : 0 ≤ s.count
  bounded : s.count ≤ ocodeMaxStackDepth
  inStack : ∀ a ∈ s.log, a.InStack
  halted : .haltError ∈ s.log → s.count = 0 ∧ s.file = none
  noFile : ∀ before after, s.log = before ++ .haltError :: after → .file ∉ after

/-- The stack has at most `n` frames, and no error has been met. -/
structure Calm (n : Int) (s : Handler V) : Prop where
  nonneg : 0 ≤ s.count
  bounded : s.count ≤ n
  inStack : ∀ a ∈ s.log, a.InStack
  quiet : .haltError ∉ s.log
  live : s.file = none → s.count = 0

/-- A state that has been looked at only. -/
structure Looks (s s' : Handler V) : Prop where
  data : s'.data = s.data
  count : s'.count = s.count
  file : s'.file = s.file

theorem Looks.trans {s s' s'' : Handler V} (h : Looks s s') (h' : Looks s' s'') : Looks s s'' :=
  ⟨h'.data.trans h.data, h'.count.trans h.count, h'.file.trans h.file⟩

namespace Handler

variable {s s' : Handler V} {fits : Frame V → Bool} {is : List Nat}

theorem search_looks : Looks s (search fits is s).2 := by
  induction is generalizing s with
  | nil => exact ⟨rfl, rfl, rfl⟩
  | cons i is ih =>
    have hread : Looks s (s.frame i).2 := ⟨rfl, rfl, rfl⟩
    simp only [search]
    split
    · exact hread
    · exact hread.trans ih

theorem search_fst : (search fits is s).1 = is.find? fun i => fits (s.data i) := by
  induction is generalizing s with
  | nil => rfl
  | cons i is ih =>
    simp only [search, List.find?_cons]
    cases hfits : fits (s.data i) with
    | true => rw [if_pos (show fits (s.frame i).1 = true from hfits)]
    | false =>
      rw [if_neg (show ¬ fits (s.frame i).1 = true from Bool.eq_false_iff.mp hfits)]
      exact ih

theorem isSkipping_of_looks (h : Looks s s') : s'.isSkipping = s.isSkipping := by
  simp only [isSkipping, anyFrameSkipping, search_fst, h.data, h.count]

theorem findFrame_of_looks (h : Looks s s') (types : List BlockType) (num : Int) :
    (s'.findFrame types num).1 = (s.findFrame types num).1 := by
  simp only [findFrame, search_fst, h.data, h.count]

theorem skipTo_of_file {env : Env V} (h : s'.file = s.file) (openKw closeKw : String) (num : Int) :
    (s'.skipTo env openKw closeKw num).1 = (s.skipTo env openKw closeKw num).1 := by
  unfold skipTo
  rw [h]
  cases s.file with
  | none => rfl
  | some f =>
    dsimp only
    split <;> rfl

end Handler

open Handler

/-! ## What keeps the stack -/

section

variable {n : Int} {s s' : Handler V} {i : Nat} {env : Env V}

namespace Calm

theorem mono {m : Int} (h : Calm n s) (hnm : n ≤ m) : Calm m s :=
  ⟨h.nonneg, h.bounded.trans hnm, h.inStack, h.quiet, h.live⟩

theorem note {a : Access} (h : Calm n s) (hin : a.InStack) (ha : a ≠ .haltError) :
    Calm n (s.note a) := by
  refine ⟨h.nonneg, h.bounded, ?_, ?_, h.live⟩
  · intro b hb
    obtain hb | hb := List.mem_append.mp hb
    · exact h.inStack b hb
    · rw [List.mem_singleton.mp hb]
      exact hin
  · intro hb
    obtain hb | hb := List.mem_append.mp hb
    · exact h.quiet hb
    · exact ha (List.mem_singleton.mp hb).symm

theorem file (h : Calm n s) : Calm n (s.note .file) := by
  refine h.note trivial ?_
  intro ha
  cases ha

theorem frame (h : Calm n s) (hi : (i : Int) < s.count) : Calm n (s.frame i).2 := by
  refine h.note ⟨Int.natCast_nonneg i, hi⟩ ?_
  intro ha
  cases ha

theorem wrote (h : Calm n s) (f : Frame V) : Calm n (s.setFrame i f) := by
  have hset : Calm n { s with data := Function.update s.data i f } :=
    ⟨h.nonneg, h.bounded, h.inStack, h.quiet, h.live⟩
  refine hset.note trivial ?_
  intro ha
  cases ha

theorem search {fits : Frame V → Bool} {is : List Nat} (h : Calm n s)
    (his : ∀ i ∈ is, (i : Int) < s.count) : Calm n (search fits is s).2 := by
  induction is generalizing s with
  | nil => exact h
  | cons i is ih =>
    have hread := h.frame (his i (List.mem_cons_self ..))
    simp only [Handler.search]
    split
    · exact hread
    · exact ih hread fun j hj => his j (List.mem_cons_of_mem _ hj)

theorem lt_count (h : Calm n s) (hi : i ∈ List.range s.count.toNat) : (i : Int) < s.count := by
  have hlt := List.mem_range.mp hi
  have hnonneg := h.nonneg
  omega

theorem anyFrameSkipping {skipping : Bool} (h : Calm n s)
    (heq : s.anyFrameSkipping = (skipping, s')) :
    Calm n s' ∧ Looks s s' ∧ skipping = s.isSkipping := by
  have hs' : s' = (Handler.search (fun f => !f.executing) (List.range s.count.toNat) s).2 :=
    (congrArg Prod.snd heq).symm
  refine ⟨?_, ?_, (congrArg Prod.fst heq).symm⟩
  · rw [hs']
    exact h.search fun i hi => h.lt_count hi
  · rw [hs']
    exact search_looks

/-- From the top down. -/
theorem searchDown {fits : Frame V → Bool} {found : Option Nat} (h : Calm n s)
    (heq : Handler.search fits (List.range s.count.toNat).reverse s = (found, s')) :
    Calm n s' ∧ Looks s s' ∧ ∀ i, found = some i → (i : Int) < s.count := by
  have hs' := (congrArg Prod.snd heq).symm
  have hfound := (congrArg Prod.fst heq).symm
  dsimp only at hs' hfound
  rw [hs', hfound]
  refine ⟨h.search fun i hi => h.lt_count (List.mem_reverse.mp hi), search_looks, ?_⟩
  intro i hi
  rw [search_fst] at hi
  exact h.lt_count (List.mem_reverse.mp (List.mem_of_find?_eq_some hi))

theorem findFrame {types : List BlockType} {num : Int} {found : Option Nat} (h : Calm n s)
    (heq : s.findFrame types num = (found, s')) :
    Calm n s' ∧ Looks s s' ∧ ∀ i, found = some i → (i : Int) < s.count :=
  h.searchDown heq

theorem onHalt (h : Calm n s) : Calm n s.onHalt := by
  unfold Handler.onHalt
  split
  · exact ⟨le_rfl, h.nonneg.trans h.bounded, h.inStack, h.quiet, fun _ => rfl⟩
  · exact h

theorem evalExpr (h : Calm n s) (k : Nat) (expr : List Char) :
    Calm n (s.evalExpr env k expr).2 := by
  unfold Handler.evalExpr
  dsimp only
  split
  · exact h.onHalt
  · exact h

theorem tell (h : Calm n s) : Calm n (s.tell env).2 := h.file

theorem seek (h : Calm n s) (pos : Int) : Calm n (s.seek pos) := by
  refine Calm.file ⟨h.nonneg, h.bounded, h.inStack, h.quiet, ?_⟩
  intro hnone
  exact h.live (Option.map_eq_none_iff.mp hnone)

theorem goBack (h : Calm n s) (f : Frame V) : Calm n (s.goBack f) := by
  have hline : Calm n { s with fileLine := f.jumpLine - 1 } :=
    ⟨h.nonneg, h.bounded, h.inStack, h.quiet, h.live⟩
  exact hline.seek f.loopOffset

theorem skipTo (h : Calm n s) (openKw closeKw : String) (num : Int) :
    Calm n (s.skipTo env openKw closeKw num).2 := by
  unfold Handler.skipTo
  split
  · exact h.file
  · split
    · exact h.onHalt.file
    · exact Calm.file ⟨h.nonneg, h.bounded, h.inStack, h.quiet,
        fun hnone => absurd hnone (Option.some_ne_none _)⟩

theorem skipLines (h : Calm n s) (r : ScanResult) : Calm n (s.skipLines r) :=
  ⟨h.nonneg, h.bounded, h.inStack, h.quiet, h.live⟩

theorem preScan (h : Calm n s) : Calm n (s.preScan env) := by
  unfold Handler.preScan
  split
  · exact ⟨h.nonneg, h.bounded, h.inStack, h.quiet, h.live⟩
  · split
    · exact Calm.file ⟨h.onHalt.nonneg, h.onHalt.bounded, h.onHalt.inStack, h.onHalt.quiet,
        h.onHalt.live⟩
    · exact Calm.file ⟨h.nonneg, h.bounded, h.inStack, h.quiet, h.live⟩

/-- Without a file there is no frame to keep. -/
theorem resize (h : Calm n s) {k : Nat} (hk : (k : Int) ≤ s.count) : Calm n (s.resize k) := by
  refine ⟨Int.natCast_nonneg k, hk.trans h.bounded, h.inStack, h.quiet, ?_⟩
  intro hnone
  have hzero := h.live hnone
  show (k : Int) = 0
  omega

theorem erase (h : Calm n s) (hi : (i : Int) < s.count) : Calm n (s.erase i) := by
  have hnonneg := h.nonneg
  have hbounded := h.bounded
  have herased : Calm n { s with
      data := fun k => if i ≤ k ∧ (k : Int) + 1 < s.count then s.data (k + 1) else s.data k
      count := s.count - 1 } := by
    refine ⟨?_, ?_, h.inStack, h.quiet, ?_⟩
    · show 0 ≤ s.count - 1
      omega
    · show s.count - 1 ≤ n
      omega
    · intro hnone
      have hzero := h.live hnone
      omega
  refine herased.note ⟨Int.natCast_nonneg i, hi⟩ ?_
  intro ha
  cases ha

/-- A call that ends without an error. -/
theorem disciplined (h : Calm ocodeMaxStackDepth s) : Disciplined s := by
  refine ⟨h.nonneg, h.bounded, h.inStack, fun hhalt => absurd hhalt h.quiet, ?_⟩
  intro before after hlog
  apply absurd _ h.quiet
  rw [hlog]
  exact List.mem_append_right _ (List.mem_cons_self ..)

/-- A push below the maximum depth. -/
theorem pushBack (h : Calm (ocodeMaxStackDepth - 1) s) (f : Frame V) :
    Disciplined (s.pushBack f) := by
  have hnonneg := h.nonneg
  have hbounded := h.bounded
  refine ⟨?_, ?_, h.inStack, fun hhalt => absurd hhalt h.quiet, ?_⟩
  · show 0 ≤ s.count + 1
    omega
  · show s.count + 1 ≤ ocodeMaxStackDepth
    omega
  · intro before after hlog
    apply absurd _ h.quiet
    rw [show s.log = _ from hlog]
    exact List.mem_append_right _ (List.mem_cons_self ..)

/-- An error ends what may be done. -/
theorem haltError (h : Calm n s) : Disciplined s.haltError := by
  have hhalt := h.onHalt
  have hclosed : s.onHalt.count = 0 ∧ s.onHalt.file = none := by
    unfold Handler.onHalt
    split
    · exact ⟨rfl, rfl⟩
    · rename_i hnone
      have hfile := Option.not_isSome_iff_eq_none.mp hnone
      exact ⟨h.live hfile, hfile⟩
  refine ⟨hclosed.1.ge, hclosed.1.le.trans (Int.natCast_nonneg _), ?_, fun _ => hclosed, ?_⟩
  · intro a ha
    obtain ha | ha := List.mem_append.mp ha
    · exact hhalt.inStack a ha
    · rw [List.mem_singleton.mp ha]
      trivial
  · -- the error is the last that is noted
    intro before after hlog
    obtain rfl | ⟨later, a, rfl⟩ := List.eq_nil_or_concat' after
    · exact List.not_mem_nil
    · have hlog' : s.onHalt.log ++ [.haltError] = (before ++ .haltError :: later) ++ [a] := by
        rw [List.append_assoc, List.cons_append]
        exact hlog
      have hlast : s.onHalt.log = before ++ .haltError :: later := List.append_inj_left' hlog' rfl
      apply absurd _ hhalt.quiet
      rw [hlast]
      exact List.mem_append_right _ (List.mem_cons_self ..)

theorem labelError (h : Calm ocodeMaxStackDepth s) : Disciplined s.labelError := by
  unfold Handler.labelError
  split
  · exact h.disciplined
  · exact h.haltError

theorem skipBlock (h : Calm ocodeMaxStackDepth s) (openKw closeKw : String) (num : Int) :
    Disciplined (s.skipBlock env openKw closeKw num).2 := by
  have hscan := @skipTo _ _ _ env h openKw closeKw num
  simp only [Handler.skipBlock]
  split
  · have hhalt := hscan.haltError
    exact ⟨hhalt.nonneg, hhalt.bounded, hhalt.inStack, hhalt.halted, hhalt.noFile⟩
  · exact (hscan.skipLines _).disciplined

theorem tolerant (h : Calm n s) (b : Bool) : Calm n { s with tolerantAfterJump := b } :=
  ⟨h.nonneg, h.bounded, h.inStack, h.quiet, h.live⟩

theorem bindArgs (h : Calm n s) (k p : Nat) (rp : List Char) : Calm n (bindArgs env k p rp s) := by
  induction k generalizing s p rp with
  | zero => exact h
  | succ k ih =>
    unfold Handler.bindArgs
    split
    · rename_i l _
      have hval : Calm n (s.evalExpr env p ('[' :: l)).2 := h.evalExpr p _
      apply ih
      exact ⟨hval.nonneg, hval.bounded, hval.inStack, hval.quiet, hval.live⟩
    · exact h

end Calm

/-! ## The keywords that always keep to it -/

/-- Below the maximum depth. -/
theorem Calm.below (h : Calm ocodeMaxStackDepth s) (hdepth : ¬ s.count ≥ ocodeMaxStackDepth) :
    Calm (ocodeMaxStackDepth - 1) s := by
  refine ⟨h.nonneg, ?_, h.inStack, h.quiet, h.live⟩
  omega

variable (num : Int) (rest line : List Char)

theorem disciplined_doSub (h : Calm ocodeMaxStackDepth s) : Disciplined (s.doSub env num) := by
  unfold doSub
  rcases hskip : s.anyFrameSkipping with ⟨skipping, s₁⟩
  obtain ⟨h₁, -, -⟩ := h.anyFrameSkipping hskip
  dsimp only
  split
  · exact h₁.disciplined
  · exact h₁.skipBlock _ _ _

theorem disciplined_doReturn (h : Calm ocodeMaxStackDepth s) : Disciplined s.doReturn := by
  unfold doReturn
  rcases hskip : s.anyFrameSkipping with ⟨skipping, s₁⟩
  obtain ⟨h₁, -, -⟩ := h.anyFrameSkipping hskip
  dsimp only
  split
  · exact h₁.disciplined
  split
  · rename_i s₂ hfind
    exact (h₁.searchDown hfind).1.disciplined
  · rename_i i s₂ hfind
    obtain ⟨h₂, hlooks, hlt⟩ := h₁.searchDown hfind
    have hi : (i : Int) < s₂.count := hlooks.count ▸ hlt i rfl
    have h₃ := (h₂.frame hi).resize hi.le
    refine Calm.disciplined (Calm.seek ?_ _)
    exact ⟨h₃.nonneg, h₃.bounded, h₃.inStack, h₃.quiet, h₃.live⟩

theorem disciplined_enterSub (h : Calm (ocodeMaxStackDepth - 1) s) (entry : SubEntry) :
    Disciplined (s.enterSub env num rest entry) := by
  have hargs : Calm (ocodeMaxStackDepth - 1) (bindArgs env 30 0 rest (s.tell env).2) :=
    (h.tell).bindArgs 30 0 rest
  have hline : Calm (ocodeMaxStackDepth - 1)
      { bindArgs env 30 0 rest (s.tell env).2 with
        tolerantAfterJump := false, fileLine := UInt32.ofNat entry.line - 1 } :=
    ⟨hargs.nonneg, hargs.bounded, hargs.inStack, hargs.quiet, hargs.live⟩
  -- the push and the seek do not touch the same fields
  exact (hline.seek entry.offset).pushBack _

theorem disciplined_doCall (h : Calm ocodeMaxStackDepth s) :
    Disciplined (s.doCall env num rest) := by
  unfold doCall
  rcases hskip : s.anyFrameSkipping with ⟨skipping, s₁⟩
  obtain ⟨h₁, -, -⟩ := h.anyFrameSkipping hskip
  dsimp only
  split
  · exact h₁.disciplined
  split
  · exact h₁.haltError
  rename_i hdepth
  have hscanned : Calm (ocodeMaxStackDepth - 1) (if s₁.preScanned then s₁ else s₁.preScan env) := by
    split
    · exact h₁.below hdepth
    · exact (h₁.below hdepth).preScan
  generalize (if s₁.preScanned = true then s₁ else s₁.preScan env) = scanned at hscanned ⊢
  split
  · exact hscanned.haltError
  split
  · exact hscanned.haltError
  · exact disciplined_enterSub num rest hscanned _

theorem disciplined_doIf (h : Calm ocodeMaxStackDepth s) : Disciplined (s.doIf env num rest) := by
  unfold doIf
  split
  · exact h.haltError
  rename_i hdepth
  rcases hskip : s.anyFrameSkipping with ⟨skipping, s₁⟩
  obtain ⟨h₁, -, -⟩ := (h.below hdepth).anyFrameSkipping hskip
  dsimp only
  split
  · exact (h₁.tolerant false).pushBack _
  · exact ((h₁.evalExpr 0 rest).tolerant false).pushBack _

theorem disciplined_doElseif (h : Calm ocodeMaxStackDepth s) :
    Disciplined (s.doElseif env num rest) := by
  unfold doElseif
  split
  · rename_i s₁ hfind
    exact (h.findFrame hfind).1.labelError
  · rename_i i s₁ hfind
    obtain ⟨h₁, hlooks, hlt⟩ := h.findFrame hfind
    have h₂ := h₁.frame (hlooks.count ▸ hlt i rfl)
    dsimp only
    split
    · exact (h₂.wrote _).disciplined
    · exact ((h₂.evalExpr 0 rest).wrote _).disciplined

theorem disciplined_doElse (h : Calm ocodeMaxStackDepth s) : Disciplined (s.doElse num) := by
  unfold doElse
  split
  · rename_i s₁ hfind
    exact (h.findFrame hfind).1.labelError
  · rename_i i s₁ hfind
    obtain ⟨h₁, hlooks, hlt⟩ := h.findFrame hfind
    have h₂ := h₁.frame (hlooks.count ▸ hlt i rfl)
    exact (h₂.wrote _).disciplined

theorem disciplined_doEndif (h : Calm ocodeMaxStackDepth s) : Disciplined (s.doEndif num) := by
  unfold doEndif
  split
  · rename_i s₁ hfind
    exact (h.findFrame hfind).1.labelError
  · rename_i i s₁ hfind
    obtain ⟨h₁, hlooks, hlt⟩ := h.findFrame hfind
    exact (h₁.erase (hlooks.count ▸ hlt i rfl)).disciplined

theorem disciplined_standaloneWhile (h : Calm ocodeMaxStackDepth s) :
    Disciplined (s.standaloneWhile env num rest line) := by
  unfold standaloneWhile
  split
  · exact h.haltError
  rename_i hdepth
  have htell : Calm (ocodeMaxStackDepth - 1) (s.tell env).2 := (h.below hdepth).tell
  dsimp only
  rcases hskip : (s.tell env).2.anyFrameSkipping with ⟨skipping, s₁⟩
  obtain ⟨h₁, -, -⟩ := htell.anyFrameSkipping hskip
  dsimp only
  split
  · exact (h₁.tolerant false).pushBack _
  split
  · exact ((h₁.evalExpr 0 rest).tolerant false).pushBack _
  · exact ((h₁.evalExpr 0 rest).mono (by decide)).skipBlock _ _ _

theorem disciplined_doEndwhile (h : Calm ocodeMaxStackDepth s) :
    Disciplined (s.doEndwhile num) := by
  unfold doEndwhile
  split
  · rename_i s₁ hfind
    exact (h.findFrame hfind).1.labelError
  · rename_i i s₁ hfind
    obtain ⟨h₁, hlooks, hlt⟩ := h.findFrame hfind
    rcases hskip : s₁.anyFrameSkipping with ⟨skipping, s₂⟩
    obtain ⟨h₂, hlooks₂, -⟩ := h₁.anyFrameSkipping hskip
    have hi : (i : Int) < s₂.count := (hlooks.trans hlooks₂).count ▸ hlt i rfl
    dsimp only
    split
    · exact (h₂.erase hi).disciplined
    · exact (((h₂.frame hi).goBack _).erase hi).disciplined

theorem disciplined_doDo (h : Calm ocodeMaxStackDepth s) : Disciplined (s.doDo env num) := by
  unfold doDo
  split
  · exact h.haltError
  rename_i hdepth
  have htell : Calm (ocodeMaxStackDepth - 1) (s.tell env).2 := (h.below hdepth).tell
  dsimp only
  rcases hskip : (s.tell env).2.anyFrameSkipping with ⟨skipping, s₁⟩
  obtain ⟨h₁, -, -⟩ := htell.anyFrameSkipping hskip
  exact (h₁.tolerant false).pushBack _

theorem disciplined_doRepeat (h : Calm ocodeMaxStackDepth s) :
    Disciplined (s.doRepeat env num rest) := by
  unfold doRepeat
  split
  · exact h.haltError
  rename_i hdepth
  rcases hskip : s.anyFrameSkipping with ⟨skipping, s₁⟩
  obtain ⟨h₁, -, -⟩ := (h.below hdepth).anyFrameSkipping hskip
  dsimp only
  rcases hcount : (if skipping = true then ((0 : Int), s₁)
    else ((s₁.evalExpr env 0 rest).1.toInt, (s₁.evalExpr env 0 rest).2)) with ⟨count, s₂⟩
  have h₂ : Calm (ocodeMaxStackDepth - 1) s₂ := by
    split at hcount
    · exact (Prod.mk.inj hcount).2 ▸ h₁
    · exact (Prod.mk.inj hcount).2 ▸ h₁.evalExpr 0 rest
  have htell : Calm (ocodeMaxStackDepth - 1) (s₂.tell env).2 := h₂.tell
  dsimp only
  rcases hagain : (s₂.tell env).2.anyFrameSkipping with ⟨again, s₃⟩
  obtain ⟨h₃, -, -⟩ := htell.anyFrameSkipping hagain
  dsimp only
  split
  · exact (h₃.tolerant false).pushBack _
  · exact (h₃.mono (by decide)).skipBlock _ _ _

theorem disciplined_doEndrepeat (h : Calm ocodeMaxStackDepth s) :
    Disciplined (s.doEndrepeat num) := by
  unfold doEndrepeat
  split
  · rename_i s₁ hfind
    exact (h.findFrame hfind).1.labelError
  · rename_i i s₁ hfind
    obtain ⟨h₁, hlooks, hlt⟩ := h.findFrame hfind
    rcases hskip : s₁.anyFrameSkipping with ⟨skipping, s₂⟩
    obtain ⟨h₂, hlooks₂, -⟩ := h₁.anyFrameSkipping hskip
    have hi : (i : Int) < s₂.count := (hlooks.trans hlooks₂).count ▸ hlt i rfl
    dsimp only
    split
    · exact (h₂.erase hi).disciplined
    split
    · exact (((h₂.frame hi).wrote _).goBack _).disciplined
    · exact (((h₂.frame hi).wrote _).erase hi).disciplined

theorem disciplined_doBreak (h : Calm ocodeMaxStackDepth s) : Disciplined (s.doBreak env num) := by
  unfold doBreak
  rcases hskip : s.anyFrameSkipping with ⟨skipping, s₁⟩
  obtain ⟨h₁, -, -⟩ := h.anyFrameSkipping hskip
  dsimp only
  split
  · exact h₁.disciplined
  split
  · rename_i s₂ hfind
    exact (h₁.findFrame hfind).1.labelError
  · rename_i i s₂ hfind
    obtain ⟨h₂, hlooks, hlt⟩ := h₁.findFrame hfind
    have hi : (i : Int) < s₂.count := hlooks.count ▸ hlt i rfl
    have h₃ := (h₂.frame hi).resize hi.le
    split
    · exact h₃.skipBlock _ _ _
    · exact h₃.skipBlock _ _ _
    · exact h₃.skipBlock _ _ _

/-! ## The keywords that go wrong -/

/-- A frame is removed as it should be exactly if it is still there. -/
theorem disciplined_erase_iff (h : Calm ocodeMaxStackDepth s) :
    Disciplined (s.erase i) ↔ (i : Int) < s.count := by
  constructor
  · intro hdisc
    have hin := hdisc.inStack (.removed i s.count)
      (List.mem_append_right _ (List.mem_singleton_self _))
    exact hin.2
  · intro hi
    exact (h.erase hi).disciplined

theorem disciplined_frame_goBack_iff (h : Calm ocodeMaxStackDepth s) (f : Frame V) :
    Disciplined ((s.frame i).2.goBack f) ↔ (i : Int) < s.count := by
  constructor
  · intro hdisc
    have hin := hdisc.inStack (.read i s.count)
      (List.mem_append_left _ (List.mem_append_right _ (List.mem_singleton_self _)))
    exact hin.2
  · intro hi
    exact ((h.frame hi).goBack f).disciplined

/-- An expression that halts leaves no frame. -/
theorem evalExpr_count (env : Env V) (h : Calm n s) (k : Nat) (expr : List Char) :
    (s.evalExpr env k expr).2.count = if (env.eval k expr).halts then 0 else s.count := by
  simp only [evalExpr]
  split
  · unfold onHalt
    split
    · rfl
    · rename_i hnone
      exact h.live (Option.not_isSome_iff_eq_none.mp hnone)
  · rfl

/-- A halt while the file is scanned leaves no frame. -/
theorem skipTo_count (env : Env V) (hfile : s.file ≠ none) (openKw closeKw : String) (num : Int) :
    (s.skipTo env openKw closeKw num).2.count = if env.idleHalts then 0 else s.count := by
  obtain ⟨f, hf⟩ := Option.ne_none_iff_exists'.mp hfile
  unfold skipTo
  rw [hf]
  dsimp only
  split
  · show s.onHalt.count = 0
    unfold onHalt
    rw [hf]
    rfl
  · rfl

/-- What a `while` depends on that ends a `do`: the evaluation of its condition does not halt. -/
def Handler.SlipsWhile (env : Env V) (num : Int) (rest : List Char) (s : Handler V) : Prop :=
  (s.findFrame [.DO] num).1.isSome ∧ s.isSkipping = false ∧ (env.eval 0 rest).halts = true

/-- The end of a `do` is not found, or a halt comes on the way there or with a condition that ends
the loop. -/
def Handler.SlipsDo (env : Env V) (num : Int) (s : Handler V) : Prop :=
  let condition := (s.skipTo env "do" "while" num).1.matchedRest
  condition = none ∨
    (env.idleHalts = true ∨ (env.eval 0 (condition.getD [])).halts = true) ∧
      (env.eval 0 (condition.getD [])).nonzero = false

/-- A halt comes on the way to the end of a `repeat` that is done. -/
def SlipsRepeat (env : Env V) (f : Frame V) : Prop := f.repeatCount - 1 ≤ 0 ∧ env.idleHalts = true

def Handler.SlipsContinue (env : Env V) (num : Int) (s : Handler V) : Prop :=
  s.isSkipping = false ∧ ∃ i, (s.findLoopFrame num).1 = some i ∧
    match (s.data i).type with
    | .WHILE => False
    | .DO => s.SlipsDo env num
    | _ => SlipsRepeat env (s.data i)

theorem disciplined_doWhile_iff (h : Calm ocodeMaxStackDepth s) :
    Disciplined (s.doWhile env num rest line) ↔ ¬ s.SlipsWhile env num rest := by
  unfold doWhile SlipsWhile
  rcases hfind : s.findFrame [.DO] num with ⟨_ | i, s₁⟩
  · exact iff_of_true (disciplined_standaloneWhile num rest line (h.findFrame hfind).1)
      fun hslips => Bool.false_ne_true hslips.1
  obtain ⟨h₁, hlooks, hlt⟩ := h.findFrame hfind
  dsimp only
  rcases hskip : s₁.anyFrameSkipping with ⟨skipping, s₂⟩
  obtain ⟨h₂, hlooks₂, hskipping⟩ := h₁.anyFrameSkipping hskip
  have hi : (i : Int) < s₂.count := (hlooks.trans hlooks₂).count ▸ hlt i rfl
  rw [isSkipping_of_looks hlooks] at hskipping
  dsimp only
  rw [← hskipping]
  cases skipping with
  | true => exact iff_of_true (h₂.erase hi).disciplined fun hslips => Bool.noConfusion hslips.2.1
  | false =>
    have h₃ : Calm ocodeMaxStackDepth (s₂.evalExpr env 0 rest).2 := h₂.evalExpr 0 rest
    have hcount := evalExpr_count env h₂ 0 rest
    -- the frame is still there unless the condition halts the machine, which empties the stack
    have hstill : (i : Int) < (s₂.evalExpr env 0 rest).2.count ↔
        ¬ (env.eval 0 rest).halts = true := by
      rw [hcount]
      split
      · rename_i hhalts
        exact iff_of_false (by omega) (not_not_intro hhalts)
      · rename_i hruns
        exact iff_of_true hi hruns
    have hslips : (¬ ((some i).isSome = true ∧ false = false ∧ (env.eval 0 rest).halts = true)) ↔
        ¬ (env.eval 0 rest).halts = true := by simp
    rw [hslips, ← hstill, if_neg Bool.false_ne_true]
    split
    · exact disciplined_frame_goBack_iff h₃ _
    · exact disciplined_erase_iff h₃

/-- Once an error has emptied the stack, `continue` has nothing left to do. -/
theorem not_disciplined_after_halt {f : Frame V} (b : Bool) (hcount : s.count = 0)
    (hhalt : .haltError ∈ s.log) : ¬ Disciplined (if b then s.goBack f else s.erase i) := by
  intro hdisc
  cases b with
  | true =>
    obtain ⟨before, after, hlog⟩ := List.append_of_mem hhalt
    have hnot := hdisc.noFile before (after ++ [.file]) (by
      show s.log ++ [.file] = _
      rw [hlog, List.append_assoc, List.cons_append])
    exact hnot (List.mem_append_right _ (List.mem_singleton_self _))
  | false =>
    have hnonneg : 0 ≤ s.count - 1 := hdisc.nonneg
    omega

theorem disciplined_continueDo_iff (h : Calm ocodeMaxStackDepth s) (hi : (i : Int) < s.count)
    (f : Frame V) : Disciplined (s.continueDo env num i f) ↔ ¬ s.SlipsDo env num := by
  have hfile : (s.resize (i + 1)).file ≠ none := by
    intro hnone
    have hzero := h.live hnone
    omega
  have hscan : Calm ocodeMaxStackDepth ((s.resize (i + 1)).skipTo env "do" "while" num).2 :=
    (h.resize (by omega)).skipTo _ _ _
  have hcount := skipTo_count env hfile "do" "while" num
  have hsame : ((s.resize (i + 1)).skipTo env "do" "while" num).1 =
      (s.skipTo env "do" "while" num).1 := by
    apply skipTo_of_file
    rfl
  unfold continueDo skipBlock SlipsDo
  rw [← hsame]
  rcases hs : (s.resize (i + 1)).skipTo env "do" "while" num with ⟨r, t⟩
  rw [hs] at hscan hcount
  dsimp only at hscan hcount ⊢
  cases hfound : r.matchedRest with
  | none =>
    -- the error has emptied the stack, whatever the empty condition gives
    have hmem : Access.haltError ∈ t.haltError.log :=
      List.mem_append_right _ (List.mem_singleton_self _)
    have hempty := hscan.haltError.halted hmem
    have hclosed : (t.haltError.skipLines r).onHalt = t.haltError.skipLines r := by
      unfold onHalt
      rw [if_neg]
      rw [show (t.haltError.skipLines r).file = none from hempty.2]
      exact Bool.false_ne_true
    have heval : ((t.haltError.skipLines r).evalExpr env 0 []).2 = t.haltError.skipLines r := by
      simp only [evalExpr, hclosed, ite_self]
    refine iff_of_false ?_ (not_not_intro (.inl rfl))
    show ¬ Disciplined (if (env.eval 0 []).nonzero = true then
      ((t.haltError.skipLines r).evalExpr env 0 []).2.goBack f
      else ((t.haltError.skipLines r).evalExpr env 0 []).2.erase i)
    rw [heval]
    exact not_disciplined_after_halt _ hempty.1 hmem
  | some condition =>
    have hlines := hscan.skipLines r
    have heval : Calm ocodeMaxStackDepth ((t.skipLines r).evalExpr env 0 condition).2 :=
      hlines.evalExpr 0 condition
    have hleft := evalExpr_count env hlines 0 condition
    rw [show (t.skipLines r).count = _ from hcount] at hleft
    show Disciplined (if (env.eval 0 condition).nonzero = true then
      ((t.skipLines r).evalExpr env 0 condition).2.goBack f
      else ((t.skipLines r).evalExpr env 0 condition).2.erase i) ↔ _
    simp only [Option.getD_some, reduceCtorEq, false_or]
    cases hvalue : (env.eval 0 condition).nonzero with
    | true => exact iff_of_true (heval.goBack f).disciplined fun hslips => Bool.noConfusion hslips.2
    | false =>
      rw [if_neg Bool.false_ne_true, disciplined_erase_iff heval, hleft]
      simp only [and_true, not_or]
      have hresized : (s.resize (i + 1)).count = i + 1 := by
        exact Nat.cast_succ i
      rw [hresized]
      split_ifs <;> simp_all

theorem disciplined_continueRepeat_iff (h : Calm ocodeMaxStackDepth s) (hi : (i : Int) < s.count)
    (f : Frame V) : Disciplined (s.continueRepeat env num i f) ↔ ¬ SlipsRepeat env f := by
  have hfile : s.file ≠ none := by
    intro hnone
    have hzero := h.live hnone
    omega
  -- The frame is written back before the end is looked for; a halt on the way there empties the
  -- stack.
  have hwrote : Calm ocodeMaxStackDepth
      ((s.resize (i + 1)).setFrame i { f with repeatCount := f.repeatCount - 1 }) :=
    (h.resize (by omega)).wrote _
  have hscan : Calm ocodeMaxStackDepth
      (((s.resize (i + 1)).setFrame i { f with repeatCount := f.repeatCount - 1 }).skipTo env
        "repeat" "endrepeat" num).2 := hwrote.skipTo _ _ _
  have hcount := @skipTo_count V
    ((s.resize (i + 1)).setFrame i { f with repeatCount := f.repeatCount - 1 }) env hfile
    "repeat" "endrepeat" num
  unfold continueRepeat SlipsRepeat
  dsimp only
  split
  · rename_i hmore
    exact iff_of_true (hwrote.goBack _).disciplined fun hslips => by omega
  · rename_i hdone
    rw [disciplined_erase_iff (hscan.skipLines _)]
    have hleft : (((s.resize (i + 1)).setFrame i { f with
        repeatCount := f.repeatCount - 1 }).skipTo env "repeat" "endrepeat" num).2.count =
        if env.idleHalts = true then 0 else (i : Int) + 1 := by
      rw [hcount]
      rfl
    show (i : Int) < (((s.resize (i + 1)).setFrame i { f with
      repeatCount := f.repeatCount - 1 }).skipTo env "repeat" "endrepeat" num).2.count ↔ _
    rw [hleft]
    split
    · rename_i hhalts
      exact iff_of_false (by omega) (not_not_intro ⟨by omega, hhalts⟩)
    · rename_i hruns
      exact iff_of_true (by omega) fun hslips => hruns hslips.2

theorem slipsDo_of_file (hfile : s'.file = s.file) :
    s'.SlipsDo env num ↔ s.SlipsDo env num := by
  unfold SlipsDo
  rw [skipTo_of_file hfile]

theorem disciplined_doContinue_iff (h : Calm ocodeMaxStackDepth s) :
    Disciplined (s.doContinue env num) ↔ ¬ s.SlipsContinue env num := by
  unfold doContinue SlipsContinue
  rcases hskip : s.anyFrameSkipping with ⟨skipping, s₁⟩
  obtain ⟨h₁, hlooks, hskipping⟩ := h.anyFrameSkipping hskip
  dsimp only
  rw [← hskipping]
  cases skipping with
  | true => exact iff_of_true h₁.disciplined fun hslips => Bool.noConfusion hslips.1
  | false =>
    rw [if_neg Bool.false_ne_true]
    have hsame : (s.findLoopFrame num).1 = (s₁.findLoopFrame num).1 :=
      (findFrame_of_looks hlooks _ _).symm
    rw [hsame]
    rcases hfind : s₁.findLoopFrame num with ⟨_ | i, s₂⟩
    · refine iff_of_true (h₁.findFrame hfind).1.labelError ?_
      rintro ⟨-, i, hi, -⟩
      cases hi
    · obtain ⟨h₂, hlooks₂, hlt⟩ := h₁.findFrame hfind
      have hi : (i : Int) < s₂.count := hlooks₂.count ▸ hlt i rfl
      have hread := h₂.frame hi
      have hdata : s₂.data = s.data := (hlooks.trans hlooks₂).data
      have hfile : (s₂.frame i).2.file = s.file := (hlooks.trans hlooks₂).file
      rw [← slipsDo_of_file num hfile, ← hdata]
      simp only [Option.some.injEq, true_and, exists_eq_left']
      show Disciplined (match (s₂.data i).type with
        | .WHILE => ((s₂.frame i).2.resize i).goBack (s₂.data i)
        | .DO => (s₂.frame i).2.continueDo env num i (s₂.data i)
        | _ => (s₂.frame i).2.continueRepeat env num i (s₂.data i)) ↔ _
      -- By the loop of the frame: `while` goes back, `do` looks at its condition, `repeat` counts.
      cases htype : (s₂.data i).type with
      | WHILE => exact iff_of_true ((hread.resize hi.le).goBack _).disciplined not_false
      | DO => exact disciplined_continueDo_iff num hread hi _
      | IF => exact disciplined_continueRepeat_iff num hread hi _
      | REPEAT => exact disciplined_continueRepeat_iff num hread hi _
      | SUB => exact disciplined_continueRepeat_iff num hread hi _

end

/-! ## Calls and runs -/

/-- The lines at which a call goes wrong. -/
def Handler.Slips (env : Env V) (line : List Char) (s : Handler V) : Prop :=
  ∃ o, parseOcode line = some o ∧
    (o.keyword = "while" ∧ s.SlipsWhile env o.num o.rest ∨
      o.keyword = "continue" ∧ s.SlipsContinue env o.num)

theorem disciplined_processLine_iff {s : Handler V} (h : Calm ocodeMaxStackDepth s) (env : Env V)
    (line : List Char) : Disciplined (s.processLine env line) ↔ ¬ s.Slips env line := by
  unfold processLine Slips
  cases hparse : parseOcode line with
  | none => exact iff_of_true h.disciplined (by simp)
  | some o =>
    -- Only `while` and `continue` have a slip; for every other keyword the right side is empty.
    have hother {keyword : String} (hkey : o.keyword = keyword) (hwhile : keyword ≠ "while")
        (hcontinue : keyword ≠ "continue") :
        ¬ ∃ o', some o = some o' ∧ (o'.keyword = "while" ∧ s.SlipsWhile env o'.num o'.rest ∨
          o'.keyword = "continue" ∧ s.SlipsContinue env o'.num) := by
      rintro ⟨o', ho, hslips⟩
      cases ho
      obtain hslips | hslips := hslips
      · exact hwhile (hkey.symm.trans hslips.1)
      · exact hcontinue (hkey.symm.trans hslips.1)
    dsimp only
    split
    case h_1 hkey =>
      exact iff_of_true (disciplined_doSub o.num h) (hother hkey (by decide) (by decide))
    case h_2 hkey => exact iff_of_true (disciplined_doReturn h) (hother hkey (by decide) (by decide))
    case h_3 hkey => exact iff_of_true (disciplined_doReturn h) (hother hkey (by decide) (by decide))
    case h_4 hkey =>
      exact iff_of_true (disciplined_doCall o.num o.rest h) (hother hkey (by decide) (by decide))
    case h_5 hkey =>
      exact iff_of_true (disciplined_doIf o.num o.rest h) (hother hkey (by decide) (by decide))
    case h_6 hkey =>
      exact iff_of_true (disciplined_doElseif o.num o.rest h) (hother hkey (by decide) (by decide))
    case h_7 hkey =>
      exact iff_of_true (disciplined_doElse o.num h) (hother hkey (by decide) (by decide))
    case h_8 hkey =>
      exact iff_of_true (disciplined_doEndif o.num h) (hother hkey (by decide) (by decide))
    case h_9 hkey =>
      rw [disciplined_doWhile_iff o.num o.rest line h]
      simp [hkey]
    case h_10 hkey =>
      exact iff_of_true (disciplined_doEndwhile o.num h) (hother hkey (by decide) (by decide))
    case h_11 hkey =>
      exact iff_of_true (disciplined_doDo o.num h) (hother hkey (by decide) (by decide))
    case h_12 hkey =>
      exact iff_of_true (disciplined_doRepeat o.num o.rest h) (hother hkey (by decide) (by decide))
    case h_13 hkey =>
      exact iff_of_true (disciplined_doEndrepeat o.num h) (hother hkey (by decide) (by decide))
    case h_14 hkey =>
      exact iff_of_true (disciplined_doBreak o.num h) (hother hkey (by decide) (by decide))
    case h_15 hkey =>
      rw [disciplined_doContinue_iff o.num h]
      simp [hkey]
    case h_16 hwhile _ _ _ _ _ hcontinue =>
      exact iff_of_true h.haltError (hother rfl hwhile hcontinue)

/-- The stack is as it should be, and so is the call of `process_line` if there is one. -/
def Handler.Obeys (s : Handler V) (e : JobEvent V) : Prop :=
  0 ≤ (s.step e).count ∧ (s.step e).count ≤ ocodeMaxStackDepth ∧
    ∀ text pos fileLine env, e = .line text pos fileLine env →
      ∀ t, s.called pos fileLine = some t → Disciplined (t.processLine env text)

def Handler.SlipsAt (s : Handler V) (e : JobEvent V) : Prop :=
  ∃ text pos fileLine env, e = .line text pos fileLine env ∧
    ∃ t, s.called pos fileLine = some t ∧ t.Slips env text

/-- No frame too many, and none too few. -/
def Handler.WithinDepth (s : Handler V) : Prop := 0 ≤ s.count ∧ s.count ≤ ocodeMaxStackDepth

theorem calm_called {s t : Handler V} {pos : Int} {fileLine : UInt32} (h : s.WithinDepth)
    (hcalled : s.called pos fileLine = some t) : Calm ocodeMaxStackDepth t := by
  obtain ⟨f, -, rfl⟩ := Option.map_eq_some_iff.mp hcalled
  exact ⟨h.1, h.2, fun _ ha => absurd ha List.not_mem_nil, List.not_mem_nil,
    fun hnone => absurd hnone (Option.some_ne_none _)⟩

theorem preScan_count {s : Handler V} (h : s.count = 0) (env : Env V) : (s.preScan env).count = 0 := by
  unfold preScan
  split
  · exact h
  · split
    · show s.onHalt.count = 0
      unfold onHalt
      split
      · rfl
      · exact h
    · exact h

/-- Other events leave no frame. -/
theorem step_count {s : Handler V} {e : JobEvent V}
    (hline : ∀ text pos fileLine env, e ≠ .line text pos fileLine env) :
    (s.step e).count = 0 ∨ (s.step e).count = s.count := by
  cases e with
  | play content prescan env =>
    left
    simp only [step]
    split
    · split
      · exact preScan_count rfl env
      · exact preScan_count rfl env
    · rfl
  | line text pos fileLine env => exact absurd rfl (hline text pos fileLine env)
  | jump env =>
    simp only [step]
    split
    · left
      unfold prepareJump
      dsimp only
      split
      · rfl
      · exact preScan_count rfl env
    · exact .inr rfl
  | stop => exact .inl rfl

theorem obeys_iff {s : Handler V} (h : s.WithinDepth) (e : JobEvent V) :
    s.Obeys e ↔ ¬ s.SlipsAt e := by
  -- Only a line of a job can slip; the other events empty the stack or leave it.
  by_cases hline : ∀ text pos fileLine env, e ≠ .line text pos fileLine env
  · refine iff_of_true ⟨?_, ?_, fun _ _ _ _ he => absurd he (hline _ _ _ _)⟩ ?_
    · obtain hcount | hcount := @step_count _ s e hline
      · exact hcount.ge
      · exact h.1.trans_eq hcount.symm
    · obtain hcount | hcount := @step_count _ s e hline
      · exact hcount.le.trans (Int.natCast_nonneg _)
      · exact hcount.le.trans h.2
    · rintro ⟨text, pos, fileLine, env, he, -⟩
      exact hline _ _ _ _ he
  · push Not at hline
    obtain ⟨text, pos, fileLine, env, rfl⟩ := hline
    unfold Obeys SlipsAt
    simp only [step]
    cases hcalled : s.called pos fileLine with
    | none =>
      refine iff_of_true ⟨h.1, h.2, ?_⟩ ?_
      · intro text' pos' fileLine' env' he t ht
        cases he
        cases hcalled.symm.trans ht
      · rintro ⟨text', pos', fileLine', env', he, t, ht, -⟩
        cases he
        cases hcalled.symm.trans ht
    | some t =>
      have hiff := disciplined_processLine_iff (calm_called h hcalled) env text
      constructor
      · rintro ⟨-, -, hdisc⟩ ⟨text', pos', fileLine', env', he, t', ht, hslips⟩
        cases he
        cases hcalled.symm.trans ht
        exact hiff.mp (hdisc _ _ _ _ rfl _ hcalled) hslips
      · intro hnot
        have hdisc : Disciplined (t.processLine env text) :=
          hiff.mpr fun hslips => hnot ⟨_, _, _, _, rfl, t, hcalled, hslips⟩
        refine ⟨hdisc.nonneg, hdisc.bounded, ?_⟩
        intro text' pos' fileLine' env' he t' ht
        cases he
        cases hcalled.symm.trans ht
        exact hdisc

/-- In a run of jobs, every call keeps to the stack and leaves nothing behind after an error exactly
if no call is one that goes wrong. -/
theorem stack_kept_iff (data : Nat → Frame V) (localParams : Nat → V) (events : List (JobEvent V)) :
    AllOk Handler.step Handler.Obeys { data := data, localParams := localParams } events ↔
      AllOk Handler.step (fun s e => ¬ s.SlipsAt e) { data := data, localParams := localParams }
        events := by
  refine @allOk_iff _ _ _ _ _ Handler.WithinDepth _ ⟨le_rfl, Int.natCast_nonneg _⟩
    (fun s e h => obeys_iff h e)
    ?_ events
  intro s e h hok
  have hobeys := (obeys_iff h e).mpr hok
  exact ⟨hobeys.1, hobeys.2.1⟩

/-- A `do` without an end: `continue` removes a frame of the stack that its error has emptied. -/
def endlessDo : List (JobEvent Unit) :=
  let env : Env Unit := ⟨fun _ _ => ⟨(), false, 0, none, true⟩, false, ⟨none, 0, 0⟩, 0⟩
  [.play "O1 do\nO1 continue\n".toList false env, .line "O1 do\n".toList 6 1 env,
    .line "O1 continue\n".toList 18 2 env]

theorem stack_not_kept :
    ¬ ∀ (events : List (JobEvent Unit)) (data : Nat → Frame Unit) (localParams : Nat → Unit),
      AllOk Handler.step Handler.Obeys { data := data, localParams := localParams } events := by
  intro h
  have hrun := h endlessDo (fun _ => ⟨0, .IF, 0, false, false, 0, none, 0, 0⟩) fun _ => ()
  have hnonneg := hrun.2.2.1.1
  revert hnonneg
  decide +kernel

end CarveraFirmware.Jobs.OCode
