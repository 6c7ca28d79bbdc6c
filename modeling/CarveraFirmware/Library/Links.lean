import Mathlib

/-!
# Linked lists in a memory

`Linked next l`: from each node of `l` the pointer `next` leads to the node after it. A list is read
from any of its nodes on, and one write redirects one pointer.
-/

namespace CarveraFirmware.Links

def Linked (next : Nat → Nat) (l : List Nat) : Prop := l.IsChain fun x y => next x = y

variable {next next' : Nat → Nat} {l before behind : List Nat} {x y : Nat}

theorem linked_split : Linked next (before ++ x :: behind) ↔
    Linked next (before ++ [x]) ∧ Linked next (x :: behind) :=
  List.isChain_split

theorem linked_cons_cons : Linked next (x :: y :: l) ↔ next x = y ∧ Linked next (y :: l) :=
  List.isChain_cons_cons

theorem linked_append_cons_cons : Linked next (before ++ x :: y :: behind) ↔
    Linked next (before ++ [x]) ∧ next x = y ∧ Linked next (y :: behind) :=
  List.isChain_append_cons_cons

/-- A list reads the pointers of its nodes but for the last. -/
theorem Linked.congr (h : Linked next (before ++ [x])) (hsame : ∀ y ∈ before, next' y = next y) :
    Linked next' (before ++ [x]) := by
  induction before with
  | nil => exact List.isChain_singleton x
  | cons a before ih =>
    have hih := ih (List.IsChain.tail h) fun y hy => hsame y (List.mem_cons_of_mem _ hy)
    cases before with
    | nil =>
      refine linked_cons_cons.mpr ⟨?_, hih⟩
      rw [hsame a List.mem_cons_self]
      exact (linked_cons_cons.mp h).1
    | cons b before =>
      refine linked_cons_cons.mpr ⟨?_, hih⟩
      rw [hsame a List.mem_cons_self]
      exact (linked_cons_cons.mp h).1

/-- From a node but the last, the pointer leads to a node of the rest of the list. -/
theorem Linked.next_mem (h : Linked next (x :: before ++ [y])) : ∀ z ∈ x :: before, next z ∈ before ++ [y] := by
  induction before generalizing x with
  | nil =>
    intro z hz
    obtain rfl := List.mem_singleton.mp hz
    exact List.mem_singleton.mpr (linked_cons_cons.mp h).1
  | cons a before ih =>
    obtain ⟨hxa, htail⟩ := linked_cons_cons.mp h
    intro z hz
    obtain rfl | hz := List.mem_cons.mp hz
    · exact hxa ▸ List.mem_cons_self
    · exact List.mem_cons_of_mem _ (ih htail z hz)

section Redirect

variable {p e : Nat} (hbefore : ∀ z ∈ before, next' z = next z) (hbehind : ∀ z ∈ behind, next' z = next z)

include hbehind in
/-- A list is read on from a node that leads where another one led. -/
theorem Linked.rehead (h : Linked next (x :: (behind ++ [e]))) (hy : next' y = next x) :
    Linked next' (y :: (behind ++ [e])) := by
  cases behind with
  | nil =>
    refine linked_cons_cons.mpr ⟨?_, List.isChain_singleton e⟩
    rw [hy]
    exact (linked_cons_cons.mp h).1
  | cons a behind =>
    obtain ⟨hxa, htail⟩ := linked_cons_cons.mp h
    refine linked_cons_cons.mpr ⟨hy.trans hxa, ?_⟩
    have htail : Linked next ((a :: behind) ++ [e]) := htail
    exact htail.congr hbehind

include hbefore hbehind

/-- The list stays as it is. -/
theorem Linked.same (h : Linked next (before ++ p :: (behind ++ [e]))) (hp : next' p = next p) :
    Linked next' (before ++ p :: (behind ++ [e])) := by
  obtain ⟨hfront, hback⟩ := linked_split.mp h
  exact linked_split.mpr ⟨hfront.congr hbefore, hback.rehead hbehind hp⟩

/-- The node behind `p` is taken off the list. -/
theorem Linked.unlink (h : Linked next (before ++ p :: x :: (behind ++ [e]))) (hp : next' p = next x) :
    Linked next' (before ++ p :: (behind ++ [e])) := by
  obtain ⟨hfront, -, hback⟩ := linked_append_cons_cons.mp h
  exact linked_split.mpr ⟨hfront.congr hbefore, hback.rehead hbehind hp⟩

/-- A node comes in the place of the one behind `p`. -/
theorem Linked.replace (h : Linked next (before ++ p :: x :: (behind ++ [e]))) (hp : next' p = y)
    (hy : next' y = next x) : Linked next' (before ++ p :: y :: (behind ++ [e])) := by
  obtain ⟨hfront, -, hback⟩ := linked_append_cons_cons.mp h
  exact linked_append_cons_cons.mpr ⟨hfront.congr hbefore, hp, hback.rehead hbehind hy⟩

/-- A node comes in behind `p`. -/
theorem Linked.insert (h : Linked next (before ++ p :: (behind ++ [e]))) (hp : next' p = y)
    (hy : next' y = next p) : Linked next' (before ++ p :: y :: (behind ++ [e])) := by
  obtain ⟨hfront, hback⟩ := linked_split.mp h
  exact linked_append_cons_cons.mpr ⟨hfront.congr hbefore, hp, hback.rehead hbehind hy⟩

end Redirect

/-- The walk along a list to the first node that stops it, with the node before that one. -/
def seek (next : Nat → Nat) (stops : Nat → Bool) : Nat → Nat → Nat → Option (Nat × Nat)
  | 0, _, _ => none
  | fuel + 1, previous, x => if stops x then some (previous, x) else seek next stops fuel x (next x)

theorem seek_linked {stops : Nat → Bool} {fuel previous : Nat}
    (h : Linked next (previous :: before ++ x :: behind)) (hbefore : ∀ y ∈ before, stops y = false)
    (hx : stops x = true) (hfuel : before.length < fuel) :
    seek next stops fuel previous (next previous) =
      some ((previous :: before).getLast (List.cons_ne_nil _ _), x) := by
  induction before generalizing previous fuel with
  | nil =>
    cases fuel with
    | zero => exact absurd hfuel (Nat.not_lt_zero _)
    | succ fuel =>
      have hnext : next previous = x := (linked_cons_cons.mp h).1
      rw [hnext, seek, if_pos hx]
      rfl
  | cons a before ih =>
    cases fuel with
    | zero => exact absurd hfuel (Nat.not_lt_zero _)
    | succ fuel =>
      have hnext : next previous = a := (linked_cons_cons.mp h).1
      have hstops : ¬stops a = true := by simp [hbefore a List.mem_cons_self]
      rw [hnext, seek, if_neg hstops]
      rw [ih (List.IsChain.tail h) (fun y hy => hbefore y (List.mem_cons_of_mem _ hy))
        (Nat.lt_of_succ_lt_succ hfuel)]
      rw [List.getLast_cons (List.cons_ne_nil a before)]

/-- A list whose nodes ascend below a bound is no longer than the bound. -/
theorem length_le_of_ascending {bound : Nat} (h : l.Pairwise (· < ·)) (hbound : ∀ x ∈ l, x < bound) :
    l.length ≤ bound := by
  have hnodup : l.Nodup := h.imp fun hlt => Nat.ne_of_lt hlt
  have hsub : l ⊆ List.range bound := fun x hx => List.mem_range.mpr (hbound x hx)
  have := (List.subperm_of_subset hnodup hsub).length_le
  rwa [List.length_range] at this

end CarveraFirmware.Links
