import Mathlib

/-!
# Machines that halt with a result

`step` leads to the next state, or halts. `Safe step inv post s` is total correctness from `s` with an
invariant on the way: every state that the machine comes to meets `inv`, and it halts, in a state and
with a result that meet `post`.
-/

namespace CarveraFirmware

variable {σ ρ : Type*} {step : σ → σ ⊕ ρ}

/-- Some number of steps lead from one state to the other. -/
def Leads (step : σ → σ ⊕ ρ) : σ → σ → Prop := Relation.ReflTransGen fun s t => step s = .inl t

def Safe (step : σ → σ ⊕ ρ) (inv : σ → Prop) (post : σ → ρ → Prop) (s : σ) : Prop :=
  (∀ t, Leads step s t → inv t) ∧ ∃ t r, Leads step s t ∧ step t = .inr r ∧ post t r

theorem Leads.eq_of_halts {s t : σ} {r : ρ} (hstep : step s = .inr r) (h : Leads step s t) : t = s := by
  obtain rfl | ⟨u, hu, -⟩ := Relation.ReflTransGen.cases_head h
  · rfl
  · exact absurd (hstep.symm.trans hu) nofun

theorem Leads.of_step {s s' t : σ} (hstep : step s = .inl s') (h : Leads step s t) :
    t = s ∨ Leads step s' t := by
  obtain rfl | ⟨u, hu, h⟩ := Relation.ReflTransGen.cases_head h
  · exact .inl rfl
  · obtain rfl := Sum.inl.inj (hstep.symm.trans hu)
    exact .inr h

/-- The state in which the machine halts, and its result, if it comes to halt within `n` steps. -/
def haltsWithin (step : σ → σ ⊕ ρ) : Nat → σ → Option (σ × ρ)
  | 0, _ => none
  | n + 1, s =>
    match step s with
    | .inl s' => haltsWithin step n s'
    | .inr r => some (s, r)

variable {inv : σ → Prop} {post : σ → ρ → Prop} {s s' : σ}

theorem haltsWithin_of_step {n : Nat} (hstep : step s = .inl s') :
    haltsWithin step (n + 1) s = haltsWithin step n s' := by
  rw [haltsWithin, hstep]

theorem haltsWithin_of_halts {n : Nat} {r : ρ} (hstep : step s = .inr r) :
    haltsWithin step (n + 1) s = some (s, r) := by
  rw [haltsWithin, hstep]

theorem safe_iff_of_halts {r : ρ} (hstep : step s = .inr r) :
    Safe step inv post s ↔ inv s ∧ post s r := by
  constructor
  · rintro ⟨hinv, t, r', hlead, hhalt, hpost⟩
    obtain rfl := hlead.eq_of_halts hstep
    obtain rfl := Sum.inr.inj (hstep.symm.trans hhalt)
    exact ⟨hinv _ .refl, hpost⟩
  · rintro ⟨hinv, hpost⟩
    refine ⟨fun t hlead => ?_, s, r, .refl, hstep, hpost⟩
    rwa [hlead.eq_of_halts hstep]

theorem safe_iff_of_step (hstep : step s = .inl s') :
    Safe step inv post s ↔ inv s ∧ Safe step inv post s' := by
  constructor
  · rintro ⟨hinv, t, r, hlead, hhalt, hpost⟩
    refine ⟨hinv _ .refl, fun u hu => hinv u (.head hstep hu), t, r, ?_, hhalt, hpost⟩
    obtain rfl | hlead := hlead.of_step hstep
    · exact absurd (hstep.symm.trans hhalt) nofun
    · exact hlead
  · rintro ⟨hinv, hinv', t, r, hlead, hhalt, hpost⟩
    refine ⟨fun u hu => ?_, t, r, .head hstep hlead, hhalt, hpost⟩
    obtain rfl | hu := hu.of_step hstep
    · exact hinv
    · exact hinv' u hu

/-- An invariant that every step keeps, and steps that all go down, make a machine safe. -/
theorem safe_of_wellFounded {lower : σ → σ → Prop} (hwf : WellFounded lower)
    (hnext : ∀ s s', inv s → step s = .inl s' → inv s' ∧ lower s' s)
    (hend : ∀ s r, inv s → step s = .inr r → post s r) (s : σ) (hs : inv s) :
    Safe step inv post s := by
  induction s using hwf.induction with
  | _ s ih =>
    cases hstep : step s with
    | inl s' =>
      obtain ⟨hs', hlower⟩ := hnext s s' hs hstep
      exact (safe_iff_of_step hstep).mpr ⟨hs, ih s' hlower hs'⟩
    | inr r => exact (safe_iff_of_halts hstep).mpr ⟨hs, hend s r hs hstep⟩

theorem Safe.imp {inv' : σ → Prop} {post' : σ → ρ → Prop} (h : Safe step inv post s)
    (hinv : ∀ t, inv t → inv' t) (hpost : ∀ t r, inv t → post t r → post' t r) :
    Safe step inv' post' s := by
  obtain ⟨hall, t, r, hlead, hhalt, hr⟩ := h
  exact ⟨fun u hu => hinv u (hall u hu), t, r, hlead, hhalt, hpost t r (hall t hlead) hr⟩

/-- The result is the only one. -/
theorem Safe.post_of_halts (h : Safe step inv post s) {t : σ} {r : ρ} (hlead : Leads step s t)
    (hhalt : step t = .inr r) : post t r := by
  obtain ⟨hall, u, r', hlead', hhalt', hr⟩ := h
  obtain rfl : u = t := by
    obtain h | h := Relation.ReflTransGen.total_of_right_unique
      (fun _ _ _ h h' => Sum.inl.inj (h.symm.trans h')) hlead' hlead
    · exact (Leads.eq_of_halts hhalt' h).symm
    · exact Leads.eq_of_halts hhalt h
  obtain rfl := Sum.inr.inj (hhalt.symm.trans hhalt')
  exact hr

/-- A machine that goes through a sequence of states is safe exactly if it halts in one of them as it
should, having met the invariant up to there. -/
theorem safe_iff_of_path (path : Nat → σ) (goesOn : Nat → Prop)
    (hnext : ∀ k, goesOn k → step (path k) = .inl (path (k + 1))) {result : Nat → ρ}
    (hend : ∀ k, ¬ goesOn k → step (path k) = .inr (result k)) :
    Safe step inv post (path 0) ↔
      ∃ n, (∀ k < n, goesOn k) ∧ ¬ goesOn n ∧ (∀ k ≤ n, inv (path k)) ∧
        post (path n) (result n) := by
  -- As long as the path goes on, safety is the invariant so far and safety from there.
  have hsafe (n : Nat) (h : ∀ k < n, goesOn k) :
      Safe step inv post (path 0) ↔ (∀ k < n, inv (path k)) ∧ Safe step inv post (path n) := by
    induction n with
    | zero => simp
    | succ n ih =>
      rw [ih fun k hk => h k (hk.trans n.lt_succ_self), safe_iff_of_step (hnext n (h n n.lt_succ_self)),
        ← and_assoc]
      refine and_congr_left fun _ => ⟨fun ⟨hinv, hn⟩ k hk => ?_, fun hinv => ⟨?_, ?_⟩⟩
      · obtain rfl | hlt := Nat.eq_or_lt_of_le (Nat.le_of_lt_succ hk)
        · exact hn
        · exact hinv k hlt
      · exact fun k hk => hinv k (hk.trans n.lt_succ_self)
      · exact hinv n n.lt_succ_self
  constructor
  · rintro ⟨hinv, t, r, hlead, hhalt, hpost⟩
    -- what a run reaches is on the path
    obtain ⟨n, rfl, hgoes⟩ : ∃ n, t = path n ∧ ∀ k < n, goesOn k := by
      clear hhalt hpost
      induction hlead with
      | refl => exact ⟨0, rfl, nofun⟩
      | tail _ hstep ih =>
        obtain ⟨n, rfl, hgoes⟩ := ih
        by_cases hn : goesOn n
        · refine ⟨n + 1, Sum.inl.inj (hstep.symm.trans (hnext n hn)), fun k hk => ?_⟩
          obtain rfl | hlt := Nat.eq_or_lt_of_le (Nat.le_of_lt_succ hk)
          · exact hn
          · exact hgoes k hlt
        · exact absurd (hstep.symm.trans (hend n hn)) nofun
    have hn : ¬ goesOn n := fun hn => absurd ((hnext n hn).symm.trans hhalt) nofun
    obtain rfl := Sum.inr.inj ((hend n hn).symm.trans hhalt)
    have hall := (hsafe n hgoes).mp ⟨hinv, _, _, hlead, hhalt, hpost⟩
    refine ⟨n, hgoes, hn, fun k hk => ?_, hpost⟩
    obtain rfl | hlt := Nat.eq_or_lt_of_le hk
    · exact hall.2.1 _ .refl
    · exact hall.1 k hlt
  · rintro ⟨n, hgoes, hn, hinv, hpost⟩
    refine (hsafe n hgoes).mpr ⟨fun k hk => hinv k hk.le, ?_⟩
    exact (safe_iff_of_halts (hend n hn)).mpr ⟨hinv n le_rfl, hpost⟩

end CarveraFirmware
