import Mathlib
import CarveraFirmware.Motion.Planner

/-!
# Every plan can be executed

What the planner keeps over appends, starts and finishes: the speeds at the joins agree and
every block can get from its entry speed to its exit speed within its acceleration. Appending
only ever raises entry speeds, which is why the passes may stop where they do.
-/

namespace CarveraFirmware.Motion

variable {K : Type*} [Field K] [LinearOrder K]

/-- What the planner takes from `sqrtf`. -/
structure IsSqrt (sqrtf : K → K) : Prop where
  nonneg : ∀ x, 0 ≤ sqrtf x
  mul_self : ∀ x, 0 ≤ x → sqrtf x * sqrtf x = x

/-- One block's speeds: the entry speed under its limits, and both changes of speed within what
the acceleration allows over the length of the block. -/
structure Block.Ok (b : Block K) : Prop where
  acceleration_pos : 0 < b.acceleration
  millimeters_pos : 0 < b.millimeters
  entry_nonneg : 0 ≤ b.entrySpeed
  entry_le : b.entrySpeed ≤ b.maxEntrySpeed
  max_le : b.maxEntrySpeed ≤ b.nominalSpeed
  exit_nonneg : 0 ≤ b.exitSpeed
  exit_le : b.exitSpeed ≤ b.nominalSpeed
  decel : b.entrySpeed * b.entrySpeed ≤
    b.exitSpeed * b.exitSpeed + 2 * b.acceleration * b.millimeters
  accel : b.exitSpeed * b.exitSpeed ≤
    b.entrySpeed * b.entrySpeed + 2 * b.acceleration * b.millimeters
  nominalLength : b.nominalLengthFlag = true →
    b.nominalSpeed * b.nominalSpeed ≤ 2 * b.acceleration * b.millimeters
  ticking : b.isTicking = true → b.recalculateFlag = false

/-- A block as it stands in the queue: what the step ticker is given goes from the block's entry
speed to its exit speed. -/
structure Block.Whole [FloorRing K] (sqrtf : K → K) (frequency : K) (b : Block K) : Prop
    extends b.Ok where
  planned : b.profile = b.trapezoid sqrtf frequency b.entrySpeed b.exitSpeed

/-- Two blocks of the queue, the newer first, meet at one speed. -/
structure Joined (newer older : Block K) : Prop where
  speed : older.exitSpeed = newer.entrySpeed
  limit : newer.maxEntrySpeed ≤ older.nominalSpeed

/-- The block a pass leaves, before its trapezoid is worked out again: only a higher entry speed,
from which it can still slow down to `exit`. -/
structure Raised (exit : K) (b b' : Block K) : Prop where
  eq : ∃ flag, b' = { b with entrySpeed := b'.entrySpeed, recalculateFlag := flag }
  ticking : b.isTicking = true → b' = b
  entry_ge : b.entrySpeed ≤ b'.entrySpeed
  entry_le : b'.entrySpeed ≤ b.maxEntrySpeed
  decel : b'.entrySpeed * b'.entrySpeed ≤ exit * exit + 2 * b.acceleration * b.millimeters

variable [IsStrictOrderedRing K] {sqrtf : K → K}

theorem IsSqrt.le_of_mul_self_le (h : IsSqrt sqrtf) {x y : K} (hx : 0 ≤ x) (hyx : y * y ≤ x) :
    y ≤ sqrtf x := by
  by_contra hlt
  have hsq := mul_self_lt_mul_self (h.nonneg x) (not_le.mp hlt)
  rw [h.mul_self x hx] at hsq
  exact hsq.not_ge hyx

theorem maxAllowableSpeed_mul_self (h : IsSqrt sqrtf) {a v d : K} (ha : 0 < a) (hd : 0 < d) :
    maxAllowableSpeed sqrtf (-a) v d * maxAllowableSpeed sqrtf (-a) v d = v * v + 2 * a * d := by
  have hpos : 0 < a * d := mul_pos ha hd
  rw [maxAllowableSpeed, h.mul_self _ (by nlinarith [mul_self_nonneg v])]
  ring

theorem le_maxAllowableSpeed (h : IsSqrt sqrtf) {a v d y : K} (ha : 0 < a) (hd : 0 < d)
    (hy : y * y ≤ v * v + 2 * a * d) : y ≤ maxAllowableSpeed sqrtf (-a) v d := by
  have hpos : 0 < a * d := mul_pos ha hd
  exact h.le_of_mul_self_le (by nlinarith [mul_self_nonneg v]) (by linarith)

/-! ## One block -/

namespace Block.Ok

variable {b b' : Block K} {exit : K}

/-- A block neither pass touches. -/
theorem raised (h : b.Ok) (hexit : b.exitSpeed ≤ exit) : Raised exit b b := by
  refine ⟨⟨_, rfl⟩, fun _ => rfl, le_refl _, h.entry_le, h.decel.trans ?_⟩
  linarith [mul_self_le_mul_self h.exit_nonneg hexit]

theorem reversePass (h : b.Ok) (hs : IsSqrt sqrtf) (hflag : b.recalculateFlag = true)
    (hexit : b.exitSpeed ≤ exit) : Raised exit b (b.reversePass sqrtf exit) := by
  have hticking : ∀ b', b.isTicking = true → b' = b := fun b' ht => by
    rw [h.ticking ht] at hflag
    cases hflag
  have hsq : b.exitSpeed * b.exitSpeed ≤ exit * exit := mul_self_le_mul_self h.exit_nonneg hexit
  have hd := h.decel
  unfold Block.reversePass
  split_ifs with hne hcond
  · -- Limited by the speed the block can slow down from.
    have hle := le_maxAllowableSpeed (v := exit) hs h.acceleration_pos h.millimeters_pos
      (y := b.entrySpeed) (by linarith)
    have hge := le_min hle h.entry_le
    refine ⟨⟨_, rfl⟩, hticking _, hge, min_le_right _ _, ?_⟩
    calc _ ≤ _ := mul_self_le_mul_self (h.entry_nonneg.trans hge) (min_le_left _ _)
      _ = _ := maxAllowableSpeed_mul_self hs h.acceleration_pos h.millimeters_pos
  · refine ⟨⟨_, rfl⟩, hticking _, h.entry_le, le_refl _, ?_⟩
    have hm : 0 ≤ b.maxEntrySpeed := h.entry_nonneg.trans h.entry_le
    have hpos := mul_pos h.acceleration_pos h.millimeters_pos
    simp only [Bool.and_eq_true, Bool.not_eq_true', decide_eq_true_eq, not_and, not_lt,
      gt_iff_lt] at hcond
    -- the length of the block, or the flag for it, allows the full entry speed
    dsimp only
    cases hlong : b.nominalLengthFlag with
    | true =>
      have hn := mul_self_le_mul_self hm h.max_le
      have hlen := h.nominalLength hlong
      linarith [mul_self_nonneg exit]
    | false =>
      have := mul_self_le_mul_self hm (hcond hlong)
      linarith
  · exact ⟨⟨_, rfl⟩, hticking _, le_refl _, h.entry_le, by linarith⟩

end Block.Ok

omit [Field K] [IsStrictOrderedRing K] in
/-- With the entry speed under its limits the forward pass takes the smaller of the speeds. -/
theorem Block.forwardPass_eq {b : Block K} (hle : b.entrySpeed ≤ b.maxEntrySpeed)
    (hmax : b.maxEntrySpeed ≤ b.nominalSpeed) (prev : K) :
    ∃ flag, b.forwardPass prev =
      { b with entrySpeed := min b.entrySpeed prev, recalculateFlag := flag } := by
  unfold Block.forwardPass
  extract_lets capped limited
  have hcapped : capped = min b.nominalSpeed prev := (min_def_lt _ _).symm
  have hlimited : limited = min b.maxEntrySpeed capped := (min_def_lt _ _).symm
  have hmin : min b.entrySpeed limited = min b.entrySpeed prev := by
    rw [hlimited, hcapped, ← min_assoc, min_eq_left hle, ← min_assoc, min_eq_left (hle.trans hmax)]
  split_ifs with hlt
  · exact ⟨false, by rw [← hmin, min_eq_right hlt]⟩
  · exact ⟨b.recalculateFlag, by rw [← hmin, min_eq_left (not_le.mp hlt).le]⟩

namespace Raised

variable {b b' : Block K} {exit : K}

/-- What the next block may be entered at. -/
theorem maxExitSpeed_spec (hr : Raised exit b b') (h : b.Ok) (hs : IsSqrt sqrtf) :
    b.exitSpeed ≤ b'.maxExitSpeed sqrtf ∧ b'.maxExitSpeed sqrtf ≤ b.nominalSpeed ∧
      b'.maxExitSpeed sqrtf * b'.maxExitSpeed sqrtf ≤
        b'.entrySpeed * b'.entrySpeed + 2 * b.acceleration * b.millimeters ∧
      (b.isTicking = false → b'.entrySpeed ≤ b'.maxExitSpeed sqrtf) := by
  have hacc := h.accel
  have hpos := mul_pos h.acceleration_pos h.millimeters_pos
  have hnom : 0 ≤ b.nominalSpeed := h.exit_nonneg.trans h.exit_le
  cases ht : b.isTicking with
  | true =>
    rw [hr.ticking ht]
    simp only [Block.maxExitSpeed, ht, if_true]
    exact ⟨le_refl _, h.exit_le, hacc, by simp⟩
  | false =>
    obtain ⟨⟨flag, heq⟩, -, hge, hle, -⟩ := hr
    generalize b'.entrySpeed = e at heq hge hle ⊢
    subst heq
    have hsq : b.entrySpeed * b.entrySpeed ≤ e * e := mul_self_le_mul_self h.entry_nonneg hge
    have he : e ≤ b.nominalSpeed := hle.trans h.max_le
    simp only [Block.maxExitSpeed, ht, Bool.false_eq_true, if_false, forall_const]
    split_ifs with hlong
    · exact ⟨h.exit_le, le_refl _, by linarith [h.nominalLength hlong, mul_self_nonneg e], he⟩
    · -- too short for its nominal speed: what it can speed up to on its length
      have hfrom : ∀ y, y * y ≤ e * e + 2 * b.acceleration * b.millimeters →
          y ≤ maxAllowableSpeed sqrtf (-b.acceleration) e b.millimeters :=
        fun y hy => le_maxAllowableSpeed hs h.acceleration_pos h.millimeters_pos hy
      refine ⟨le_min (hfrom _ (by linarith)) h.exit_le, min_le_right _ _, ?_,
        le_min (hfrom _ (by linarith)) he⟩
      calc _ ≤ _ := mul_self_le_mul_self (le_min (hs.nonneg _) hnom) (min_le_left _ _)
        _ = _ := maxAllowableSpeed_mul_self hs h.acceleration_pos h.millimeters_pos

variable [FloorRing K] {frequency : K}

/-- Working out the trapezoid again, to the speed the next block is now entered at, makes the block
whole. A block being executed already exits at that speed. -/
theorem close (hr : Raised exit b b') (h : b.Whole sqrtf frequency) (hs : IsSqrt sqrtf)
    (hexit : b.exitSpeed ≤ exit) {e : K} (he : e = min exit (b'.maxExitSpeed sqrtf)) :
    (b'.calculateTrapezoid sqrtf frequency b'.entrySpeed e).Whole sqrtf frequency ∧
      (b'.calculateTrapezoid sqrtf frequency b'.entrySpeed e).exitSpeed = e := by
  obtain ⟨hout, hnom, hacc, hrise⟩ := hr.maxExitSpeed_spec h.toOk hs
  have hge : b.exitSpeed ≤ e := he ▸ le_min hexit hout
  have hle : e ≤ b'.maxExitSpeed sqrtf := he ▸ min_le_right _ _
  cases ht : b.isTicking with
  | true =>
    -- it keeps the trapezoid that it runs with
    have hb' := hr.ticking ht
    subst hb'
    have hcached : b'.maxExitSpeed sqrtf = b'.exitSpeed := by simp [Block.maxExitSpeed, ht]
    rw [Block.calculateTrapezoid, if_pos ht]
    exact ⟨h, le_antisymm hge (hcached ▸ hle)⟩
  | false =>
    have hslow : b'.entrySpeed * b'.entrySpeed ≤ e * e + 2 * b.acceleration * b.millimeters := by
      rcases min_choice exit (b'.maxExitSpeed sqrtf) with hm | hm
      · rw [he, hm]
        exact hr.decel
      · have hpos := mul_pos h.acceleration_pos h.millimeters_pos
        rw [he, hm]
        linarith [mul_self_le_mul_self (h.entry_nonneg.trans hr.entry_ge) (hrise ht)]
    have hfast : e * e ≤ b'.entrySpeed * b'.entrySpeed + 2 * b.acceleration * b.millimeters :=
      (mul_self_le_mul_self (h.exit_nonneg.trans hge) hle).trans hacc
    obtain ⟨⟨flag, heq⟩, -, hentry, hmax, -⟩ := hr
    generalize b'.entrySpeed = e' at heq hentry hmax hslow hfast
    subst heq
    rw [Block.calculateTrapezoid, if_neg (by simp [ht])]
    exact ⟨⟨⟨h.acceleration_pos, h.millimeters_pos, h.entry_nonneg.trans hentry, hmax, h.max_le,
      h.exit_nonneg.trans hge, hle.trans hnom, hslow, hfast, h.nominalLength,
      fun ht' => by simp [ht] at ht'⟩, rfl⟩, rfl⟩

end Raised

/-! ## The passes over the queue -/

variable [FloorRing K] {frequency : K}

omit [IsStrictOrderedRing K] in
@[simp] theorem Block.calculateTrapezoid_nominalSpeed (b : Block K) (e e' : K) :
    (b.calculateTrapezoid sqrtf frequency e e').nominalSpeed = b.nominalSpeed := by
  unfold Block.calculateTrapezoid
  split_ifs <;> rfl

omit [IsStrictOrderedRing K] in
theorem Joined.calculateTrapezoid {newer older : Block K} (h : Joined newer older) (e e' : K) :
    Joined (newer.calculateTrapezoid sqrtf frequency e e') older := by
  unfold Block.calculateTrapezoid
  split_ifs
  · exact h
  · exact ⟨h.speed, h.limit⟩

/-- One turn of both loops: what the passes leave of the blocks below is closed at the speed the
block is entered at. -/
theorem passes_cons (hs : IsSqrt sqrtf) {b c c' : Block K} {rest rest' : List (Block K)} {exit : K}
    (hb : b.Ok) (hflag : b.recalculateFlag = true) (hexit : b.exitSpeed ≤ exit)
    (hlimit : b.maxEntrySpeed ≤ c.nominalSpeed) (hc : c.Whole sqrtf frequency)
    (hjoin : c.exitSpeed ≤ b.entrySpeed)
    (hpass : passes sqrtf frequency (b.reversePass sqrtf exit).entrySpeed (c :: rest) =
      (c' :: rest', c'.maxExitSpeed sqrtf))
    (hraised : Raised (b.reversePass sqrtf exit).entrySpeed c c')
    (hrest : ∀ x ∈ rest', x.Whole sqrtf frequency) (hchain : (c' :: rest').IsChain Joined) :
    ∃ b' below, passes sqrtf frequency exit (b :: c :: rest) = (b' :: below, b'.maxExitSpeed sqrtf) ∧
      (∃ flag, b' = { b with entrySpeed := b'.entrySpeed, recalculateFlag := flag }) ∧
      c.exitSpeed ≤ b'.entrySpeed ∧ b'.entrySpeed ≤ b.maxEntrySpeed ∧
      b'.entrySpeed * b'.entrySpeed ≤ exit * exit + 2 * b.acceleration * b.millimeters ∧
      (∀ x ∈ below, x.Whole sqrtf frequency) ∧ (b' :: below).IsChain Joined := by
  -- On the way down the block takes its entry speed from the exit; on the way up it may have to
  -- give some of it back to what the block below can reach.
  have hrev := hb.reversePass hs hflag hexit
  have hup : c.exitSpeed ≤ (b.reversePass sqrtf exit).entrySpeed := hjoin.trans hrev.entry_ge
  obtain ⟨hout, -⟩ := hraised.maxExitSpeed_spec hc.toOk hs
  obtain ⟨⟨flag, hreq⟩, -, -, hle, hslow⟩ := hrev
  have hpassb : passes sqrtf frequency exit (b :: c :: rest) =
      (let current := (b.reversePass sqrtf exit).forwardPass (c'.maxExitSpeed sqrtf)
      (current :: c'.calculateTrapezoid sqrtf frequency c'.entrySpeed current.entrySpeed :: rest',
        current.maxExitSpeed sqrtf)) := by
    simp [passes, hflag, hpass]
  generalize b.reversePass sqrtf exit = r at *
  generalize hr : r.entrySpeed = e at *
  subst hreq
  obtain ⟨flag', hfwd⟩ := Block.forwardPass_eq (b := { b with entrySpeed := e, recalculateFlag := flag })
    hle hb.max_le (c'.maxExitSpeed sqrtf)
  have hge : c.exitSpeed ≤ min e (c'.maxExitSpeed sqrtf) := le_min hup hout
  obtain ⟨hwhole, hexit'⟩ := hraised.close hc hs hup rfl
  rw [hfwd] at hpassb
  refine ⟨_, _, hpassb, ⟨flag', rfl⟩, hge, (min_le_left _ _).trans hle, ?_, ?_, ?_⟩
  · refine le_trans ?_ hslow
    exact mul_self_le_mul_self (hc.exit_nonneg.trans hge) (min_le_left _ _)
  · intro x hx
    rcases List.mem_cons.mp hx with rfl | hx
    · exact hwhole
    · exact hrest x hx
  · have hnominal : c'.nominalSpeed = c.nominalSpeed := by
      obtain ⟨⟨_, heq⟩, -⟩ := hraised
      rw [heq]
    refine List.isChain_cons_cons.mpr ⟨⟨hexit', ?_⟩, ?_⟩
    · rw [Block.calculateTrapezoid_nominalSpeed, hnominal]
      exact hlimit
    · obtain ⟨hfirst, hbelow⟩ := List.isChain_cons.mp hchain
      exact List.isChain_cons.mpr ⟨fun x hx => (hfirst x hx).calculateTrapezoid _ _, hbelow⟩

/-- The passes from a block of a queue whose joins agree: the entry speed of the block is raised,
and everything below it is whole again. -/
theorem passes_spec (hs : IsSqrt sqrtf) {b : Block K} {rest : List (Block K)} {exit : K}
    (hwhole : ∀ x ∈ b :: rest, x.Whole sqrtf frequency) (hjoined : (b :: rest).IsChain Joined)
    (hexit : b.exitSpeed ≤ exit) :
    ∃ b' rest', passes sqrtf frequency exit (b :: rest) = (b' :: rest', b'.maxExitSpeed sqrtf) ∧
      Raised exit b b' ∧ (∀ x ∈ rest', x.Whole sqrtf frequency) ∧ (b' :: rest').IsChain Joined := by
  induction rest generalizing b exit with
  | nil =>
    have hb := hwhole b (by simp)
    exact ⟨b, [], rfl, hb.raised hexit, by simp, by simp⟩
  | cons c rest ih =>
    have hb := hwhole b (by simp)
    have hc := hwhole c (by simp)
    have hbelow : ∀ x ∈ c :: rest, x.Whole sqrtf frequency :=
      fun x hx => hwhole x (List.mem_cons_of_mem _ hx)
    obtain ⟨hbc, hrest⟩ := List.isChain_cons_cons.mp hjoined
    cases hflag : b.recalculateFlag with
    | false => exact ⟨b, c :: rest, by simp [passes, hflag], hb.raised hexit, hbelow, hjoined⟩
    | true =>
      have hrev := hb.reversePass hs hflag hexit
      obtain ⟨c', rest', hpass, hraised, hrest', hchain⟩ :=
        ih hbelow hrest (hbc.speed.le.trans hrev.entry_ge)
      obtain ⟨b', below, hpassb, heq, hge, hle, hslow, hbelow', hchain'⟩ :=
        passes_cons hs hb.toOk hflag hexit hbc.limit hc hbc.speed.le hpass hraised hrest' hchain
      refine ⟨b', below, hpassb, ⟨heq, fun ht => ?_, hbc.speed ▸ hge, hle, hslow⟩, hbelow', hchain'⟩
      rw [hb.ticking ht] at hflag
      cases hflag

/-! ## Whole runs -/

/-- A queue every block of which is whole, whose joins agree, and whose newest block stops. -/
structure QueueOk (sqrtf : K → K) (frequency : K) (blocks : List (Block K)) : Prop where
  whole : ∀ b ∈ blocks, b.Whole sqrtf frequency
  joined : blocks.IsChain Joined
  newest : ∀ b ∈ blocks.head?, b.exitSpeed = 0

/-- The newest block, planned down to a stop. -/
theorem Block.Ok.stop {b : Block K} (h : b.Ok) (htick : b.isTicking = false) {e : K} {flag : Bool}
    (he : 0 ≤ e) (hle : e ≤ b.maxEntrySpeed)
    (hslow : e * e ≤ 0 * 0 + 2 * b.acceleration * b.millimeters) :
    Block.Whole sqrtf frequency (Block.calculateTrapezoid sqrtf frequency
      { b with entrySpeed := e, recalculateFlag := flag } e 0) := by
  have hpos := mul_pos h.acceleration_pos h.millimeters_pos
  rw [Block.calculateTrapezoid, if_neg (by simp [htick])]
  refine ⟨⟨h.acceleration_pos, h.millimeters_pos, he, hle, h.max_le, le_refl _,
    h.exit_nonneg.trans h.exit_le, hslow, ?_, h.nominalLength, fun ht => ?_⟩, rfl⟩
  · dsimp only
    linarith [mul_self_nonneg e]
  · simp [htick] at ht

/-- A block as `append_block` fills it in fits onto the queue, which is whole again once
`recalculate` has run. -/
theorem QueueOk.recalculate (hs : IsSqrt sqrtf) {cfg : PlannerConfig K}
    (hmin : cfg.minimumPlannerSpeed = 0) {blocks : List (Block K)}
    (h : QueueOk sqrtf cfg.frequency blocks) {b : Block K} (hb : b.Ok)
    (hexit : b.exitSpeed = 0) (hflag : b.recalculateFlag = true) (htick : b.isTicking = false)
    (hlimit : ∀ c ∈ blocks.head?, b.maxEntrySpeed ≤ c.nominalSpeed) :
    QueueOk sqrtf cfg.frequency (recalculate sqrtf cfg (b :: blocks)) := by
  -- Either way the newest block is `b` with some entry speed, on a queue that meets it there.
  obtain ⟨e, flag, below, hpass, he, hle, hslow, hbelow, hchain⟩ : ∃ e flag below,
      (passes sqrtf cfg.frequency 0 (b :: blocks)).1 =
        { b with entrySpeed := e, recalculateFlag := flag } :: below ∧ 0 ≤ e ∧
      e ≤ b.maxEntrySpeed ∧ e * e ≤ 0 * 0 + 2 * b.acceleration * b.millimeters ∧
      (∀ x ∈ below, x.Whole sqrtf cfg.frequency) ∧
      ({ b with entrySpeed := e, recalculateFlag := flag } :: below).IsChain Joined := by
    cases blocks with
    | nil =>
      refine ⟨b.entrySpeed, b.recalculateFlag, [], rfl, hb.entry_nonneg, hb.entry_le, ?_, by simp,
        by simp⟩
      rw [← hexit]
      exact hb.decel
    | cons c rest =>
      have hc := h.whole c (by simp)
      have hstop : c.exitSpeed = 0 := h.newest c rfl
      have hjoin : c.exitSpeed ≤ b.entrySpeed := hstop ▸ hb.entry_nonneg
      have hrev := hb.reversePass hs hflag hexit.le
      obtain ⟨c', rest', hpass, hraised, hrest, hchain⟩ :=
        passes_spec hs h.whole h.joined (hjoin.trans hrev.entry_ge)
      obtain ⟨b', below, hpassb, ⟨flag, heq⟩, hge, hle, hslow, hbelow, hchain'⟩ :=
        passes_cons hs hb hflag hexit.le (hlimit c rfl) hc hjoin hpass hraised hrest hchain
      refine ⟨b'.entrySpeed, flag, below, ?_, hstop ▸ hge, hle, hslow, hbelow, ?_⟩
      · rw [hpassb, ← heq]
      · rw [← heq]
        exact hchain'
  have hresult : Motion.recalculate sqrtf cfg (b :: blocks) =
      Block.calculateTrapezoid sqrtf cfg.frequency
        { b with entrySpeed := e, recalculateFlag := flag } e 0 :: below := by
    rw [Motion.recalculate, hmin, hpass]
    rfl
  obtain ⟨hfirst, hrest⟩ := List.isChain_cons.mp hchain
  rw [hresult]
  refine ⟨fun x hx => ?_, List.isChain_cons.mpr ⟨fun x hx => (hfirst x hx).calculateTrapezoid _ _, hrest⟩,
    fun x hx => ?_⟩
  · rcases List.mem_cons.mp hx with rfl | hx
    · exact hb.stop htick he hle hslow
    · exact hbelow x hx
  · obtain rfl := Option.some.inj hx
    simp [Block.calculateTrapezoid, htick]

/-- A move with positive acceleration, distance and rate. -/
structure Move.Positive (move : Move K) : Prop where
  acceleration : 0 < move.acceleration
  distance : 0 < move.distance
  rate : 0 < move.rate

omit [FloorRing K] [IsStrictOrderedRing K] in
/-- The junction speed is within the nominal speeds of both blocks. -/
theorem vmaxJunction_spec (hs : IsSqrt sqrtf) {cfg : PlannerConfig K}
    (hmin : cfg.minimumPlannerSpeed = 0) (unitVec : List K) {prev : Option (Block K)}
    (hprev : ∀ c ∈ prev, 0 ≤ c.nominalSpeed) {nominal : K} (hnominal : 0 ≤ nominal) (jd : K)
    (move : Move K) :
    0 ≤ vmaxJunction sqrtf cfg unitVec prev nominal jd move ∧
      vmaxJunction sqrtf cfg unitVec prev nominal jd move ≤ nominal ∧
      ∀ c ∈ prev, vmaxJunction sqrtf cfg unitVec prev nominal jd move ≤ c.nominalSpeed := by
  have hzero : 0 ≤ cfg.minimumPlannerSpeed ∧ cfg.minimumPlannerSpeed ≤ nominal ∧
      ∀ c ∈ prev, cfg.minimumPlannerSpeed ≤ c.nominalSpeed := by
    rw [hmin]
    exact ⟨le_refl _, hnominal, hprev⟩
  unfold vmaxJunction
  split
  · next unit c _ =>
    extract_lets previousNominal cosTheta vmax sinTheta
    have hle : previousNominal ≤ c.nominalSpeed := by
      have := hprev c rfl
      simp only [previousNominal]
      split_ifs <;> simp [this]
    split_ifs with hjd hacute hstraight
    · -- A corner, limited by the centripetal acceleration too.
      have hvmax : 0 ≤ vmax := le_min hjd.2.le hnominal
      refine ⟨le_min hvmax (hs.nonneg _), (min_le_left _ _).trans (min_le_right _ _), ?_⟩
      rintro _ ⟨⟩
      exact (min_le_left _ _).trans ((min_le_left _ _).trans hle)
    · refine ⟨le_min hjd.2.le hnominal, min_le_right _ _, ?_⟩
      rintro _ ⟨⟩
      exact (min_le_left _ _).trans hle
    · exact hzero
    · exact hzero
  · exact hzero

theorem newBlock_ok (hs : IsSqrt sqrtf) {cfg : PlannerConfig K} (hmin : cfg.minimumPlannerSpeed = 0)
    {s : Planner K} (h : QueueOk sqrtf cfg.frequency s.blocks) {move : Move K} (hm : move.Positive) :
    (newBlock sqrtf cfg s move).Ok ∧
      ∀ c ∈ s.blocks.head?, (newBlock sqrtf cfg s move).maxEntrySpeed ≤ c.nominalSpeed := by
  have hnominal : (newBlock sqrtf cfg s move).nominalSpeed = move.rate := by
    simp [newBlock, hm.distance]
  have hprev : ∀ c ∈ s.blocks.head?, 0 ≤ c.nominalSpeed := fun c hc => by
    have hw := h.whole c (List.mem_of_mem_head? hc)
    exact hw.exit_nonneg.trans hw.exit_le
  obtain ⟨hge, hle, hlimit⟩ := vmaxJunction_spec hs hmin s.previousUnitVec hprev
    (hnominal ▸ hm.rate.le : 0 ≤ (newBlock sqrtf cfg s move).nominalSpeed)
    (moveJunctionDeviation cfg (newBlock sqrtf cfg s move).steps) move
  have hpos := mul_pos hm.acceleration hm.distance
  have hallow := maxAllowableSpeed_mul_self (v := 0) hs hm.acceleration hm.distance
  have hentry : 0 ≤ (newBlock sqrtf cfg s move).entrySpeed := le_min hge (hs.nonneg _)
  refine ⟨⟨hm.acceleration, hm.distance, hentry, min_le_left _ _, hle, le_refl _, ?_, ?_, ?_, ?_,
    fun ht => (by cases ht)⟩, hlimit⟩
  · exact hnominal ▸ hm.rate.le
  · have hsq := mul_self_le_mul_self hentry
      (min_le_right _ (maxAllowableSpeed sqrtf (-move.acceleration) cfg.minimumPlannerSpeed _))
    rw [hmin, hallow] at hsq
    exact hsq
  · have := mul_self_nonneg (newBlock sqrtf cfg s move).entrySpeed
    change (0 : K) * 0 ≤ _ + 2 * move.acceleration * move.distance
    linarith
  · intro hlong
    have hlong : (newBlock sqrtf cfg s move).nominalSpeed ≤
        maxAllowableSpeed sqrtf (-move.acceleration) cfg.minimumPlannerSpeed move.distance :=
      of_decide_eq_true hlong
    rw [hmin] at hlong
    have hsq := mul_self_le_mul_self (hge.trans hle) hlong
    rw [hallow] at hsq
    change _ ≤ 2 * move.acceleration * move.distance
    linarith

omit [IsStrictOrderedRing K] in
theorem QueueOk.dropLast {blocks : List (Block K)} (h : QueueOk sqrtf frequency blocks) :
    QueueOk sqrtf frequency blocks.dropLast where
  whole := fun b hb => h.whole b (List.dropLast_subset _ hb)
  joined := h.joined.prefix (List.dropLast_prefix _)
  newest := by
    intro b hb
    obtain ⟨rest, hrest⟩ := List.dropLast_prefix blocks
    refine h.newest b ?_
    rw [← hrest, List.head?_append, Option.mem_def.mp hb]
    rfl

/-- A change of flags, by which no block under execution comes to be planned again. -/
def FlagsOnly (f : Block K → Block K) : Prop :=
  ∀ b, ∃ recalculate ready ticking,
    f b = { b with
      recalculateFlag := recalculate, isReady := ready, isTicking := ticking } ∧
    ((b.isTicking = true → b.recalculateFlag = false) → ticking = true → recalculate = false)

omit [IsStrictOrderedRing K] in
theorem Block.Whole.flags {f : Block K → Block K} (hf : FlagsOnly f) {b : Block K}
    (h : b.Whole sqrtf frequency) : (f b).Whole sqrtf frequency := by
  obtain ⟨recalculate, ready, ticking, heq, hflag⟩ := hf b
  rw [heq]
  exact ⟨⟨h.acceleration_pos, h.millimeters_pos, h.entry_nonneg, h.entry_le, h.max_le, h.exit_nonneg,
    h.exit_le, h.decel, h.accel, h.nominalLength, hflag h.ticking⟩, h.planned⟩

omit [Field K] [IsStrictOrderedRing K] [FloorRing K] in
theorem Joined.flags_left {f : Block K → Block K} (hf : FlagsOnly f) {newer older : Block K}
    (h : Joined newer older) : Joined (f newer) older := by
  obtain ⟨_, _, _, heq, -⟩ := hf newer
  rw [heq]
  exact ⟨h.speed, h.limit⟩

omit [Field K] [IsStrictOrderedRing K] [FloorRing K] in
theorem Joined.flags_right {f : Block K → Block K} (hf : FlagsOnly f) {newer older : Block K}
    (h : Joined newer older) : Joined newer (f older) := by
  obtain ⟨_, _, _, heq, -⟩ := hf older
  rw [heq]
  exact ⟨h.speed, h.limit⟩

omit [IsStrictOrderedRing K] in
theorem QueueOk.modify {blocks : List (Block K)} (h : QueueOk sqrtf frequency blocks)
    {f : Block K → Block K} (hf : FlagsOnly f) (i : ℕ) :
    QueueOk sqrtf frequency (blocks.modify i f) where
  whole := by
    intro b hb
    obtain ⟨j, hj⟩ := List.mem_iff_getElem?.mp hb
    rw [List.getElem?_modify] at hj
    obtain ⟨c, hc, rfl⟩ := Option.map_eq_some_iff.mp hj
    have hw := h.whole c (List.mem_of_getElem? hc)
    split_ifs
    · exact hw.flags hf
    · exact hw
  joined := by
    refine List.isChain_iff_getElem.mpr fun j hj => ?_
    have hj' : j + 1 < blocks.length := by simpa using hj
    have hold := List.isChain_iff_getElem.mp h.joined j hj'
    rw [List.getElem_modify, List.getElem_modify]
    split_ifs
    · exact (hold.flags_left hf).flags_right hf
    · exact hold.flags_left hf
    · exact hold.flags_right hf
    · exact hold
  newest := by
    intro b hb
    cases blocks with
    | nil => simp at hb
    | cons c rest =>
      have hstop := h.newest c rfl
      cases i with
      | zero =>
        obtain rfl : f c = b := by simpa using hb
        obtain ⟨_, _, _, heq, -⟩ := hf c
        rw [heq]
        exact hstop
      | succ i =>
        obtain rfl : c = b := by simpa using hb
        exact hstop

namespace Planner

variable {s : Planner K} {cfg : PlannerConfig K}

theorem queueOk_append (hs : IsSqrt sqrtf) (hmin : cfg.minimumPlannerSpeed = 0)
    (h : QueueOk sqrtf cfg.frequency s.blocks) {move : Move K} (hm : move.Positive) :
    QueueOk sqrtf cfg.frequency (s.append sqrtf cfg move).blocks := by
  unfold append
  split_ifs
  · exact h
  · obtain ⟨hok, hlimit⟩ := newBlock_ok hs hmin h hm
    have hq := h.recalculate hs hmin hok rfl rfl rfl hlimit
    rw [List.modifyHead_eq_modify_zero]
    exact hq.modify (fun b => ⟨_, _, _, rfl, id⟩) 0

omit [IsStrictOrderedRing K] in
theorem queueOk_start (h : QueueOk sqrtf cfg.frequency s.blocks) :
    QueueOk sqrtf cfg.frequency s.start.blocks := by
  unfold start
  split_ifs
  · exact h.modify (fun b => ⟨_, _, _, rfl, fun _ _ => rfl⟩) _
  · exact h

theorem queueOk_step (hs : IsSqrt sqrtf) (hmin : cfg.minimumPlannerSpeed = 0)
    (h : QueueOk sqrtf cfg.frequency s.blocks) {e : PlannerEvent K}
    (hpos : ∀ move, e = .append move → move.Positive) :
    QueueOk sqrtf cfg.frequency (s.step sqrtf cfg e).blocks := by
  cases e with
  | append move => exact queueOk_append hs hmin h (hpos move rfl)
  | start => exact queueOk_start h
  | finish =>
    simp only [step, finish]
    split_ifs <;> exact h
  | collect =>
    simp only [step, collect]
    split_ifs
    · exact h
    · exact h.dropLast

theorem queueOk_run (hs : IsSqrt sqrtf) (hmin : cfg.minimumPlannerSpeed = 0)
    (h : QueueOk sqrtf cfg.frequency s.blocks) {events : List (PlannerEvent K)}
    (hpos : ∀ move, .append move ∈ events → move.Positive) :
    QueueOk sqrtf cfg.frequency (s.run sqrtf cfg events).blocks := by
  induction events generalizing s with
  | nil => exact h
  | cons e events ih =>
    refine ih (queueOk_step hs hmin h ?_) fun move hmove => hpos move (List.mem_cons_of_mem _ hmove)
    rintro move rfl
    exact hpos move (by simp)

end Planner

theorem isSqrt_real : IsSqrt Real.sqrt := ⟨Real.sqrt_nonneg, fun _ => Real.mul_self_sqrt⟩

/-- In every state the planner and the step ticker reach, every queued block keeps its limits, ends
at the speed the next one starts at, with its trapezoid worked out for just these speeds, and
changes its speed by no more than its acceleration allows; and the newest block stops. -/
theorem plan_feasible {cfg : PlannerConfig ℝ} (hmin : cfg.minimumPlannerSpeed = 0)
    {events : List (PlannerEvent ℝ)} (hpos : ∀ move, .append move ∈ events → move.Positive)
    {s : Planner ℝ} (hrun : Planner.run Real.sqrt cfg {} events = s) :
    (∀ b ∈ s.blocks, 0 ≤ b.entrySpeed ∧ b.entrySpeed ≤ b.maxEntrySpeed ∧
      b.maxEntrySpeed ≤ b.nominalSpeed) ∧
    (∀ b ∈ s.blocks, b.profile = b.trapezoid Real.sqrt cfg.frequency b.entrySpeed b.exitSpeed) ∧
    s.blocks.IsChain (fun newer older => older.exitSpeed = newer.entrySpeed) ∧
    (∀ b ∈ s.blocks,
      b.exitSpeed ^ 2 - b.entrySpeed ^ 2 ≤ 2 * b.acceleration * b.millimeters ∧
      b.entrySpeed ^ 2 - b.exitSpeed ^ 2 ≤ 2 * b.acceleration * b.millimeters) ∧
    (∀ b ∈ s.blocks.head?, b.exitSpeed = 0) := by
  have h : QueueOk Real.sqrt cfg.frequency s.blocks := by
    rw [← hrun]
    exact Planner.queueOk_run isSqrt_real hmin ⟨by simp, by simp, by simp⟩ hpos
  refine ⟨fun b hb => ?_, fun b hb => (h.whole b hb).planned, h.joined.imp fun _ _ hj => hj.speed,
    fun b hb => ?_, h.newest⟩
  · have hw := h.whole b hb
    exact ⟨hw.entry_nonneg, hw.entry_le, hw.max_le⟩
  · have hw := h.whole b hb
    have hd := hw.decel
    have ha := hw.accel
    constructor <;> nlinarith

/-! ### The length of the queue -/

theorem length_passes {K : Type*} [Field K] [LinearOrder K] [FloorRing K] (sqrtf : K → K)
    (frequency exitSpeed : K) (blocks : List (Block K)) :
    (passes sqrtf frequency exitSpeed blocks).1.length = blocks.length := by
  induction blocks generalizing exitSpeed with
  | nil => rfl
  | cons current rest ih =>
    cases rest with
    | nil => rfl
    | cons previous rest =>
      rw [passes]
      split
      · simp [ih]
      · rfl

/-- A move with steps leaves one block more. -/
theorem length_append {cfg : PlannerConfig ℝ} (s : Planner ℝ) {move : Move ℝ}
    (hsteps : ¬ move.steps.all (· = 0)) :
    (s.append Real.sqrt cfg move).blocks.length = s.blocks.length + 1 := by
  rw [Planner.append, if_neg hsteps]
  simp [recalculate, length_passes]

theorem length_start (s : Planner ℝ) : s.start.blocks.length = s.blocks.length := by
  rw [Planner.start]
  split
  · exact List.length_modify ..
  · rfl

/-- Two moves in a line, the first of them running. -/
theorem plan_feasible_two_moves :
    let move : Move ℝ :=
      { steps := [100, 0, 0], rate := 10, distance := 1, unitVec := some [1, 0, 0], acceleration := 200 }
    let s := Planner.run Real.sqrt
      { junctionDeviation := 1 / 100, minimumPlannerSpeed := 0, frequency := 100000 } {}
      [.append move, .start, .append move]
    s.blocks.length = 2 ∧
      s.blocks.IsChain (fun newer older => older.exitSpeed = newer.entrySpeed) ∧
      ∀ b ∈ s.blocks.head?, b.exitSpeed = 0 := by
  intro move s
  have hpos : move.Positive := ⟨by norm_num [move], by norm_num [move], by norm_num [move]⟩
  have hall : ∀ m, PlannerEvent.append m ∈ [.append move, .start, .append move] → m.Positive := by
    intro m hm
    obtain rfl : m = move := by simpa using hm
    exact hpos
  have hsteps : ¬ move.steps.all (· = 0) := by simp [move]
  have hlength : s.blocks.length = 2 :=
    (length_append _ hsteps).trans
      (congrArg (· + 1) ((length_start _).trans (length_append {} hsteps)))
  obtain ⟨-, -, hjoined, -, hnewest⟩ := plan_feasible rfl hall (s := s) rfl
  exact ⟨hlength, hjoined, hnewest⟩

end CarveraFirmware.Motion
