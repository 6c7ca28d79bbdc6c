import Mathlib

/-!
# Areas of memory in address order

A memory divided into areas, each beginning where the one before it ends. A mark closes a region,
and the next region begins behind it. No two free areas lie side by side, so releasing an area means
joining it with the free ones beside it.
-/

namespace CarveraFirmware.Areas

/-- A mark is lost when the list of the free areas no longer leads through it. -/
inductive Kind where
  | free | used | mark | lost
  deriving DecidableEq, Repr

def Kind.isMark : Kind → Bool
  | .mark | .lost => true
  | .free | .used => false

/-- The kinds that the list of the free areas leads through. -/
def Kind.linked : Kind → Bool
  | .free | .mark => true
  | .used | .lost => false

structure Area where
  start : Nat
  size : Nat
  kind : Kind
  deriving DecidableEq, Repr

/-- `b` comes after `a`: at its end, or across one of the gaps between two regions. -/
def Next (gaps : List (Nat × Nat)) (a b : Area) : Prop :=
  (if a.kind.isMark then (a.start, b.start) ∈ gaps else b.start = a.start + a.size) ∧
    ¬(a.kind = .free ∧ b.kind = .free)

def Tiled (gaps : List (Nat × Nat)) (areas : List Area) : Prop := areas.IsChain (Next gaps)

/-- The starts of the areas on the list of the free ones. -/
def nodes (areas : List Area) : List Nat := (areas.filter (·.kind.linked)).map (·.start)

/-- The bytes in the areas of one kind. -/
def bytes (k : Kind) (areas : List Area) : Nat :=
  ((areas.filter (·.kind = k)).map (·.size)).sum

def count (k : Kind) (areas : List Area) : Nat := (areas.filter (·.kind = k)).length

/-- The starts of the marks. -/
def marks (areas : List Area) : List Nat := (areas.filter (·.kind.isMark)).map (·.start)

variable {gaps : List (Nat × Nat)} {areas before behind : List Area} {a b : Area} {k : Kind}

section Counting

@[simp] theorem nodes_nil : nodes [] = [] := rfl

@[simp] theorem nodes_append (before behind : List Area) :
    nodes (before ++ behind) = nodes before ++ nodes behind := by
  simp [nodes]

theorem nodes_cons_linked (h : a.kind.linked = true) : nodes (a :: areas) = a.start :: nodes areas := by
  simp [nodes, h]

theorem nodes_cons_unlinked (h : a.kind.linked = false) : nodes (a :: areas) = nodes areas := by
  simp [nodes, h]

theorem mem_nodes {x : Nat} : x ∈ nodes areas ↔ ∃ a ∈ areas, a.kind.linked = true ∧ a.start = x := by
  simp [nodes, and_assoc]

@[simp] theorem bytes_nil : bytes k [] = 0 := rfl

@[simp] theorem bytes_append (k : Kind) (before behind : List Area) :
    bytes k (before ++ behind) = bytes k before + bytes k behind := by
  simp [bytes]

@[simp] theorem bytes_cons (k : Kind) (a : Area) (areas : List Area) :
    bytes k (a :: areas) = (if a.kind = k then a.size else 0) + bytes k areas := by
  by_cases h : a.kind = k
  · simp [bytes, h]
  · simp [bytes, h]

@[simp] theorem count_nil : count k [] = 0 := rfl

@[simp] theorem count_append (k : Kind) (before behind : List Area) :
    count k (before ++ behind) = count k before + count k behind := by
  simp [count]

@[simp] theorem count_cons (k : Kind) (a : Area) (areas : List Area) :
    count k (a :: areas) = (if a.kind = k then 1 else 0) + count k areas := by
  by_cases h : a.kind = k
  · simp [count, h, Nat.add_comm]
  · simp [count, h]

@[simp] theorem marks_nil : marks [] = [] := rfl

@[simp] theorem marks_append (before behind : List Area) :
    marks (before ++ behind) = marks before ++ marks behind := by
  simp [marks]

theorem marks_cons_mark (h : a.kind.isMark = true) : marks (a :: areas) = a.start :: marks areas := by
  simp [marks, h]

theorem marks_cons_block (h : a.kind.isMark = false) : marks (a :: areas) = marks areas := by
  simp [marks, h]

theorem mem_marks {x : Nat} : x ∈ marks areas ↔ ∃ a ∈ areas, a.kind.isMark = true ∧ a.start = x := by
  simp [marks, and_assoc]

theorem size_le_bytes (h : a ∈ areas) (hk : a.kind = k) : a.size ≤ bytes k areas := by
  obtain ⟨before, behind, rfl⟩ := List.append_of_mem h
  rw [bytes_append, bytes_cons, if_pos hk]
  omega

end Counting

section Tiling

theorem Tiled.left (h : Tiled gaps (before ++ behind)) : Tiled gaps before :=
  List.IsChain.left_of_append h

theorem Tiled.right (h : Tiled gaps (before ++ behind)) : Tiled gaps behind :=
  List.IsChain.right_of_append h

/-- A tiling says nothing of an area but how it joins on to the ones beside it. -/
theorem Tiled.replace (h : Tiled gaps (before ++ a :: behind))
    (hbefore : ∀ x ∈ before.getLast?, Next gaps x a → Next gaps x b)
    (hbehind : ∀ y ∈ behind.head?, Next gaps a y → Next gaps b y) :
    Tiled gaps (before ++ b :: behind) := by
  unfold Tiled at h ⊢
  rw [List.isChain_split] at h ⊢
  constructor
  · rw [List.isChain_append] at h ⊢
    refine ⟨h.1.1, List.isChain_singleton b, ?_⟩
    intro x hx y hy
    have hnext := h.1.2.2 x hx a rfl
    cases hy
    exact hbefore x hx hnext
  · rw [List.isChain_cons] at h ⊢
    refine ⟨?_, h.2.2⟩
    intro y hy
    exact hbehind y hy (h.2.1 y hy)

/-- A free area is used as a whole. -/
theorem Tiled.use (h : Tiled gaps (before ++ a :: behind)) (ha : a.kind = .free) :
    Tiled gaps (before ++ { a with kind := .used } :: behind) := by
  refine h.replace ?_ ?_
  · intro x _ hx
    exact ⟨by simpa using hx.1, by simp⟩
  · intro y _ hy
    exact ⟨by simpa [ha, Kind.isMark] using hy.1, by simp⟩

/-- Part of a free area is used. -/
theorem Tiled.split (h : Tiled gaps (before ++ a :: behind)) (ha : a.kind = .free) {n : Nat}
    (hn : n ≤ a.size) :
    Tiled gaps (before ++ ⟨a.start, n, .used⟩ :: ⟨a.start + n, a.size - n, .free⟩ :: behind) := by
  unfold Tiled
  rw [List.isChain_append_cons_cons]
  refine ⟨?_, ⟨by simp [Kind.isMark], by simp⟩, ?_⟩
  · have hleft : Tiled gaps (before ++ [a]) := (List.isChain_split.mp h).1
    exact Tiled.replace hleft (fun x _ hx => ⟨by simpa using hx.1, by simp⟩) (by simp)
  · have hright : Tiled gaps ([] ++ a :: behind) := (List.isChain_split.mp h).2
    refine Tiled.replace hright (by simp) ?_
    intro y _ hy
    refine ⟨?_, ?_⟩
    · have hstart := hy.1
      simp only [ha, Kind.isMark, Bool.false_eq_true, if_false] at hstart ⊢
      omega
    · simpa [ha] using hy.2

/-- Two areas side by side become one. -/
theorem Tiled.join (h : Tiled gaps (before ++ a :: b :: behind)) (ha : a.kind.isMark = false)
    (hb : b.kind.isMark = false) :
    Tiled gaps (before ++ ⟨a.start, a.size + b.size, .used⟩ :: behind) := by
  unfold Tiled at h
  rw [List.isChain_append_cons_cons] at h
  obtain ⟨hleft, hab, hright⟩ := h
  have hstart : b.start = a.start + a.size := by simpa [ha] using hab.1
  unfold Tiled
  rw [List.isChain_split]
  constructor
  · have hleft : Tiled gaps (before ++ a :: []) := hleft
    exact hleft.replace (fun x _ hx => ⟨by simpa using hx.1, by simp⟩) (by simp)
  · have hright : Tiled gaps ([] ++ b :: behind) := hright
    refine hright.replace (by simp) ?_
    intro y _ hy
    refine ⟨?_, by simp⟩
    have hy := hy.1
    simp only [hb, Bool.false_eq_true, if_false] at hy
    simp only [Kind.isMark, Bool.false_eq_true, if_false]
    omega

/-- An area with no free one beside it is released. -/
theorem Tiled.release (h : Tiled gaps (before ++ a :: behind)) (ha : a.kind = .used)
    (hbefore : ∀ x ∈ before.getLast?, x.kind ≠ .free) (hbehind : ∀ y ∈ behind.head?, y.kind ≠ .free) :
    Tiled gaps (before ++ { a with kind := .free } :: behind) := by
  refine h.replace ?_ ?_
  · intro x hx hnext
    exact ⟨by simpa using hnext.1, fun hfree => hbefore x hx hfree.1⟩
  · intro y hy hnext
    exact ⟨by simpa [ha, Kind.isMark] using hnext.1, fun hfree => hbehind y hy hfree.2⟩

/-- A mark is lost where it stands. -/
theorem Tiled.lose (h : Tiled gaps (before ++ a :: behind)) (ha : a.kind = .mark) :
    Tiled gaps (before ++ { a with kind := .lost } :: behind) := by
  refine h.replace ?_ ?_
  · intro x _ hx
    exact ⟨by simpa using hx.1, by simp⟩
  · intro y _ hy
    exact ⟨by simpa [ha, Kind.isMark] using hy.1, by simp⟩

end Tiling

section Order

/-- The gaps lead upwards, and behind the mark. -/
def Upward (gaps : List (Nat × Nat)) (width : Nat) : Prop := ∀ s ∈ gaps, s.1 + width ≤ s.2

/-- Each mark takes `width` bytes, and no area is empty. -/
def Sized (width : Nat) (areas : List Area) : Prop :=
  ∀ a ∈ areas, 0 < a.size ∧ (a.kind.isMark = true → a.size = width)

/-- The areas lie one behind the other. -/
def Ordered (areas : List Area) : Prop := areas.Pairwise fun x y => x.start + x.size ≤ y.start

/-- Areas in a tiling do not overlap, and their starts ascend. -/
theorem Tiled.ordered {width : Nat} (h : Tiled gaps areas) (hup : Upward gaps width)
    (hsize : Sized width areas) : Ordered areas := by
  induction areas with
  | nil => exact List.Pairwise.nil
  | cons x areas ih =>
    have htail := ih (List.IsChain.tail h) fun y hy => hsize y (List.mem_cons_of_mem _ hy)
    refine List.pairwise_cons.mpr ⟨?_, htail⟩
    cases areas with
    | nil => simp
    | cons y areas =>
      have hxy : x.start + x.size ≤ y.start := by
        have hnext := (List.isChain_cons_cons.mp h).1.1
        split at hnext
        · next hmark =>
          have hwidth := (hsize x List.mem_cons_self).2 hmark
          have := hup _ hnext
          simp only at this
          omega
        · omega
      intro z hz
      obtain rfl | hz := List.mem_cons.mp hz
      · exact hxy
      · have := (List.pairwise_cons.mp htail).1 z hz
        omega

theorem Ordered.around (h : Ordered (before ++ a :: behind)) :
    (∀ x ∈ before, x.start + x.size ≤ a.start) ∧ (∀ y ∈ behind, a.start + a.size ≤ y.start) := by
  obtain ⟨-, hbehind, hbefore⟩ := List.pairwise_append.mp h
  exact ⟨fun x hx => hbefore x hx a List.mem_cons_self, (List.pairwise_cons.mp hbehind).1⟩

/-- An address is in one area at most. -/
theorem Ordered.eq_of_mem (h : Ordered areas) (ha : a ∈ areas) (hb : b ∈ areas) {x : Nat}
    (hax : a.start ≤ x) (hxa : x < a.start + a.size) (hbx : b.start ≤ x) (hxb : x < b.start + b.size) :
    b = a := by
  obtain ⟨before, behind, rfl⟩ := List.append_of_mem ha
  obtain ⟨hbefore, hbehind⟩ := h.around
  obtain hb | hb := List.mem_append.mp hb
  · have := hbefore b hb
    omega
  · obtain rfl | hb := List.mem_cons.mp hb
    · rfl
    · have := hbehind b hb
      omega

theorem Ordered.start_ne (h : Ordered (before ++ a :: behind)) (hsize : 0 < a.size)
    (hall : ∀ x ∈ before, 0 < x.size) (hb : b ∈ before ++ behind) : b.start ≠ a.start := by
  obtain ⟨hbefore, hbehind⟩ := h.around
  obtain hb | hb := List.mem_append.mp hb
  · have := hbefore b hb
    have := hall b hb
    omega
  · have := hbehind b hb
    omega

theorem Ordered.nodes_ascend (h : Ordered areas) (hsize : ∀ a ∈ areas, 0 < a.size) :
    (nodes areas).Pairwise (· < ·) := by
  induction areas with
  | nil => exact List.Pairwise.nil
  | cons a areas ih =>
    obtain ⟨hhead, htail⟩ := List.pairwise_cons.mp h
    have hih := ih htail fun x hx => hsize x (List.mem_cons_of_mem _ hx)
    by_cases ha : a.kind.linked = true
    · rw [nodes_cons_linked ha]
      refine List.pairwise_cons.mpr ⟨?_, hih⟩
      intro x hx
      obtain ⟨b, hb, -, rfl⟩ := mem_nodes.mp hx
      have := hhead b hb
      have := hsize a List.mem_cons_self
      omega
    · rw [nodes_cons_unlinked (Bool.eq_false_iff.mpr ha)]
      exact hih

end Order

/-! ## Spans -/

/-- The seams between spans, each given by where it begins and where its mark stands. -/
def seams : List (Nat × Nat) → List (Nat × Nat)
  | r :: r' :: spans => (r.2, r'.1) :: seams (r' :: spans)
  | _ => []

def Ascending (width : Nat) (spans : List (Nat × Nat)) : Prop :=
  (∀ r ∈ spans, r.1 ≤ r.2) ∧ spans.IsChain fun r r' => r.2 + width ≤ r'.1

section Spans

variable {width : Nat} {spans : List (Nat × Nat)} {r : Nat × Nat}

theorem Ascending.tail (h : Ascending width (r :: spans)) : Ascending width spans :=
  ⟨fun q hq => h.1 q (List.mem_cons_of_mem _ hq), h.2.tail⟩

theorem Ascending.upward (h : Ascending width spans) : Upward (seams spans) width := by
  induction spans with
  | nil => exact fun s hs => absurd hs List.not_mem_nil
  | cons r spans ih =>
    cases spans with
    | nil => exact fun s hs => absurd hs List.not_mem_nil
    | cons r' spans =>
      intro s hs
      obtain rfl | hs := List.mem_cons.mp hs
      · exact (List.isChain_cons_cons.mp h.2).1
      · exact ih h.tail s hs

theorem Ascending.le_of_mem (h : Ascending width (r :: spans)) : ∀ q ∈ spans, r.2 + width ≤ q.1 := by
  induction spans generalizing r with
  | nil => simp
  | cons r' spans ih =>
    have hnext := (List.isChain_cons_cons.mp h.2).1
    have hle := h.1 r' (by simp)
    intro q hq
    obtain rfl | hq := List.mem_cons.mp hq
    · exact hnext
    · have := ih h.tail q hq
      omega

theorem Ascending.lt_of_mem (h : Ascending width (r :: spans)) (hwidth : 0 < width) :
    ∀ q ∈ spans, r.2 < q.2 := by
  intro q hq
  have := h.le_of_mem q hq
  have := h.1 q (List.mem_cons_of_mem _ hq)
  omega

theorem exists_of_mem_seams : ∀ s ∈ seams spans, ∃ q ∈ spans, s.1 = q.2 := by
  induction spans with
  | nil => exact fun s hs => absurd hs List.not_mem_nil
  | cons r spans ih =>
    cases spans with
    | nil => exact fun s hs => absurd hs List.not_mem_nil
    | cons r' spans =>
      intro s hs
      obtain rfl | hs := List.mem_cons.mp hs
      · exact ⟨r, List.mem_cons_self, rfl⟩
      · obtain ⟨q, hq, hsq⟩ := ih s hs
        exact ⟨q, List.mem_cons_of_mem _ hq, hsq⟩

/-- Blocks that fill what is between two addresses. -/
def Fill (start : Nat) : List Area → Nat → Prop
  | [], stop => start = stop
  | b :: blocks, stop => b.start = start ∧ b.kind.isMark = false ∧ Fill (start + b.size) blocks stop

/-- Span by span, blocks fill what is in front of the mark. -/
def Covers : List (Nat × Nat) → List Area → Prop
  | [], areas => areas = []
  | r :: spans, areas => ∃ blocks m rest, areas = blocks ++ m :: rest ∧ Fill r.1 blocks r.2 ∧
      m.start = r.2 ∧ m.kind.isMark = true ∧ Covers spans rest

theorem Fill.bounds {blocks : List Area} {start stop : Nat} (h : Fill start blocks stop) :
    start ≤ stop ∧ ∀ b ∈ blocks, start ≤ b.start ∧ b.start + b.size ≤ stop := by
  induction blocks generalizing start with
  | nil => exact ⟨Nat.le_of_eq h, by simp⟩
  | cons b blocks ih =>
    obtain ⟨hstart, -, htail⟩ := h
    obtain ⟨hle, hblocks⟩ := ih htail
    refine ⟨by omega, ?_⟩
    intro c hc
    obtain rfl | hc := List.mem_cons.mp hc
    · omega
    · have := hblocks c hc
      omega

theorem Fill.blocks {blocks : List Area} {start stop : Nat} (h : Fill start blocks stop) :
    ∀ b ∈ blocks, b.kind.isMark = false := by
  induction blocks generalizing start with
  | nil => simp
  | cons b blocks ih =>
    obtain ⟨-, hb, htail⟩ := h
    exact List.forall_mem_cons.mpr ⟨hb, ih htail⟩

/-- Each area is in a span, in front of its mark, or it is the mark. -/
theorem Covers.in_span (h : Covers spans areas) : ∀ a ∈ areas, ∃ r ∈ spans, r.1 ≤ a.start ∧
    (a.start + a.size ≤ r.2 ∨ a.kind.isMark = true ∧ a.start = r.2) := by
  induction spans generalizing areas with
  | nil => rw [h]; simp
  | cons r spans ih =>
    obtain ⟨blocks, m, rest, rfl, hfill, hstart, hm, hrest⟩ := h
    obtain ⟨hle, hblocks⟩ := hfill.bounds
    intro a ha
    obtain ha | ha := List.mem_append.mp ha
    · exact ⟨r, List.mem_cons_self, (hblocks a ha).1, Or.inl (hblocks a ha).2⟩
    · obtain rfl | ha := List.mem_cons.mp ha
      · exact ⟨r, List.mem_cons_self, by omega, Or.inr ⟨hm, hstart⟩⟩
      · obtain ⟨q, hq, hin⟩ := ih hrest a ha
        exact ⟨q, List.mem_cons_of_mem _ hq, hin⟩

theorem exists_mark {e : Nat} {es : List Nat} (h : marks areas = e :: es) :
    ∃ blocks m rest, areas = blocks ++ m :: rest ∧ (∀ b ∈ blocks, b.kind.isMark = false) ∧
      m.kind.isMark = true ∧ m.start = e ∧ marks rest = es := by
  induction areas with
  | nil => exact absurd h (List.cons_ne_nil _ _).symm
  | cons x areas ih =>
    by_cases hx : x.kind.isMark = true
    · rw [marks_cons_mark hx] at h
      obtain ⟨he, hes⟩ := List.cons_eq_cons.mp h
      exact ⟨[], x, areas, rfl, by simp, hx, he, hes⟩
    · have hx := Bool.eq_false_iff.mpr hx
      rw [marks_cons_block hx] at h
      obtain ⟨blocks, m, rest, rfl, hblocks, hm⟩ := ih h
      exact ⟨x :: blocks, m, rest, rfl, List.forall_mem_cons.mpr ⟨hx, hblocks⟩, hm⟩

theorem fill_of_tiled {blocks : List Area} {m : Area} {start : Nat}
    (h : Tiled gaps (blocks ++ [m])) (hblocks : ∀ b ∈ blocks, b.kind.isMark = false)
    (hstart : ((blocks ++ [m]).head?.map (·.start)) = some start) : Fill start blocks m.start := by
  induction blocks generalizing start with
  | nil => exact (Option.some.inj hstart).symm
  | cons b blocks ih =>
    have hb := hblocks b List.mem_cons_self
    refine ⟨Option.some.inj hstart, hb, ?_⟩
    obtain rfl : b.start = start := Option.some.inj hstart
    refine ih h.tail (fun x hx => hblocks x (List.mem_cons_of_mem _ hx)) ?_
    have hhead := (List.isChain_cons.mp h).1
    cases hnext : (blocks ++ [m]).head? with
    | none => exact absurd (List.head?_eq_none_iff.mp hnext) (by simp)
    | some y =>
      have hy := (hhead y hnext).1
      rw [hb] at hy
      exact congrArg some hy

/-- A tiling whose marks are those of the spans, and which begins with the first of them, covers them. -/
theorem covers_of_tiled (hspans : Ascending width spans) (hwidth : 0 < width)
    (htiled : Tiled (seams spans) areas) (hmarks : marks areas = spans.map Prod.snd)
    (hfirst : areas.head?.map (·.start) = spans.head?.map Prod.fst) : Covers spans areas := by
  induction spans generalizing areas with
  | nil => exact List.head?_eq_none_iff.mp (by simpa using hfirst)
  | cons r spans ih =>
    obtain ⟨blocks, m, rest, rfl, hblocks, hm, hstart, hrest⟩ := exists_mark hmarks
    have hcut := List.isChain_split.mp htiled
    refine ⟨blocks, m, rest, rfl, ?_, hstart, hm, ?_⟩
    · rw [← hstart]
      refine fill_of_tiled hcut.1 hblocks ?_
      cases blocks with
      | nil => exact hfirst
      | cons b blocks => exact hfirst
    · have hlt := hspans.lt_of_mem hwidth
      -- the seams behind this mark are those of the spans behind it
      have hseams : ∀ x ∈ rest, ∀ y, Next (seams (r :: spans)) x y → Next (seams spans) x y := by
        intro x hx y hxy
        refine ⟨?_, hxy.2⟩
        have hnext := hxy.1
        split at hnext
        · next hmark =>
          rw [if_pos hmark]
          cases spans with
          | nil => exact hnext
          | cons r' spans =>
            obtain heq | hmem := List.mem_cons.mp hnext
            · have hxm : x.start ∈ marks rest := mem_marks.mpr ⟨x, hx, hmark, rfl⟩
              rw [hrest] at hxm
              obtain ⟨q, hq, hqx⟩ := List.mem_map.mp hxm
              have := hlt q hq
              have := congrArg Prod.fst heq
              simp only at this
              omega
            · exact hmem
        · next hmark =>
          rw [if_neg hmark]
          exact hnext
      refine ih hspans.tail (hcut.2.tail.imp_of_mem_imp fun x y hx _ hxy => hseams x hx y hxy) hrest ?_
      cases hnext : rest.head? with
      | none =>
        rw [List.head?_eq_none_iff.mp hnext] at hrest
        rw [List.map_eq_nil_iff.mp hrest.symm]
        rfl
      | some y =>
        have hy := ((List.isChain_cons.mp hcut.2).1 y hnext).1
        rw [if_pos hm] at hy
        cases spans with
        | nil => exact absurd hy List.not_mem_nil
        | cons r' spans =>
          obtain heq | hmem := List.mem_cons.mp hy
          · exact congrArg some (congrArg Prod.snd heq)
          · exfalso
            obtain ⟨q, hq, hqm⟩ := exists_of_mem_seams _ hmem
            have := hlt q hq
            simp only at hqm
            omega

end Spans

/-! ## Releasing an area -/

/-- The area that is released joins the free one in front of it: what is left in front, and where the
area now begins, and its size. -/
inductive JoinsFront (before : List Area) (a : Area) : List Area → Nat → Nat → Prop
  | apart (hfront : ∀ x ∈ before.getLast?, x.kind ≠ .free) : JoinsFront before a before a.start a.size
  | joined {rest : List Area} {f : Area} (hbefore : before = rest ++ [f]) (hf : f.kind = .free) :
      JoinsFront before a rest f.start (f.size + a.size)

/-- It takes in what lies behind it: a free area, or the place of a mark on the list, but not of the last. -/
inductive JoinsBack (behind : List Area) : List Area → Nat → Prop
  | apart (hback : ∀ y ∈ behind.head?, y.kind.linked = true → behind = [y] ∧ y.kind = .mark) :
      JoinsBack behind behind 0
  | joined {rest : List Area} {c : Area} (hbehind : behind = c :: rest) (hc : c.kind = .free) :
      JoinsBack behind rest c.size
  | lost {rest : List Area} {c : Area} (hbehind : behind = c :: rest) (hc : c.kind = .mark)
      (hrest : rest ≠ []) : JoinsBack behind ({ c with kind := .lost } :: rest) 0

theorem exists_joinsFront (before : List Area) (a : Area) :
    ∃ rest start size, JoinsFront before a rest start size := by
  cases hlast : before.getLast? with
  | none => exact ⟨_, _, _, .apart (by simp [hlast])⟩
  | some f =>
    by_cases hf : f.kind = .free
    · exact ⟨_, _, _, .joined (List.dropLast_append_getLast? f hlast).symm hf⟩
    · refine ⟨_, _, _, .apart ?_⟩
      intro x hx
      rw [hlast] at hx
      cases hx
      exact hf

theorem exists_joinsBack (behind : List Area) : ∃ rest extra, JoinsBack behind rest extra := by
  cases behind with
  | nil => exact ⟨_, _, .apart (by simp)⟩
  | cons c rest =>
    by_cases hfree : c.kind = .free
    · exact ⟨_, _, .joined rfl hfree⟩
    · by_cases hmark : c.kind = .mark ∧ rest ≠ []
      · exact ⟨_, _, .lost rfl hmark.1 hmark.2⟩
      · refine ⟨_, _, .apart ?_⟩
        intro y hy hlinked
        obtain rfl : c = y := by simpa using hy
        have hk : c.kind = .mark := by
          cases hkind : c.kind with
          | free => exact absurd hkind hfree
          | used => rw [hkind] at hlinked; exact absurd hlinked (by decide)
          | mark => rfl
          | lost => rw [hkind] at hlinked; exact absurd hlinked (by decide)
        have hrest : rest = [] := by
          by_contra hne
          exact hmark ⟨hk, hne⟩
        exact ⟨by rw [hrest], hk⟩

section Release

variable {rest rest' : List Area} {start size extra : Nat}

theorem JoinsFront.tiled (hjoin : JoinsFront before a rest start size)
    (h : Tiled gaps (before ++ a :: behind)) (ha : a.kind = .used) :
    Tiled gaps (rest ++ ⟨start, size, .used⟩ :: behind) ∧ ∀ x ∈ rest.getLast?, x.kind ≠ .free := by
  cases hjoin with
  | apart hfront =>
    obtain ⟨start, size, kind⟩ := a
    cases ha
    exact ⟨h, hfront⟩
  | joined hbefore hf =>
    subst hbefore
    rw [List.append_assoc] at h
    refine ⟨Tiled.join h (by rw [hf]; rfl) (by rw [ha]; rfl), ?_⟩
    intro x hx hfree
    exact ((List.isChain_append.mp h).2.2 x hx _ rfl).2 ⟨hfree, hf⟩

theorem JoinsBack.tiled (hjoin : JoinsBack behind rest extra)
    (h : Tiled gaps (before ++ ⟨start, size, .used⟩ :: behind)) :
    Tiled gaps (before ++ ⟨start, size + extra, .used⟩ :: rest) ∧ ∀ y ∈ rest.head?, y.kind ≠ .free := by
  cases hjoin with
  | apart hback =>
    refine ⟨h, ?_⟩
    intro y hy hfree
    have hlast := (hback y hy (by rw [hfree]; rfl)).2
    rw [hfree] at hlast
    exact absurd hlast (by decide)
  | joined hbehind hc =>
    subst hbehind
    refine ⟨Tiled.join h rfl (by rw [hc]; rfl), ?_⟩
    intro y hy hfree
    have hright := (List.IsChain.right_of_append h).tail
    exact (List.IsChain.rel_head? hright hy).2 ⟨hc, hfree⟩
  | @lost rest c hbehind hc hrest =>
    subst hbehind
    refine ⟨?_, by simp⟩
    have h : Tiled gaps ((before ++ [⟨start, size, .used⟩]) ++ c :: rest) := by simpa using h
    simpa using h.lose hc

/-- Released, the area is free, with what it has joined. -/
theorem tiled_released (hfront : JoinsFront before a rest start size)
    (hback : JoinsBack behind rest' extra) (h : Tiled gaps (before ++ a :: behind)) (ha : a.kind = .used) :
    Tiled gaps (rest ++ ⟨start, size + extra, .free⟩ :: rest') := by
  obtain ⟨hjoined, hlast⟩ := hfront.tiled h ha
  obtain ⟨hjoined, hhead⟩ := hback.tiled hjoined
  exact Tiled.release hjoined rfl hlast hhead

theorem JoinsFront.subset (hjoin : JoinsFront before a rest start size) : ∀ b ∈ rest, b ∈ before := by
  cases hjoin with
  | apart => exact fun b hb => hb
  | joined hbefore hf =>
    rw [hbefore]
    exact fun b hb => List.mem_append_left _ hb

theorem JoinsFront.start_le (hjoin : JoinsFront before a rest start size)
    (h : Ordered (before ++ a :: behind)) : start ≤ a.start := by
  cases hjoin with
  | apart => exact le_rfl
  | @joined rest f hbefore hf =>
    have := h.around.1 f (by simp [hbefore])
    omega

/-- An area behind is as it was, or it is a mark that is lost. -/
theorem JoinsBack.mem (hjoin : JoinsBack behind rest extra) : ∀ b ∈ rest, ∃ c ∈ behind,
    b.start = c.start ∧ b.size = c.size ∧ (b = c ∨ c.kind = .mark ∧ b.kind = .lost) := by
  cases hjoin with
  | apart => exact fun b hb => ⟨b, hb, rfl, rfl, Or.inl rfl⟩
  | joined hbehind hc =>
    rw [hbehind]
    exact fun b hb => ⟨b, List.mem_cons_of_mem _ hb, rfl, rfl, Or.inl rfl⟩
  | @lost rest c hbehind hc =>
    rw [hbehind]
    intro b hb
    obtain rfl | hb := List.mem_cons.mp hb
    · exact ⟨c, List.mem_cons_self, rfl, rfl, Or.inr ⟨hc, rfl⟩⟩
    · exact ⟨b, List.mem_cons_of_mem _ hb, rfl, rfl, Or.inl rfl⟩

theorem JoinsFront.head (hjoin : JoinsFront before a rest start size) (b : Area) (hb : b.start = start)
    (back : List Area) : (rest ++ b :: back).head?.map (·.start) =
      (before ++ a :: behind).head?.map (·.start) := by
  cases hjoin with
  | apart =>
    cases before with
    | nil => exact congrArg some hb
    | cons x before => rfl
  | joined hbefore hf =>
    subst hbefore
    cases rest with
    | nil => exact congrArg some hb
    | cons x rest => rfl

/-- The last mark stays the last area. -/
theorem JoinsBack.last (hjoin : JoinsBack behind rest extra) {m : Area} (hm : m ∈ behind.getLast?)
    (hmark : m.kind = .mark) : m ∈ rest.getLast? := by
  cases hjoin with
  | apart => exact hm
  | @joined rest c hbehind hc =>
    subst hbehind
    cases rest with
    | nil =>
      have hcm : c = m := Option.some.inj hm
      rw [← hcm, hc] at hmark
      exact absurd hmark (by decide)
    | cons x rest => exact hm
  | lost hbehind hc hrest =>
    subst hbehind
    obtain ⟨x, rest, rfl⟩ := List.exists_cons_of_ne_nil hrest
    exact hm

theorem JoinsFront.marks (hjoin : JoinsFront before a rest start size) : marks rest = marks before := by
  cases hjoin with
  | apart => rfl
  | joined hbefore hf =>
    rw [hbefore, marks_append, marks_cons_block (by rw [hf]; rfl), marks_nil, List.append_nil]

theorem JoinsBack.marks (hjoin : JoinsBack behind rest extra) : marks rest = marks behind := by
  cases hjoin with
  | apart => rfl
  | joined hbehind hc => rw [hbehind, marks_cons_block (by rw [hc]; rfl)]
  | @lost rest c hbehind hc =>
    rw [hbehind, marks_cons_mark (a := c) (by rw [hc]; rfl)]
    exact marks_cons_mark (a := ⟨c.start, c.size, .lost⟩) rfl

theorem JoinsFront.bytes_free (hjoin : JoinsFront before a rest start size) :
    bytes .free rest + size = bytes .free before + a.size := by
  cases hjoin with
  | apart => rfl
  | joined hbefore hf =>
    rw [hbefore, bytes_append, bytes_cons, if_pos hf, bytes_nil]
    omega

theorem JoinsBack.bytes_free (hjoin : JoinsBack behind rest extra) :
    bytes .free rest + extra = bytes .free behind := by
  cases hjoin with
  | apart => rfl
  | joined hbehind hc =>
    rw [hbehind, bytes_cons, if_pos hc]
    omega
  | lost hbehind hc => simp [hbehind, hc]

theorem JoinsFront.filter_used (hjoin : JoinsFront before a rest start size) :
    rest.filter (·.kind = .used) = before.filter (·.kind = .used) := by
  cases hjoin with
  | apart => rfl
  | joined hbefore hf => simp [hbefore, hf]

theorem JoinsBack.filter_used (hjoin : JoinsBack behind rest extra) :
    rest.filter (·.kind = .used) = behind.filter (·.kind = .used) := by
  cases hjoin with
  | apart => rfl
  | joined hbehind hc => simp [hbehind, hc]
  | lost hbehind hc => simp [hbehind, hc]

/-- The areas in use are those that were, but for the one released. -/
theorem filter_used_released (hfront : JoinsFront before a rest start size)
    (hback : JoinsBack behind rest' extra) :
    (rest ++ ⟨start, size + extra, .free⟩ :: rest').filter (·.kind = .used) =
      (before ++ behind).filter (·.kind = .used) := by
  rw [List.filter_append, List.filter_append, hfront.filter_used, ← hback.filter_used]
  simp

end Release

end CarveraFirmware.Areas
