import Mathlib
import CarveraFirmware.Gcode.ExpressionMeaning

/-!
# Precedence

Expressions as they are usually read: a power binds closest, then the operators of a term, those of a sum,
the comparisons, and the connectives last, and operators that bind equally are grouped from the left. The
evaluator groups powers, comparisons and connectives from the right.
-/

namespace CarveraFirmware.Gcode

open Jobs.OCode (isSpace ltrim strtol)

variable {F : Type}

/-- An expression as it is written, with its brackets. `spaced` says that white space stands in front of a
`^`, or between the name of a function and its bracket, where the evaluator skips none. -/
inductive Formula where
  | number (text : List Char)
  | var (num : Int)
  | call (f : Function) (spaced : Bool) (x : Formula)
  | bracket (x : Formula)
  | pow (spaced : Bool) (x y : Formula)
  | term (op : TermOp) (x y : Formula)
  | sum (op : SumOp) (x y : Formula)
  | compare (op : Comparison) (x y : Formula)
  | connect (op : Connective) (x y : Formula)
  deriving DecidableEq, Repr

/-- An operator whose chains have one value, however they are grouped. -/
def Connective.associates : Connective → Bool
  | and | or | xor => true
  | nor => false

/-- The numbers that stand for false and true are told apart. -/
def FloatOps.TellsOfBool (A : FloatOps F) : Prop :=
  A.isZero (A.ofNat 0) = true ∧ A.isZero (A.ofNat 1) = false

namespace Formula

/-- The expression without its brackets: what is written means what this means. -/
def expr : Formula → Expr
  | number text => .number text
  | var num => .var num
  | call f _ x => .call f x.expr
  | bracket x => x.expr
  | pow _ x y => .pow x.expr y.expr
  | term op x y => .term op x.expr y.expr
  | sum op x y => .sum op x.expr y.expr
  | compare op x y => .compare op x.expr y.expr
  | connect op x y => .connect op x.expr y.expr

def isPow : Formula → Bool
  | pow _ _ _ => true
  | _ => false

/-- A comparison or a connective is the operator that binds least. -/
def joins : Formula → Bool
  | compare _ _ _ => true
  | connect _ _ _ => true
  | _ => false

/-- Without brackets no power stands on the left of a power, and no comparison or connective on the left of
another one. -/
def Plain : Formula → Prop
  | number _ => True
  | var _ => True
  | call _ _ x => x.Plain
  | bracket x => x.Plain
  | pow _ x y => x.isPow = false ∧ x.Plain ∧ y.Plain
  | term _ x y => x.Plain ∧ y.Plain
  | sum _ x y => x.Plain ∧ y.Plain
  | compare _ x y => x.joins = false ∧ x.Plain ∧ y.Plain
  | connect _ x y => x.joins = false ∧ x.Plain ∧ y.Plain

/-- The last operator is this one, between two sides of which the right one is no comparison. -/
def endsIn (op : Connective) : Formula → Bool
  | connect op' _ y => op' = op && !y.joins
  | _ => false

/-- As before, but chains of `and`, of `or` or of `xor` may stand on the left of the same operator. -/
def Steady : Formula → Prop
  | number _ => True
  | var _ => True
  | call _ _ x => x.Steady
  | bracket x => x.Steady
  | pow _ x y => x.isPow = false ∧ x.Steady ∧ y.Steady
  | term _ x y => x.Steady ∧ y.Steady
  | sum _ x y => x.Steady ∧ y.Steady
  | compare _ x y => x.joins = false ∧ x.Steady ∧ y.Steady
  | connect op x y =>
    (x.joins = false ∨ op.associates = true ∧ x.endsIn op = true) ∧ x.Steady ∧ y.Steady

/-- The evaluator skips all the white space. -/
def Tight : Formula → Prop
  | number _ => True
  | var _ => True
  | call _ spaced x => spaced = false ∧ x.Tight
  | bracket x => x.Tight
  | pow spaced x y => spaced = false ∧ x.Tight ∧ y.Tight
  | term _ x y => x.Tight ∧ y.Tight
  | sum _ x y => x.Tight ∧ y.Tight
  | compare _ x y => x.Tight ∧ y.Tight
  | connect _ x y => x.Tight ∧ y.Tight

/-- What the evaluator makes of an expression: alone, in front of an exponent, and in front of the rest of a
comparison or a connective. -/
structure Grouping where
  whole : Expr
  powOnto : Expr → Expr
  joinOnto : (Expr → Expr) → Expr

/-- What is not taken apart by what follows it. -/
def Grouping.closed (e : Expr) : Grouping := ⟨e, .pow e, fun k => k e⟩

def Grouping.pow (x y : Grouping) : Grouping :=
  { Grouping.closed (x.powOnto y.whole) with powOnto := fun e => x.powOnto (.pow y.whole e) }

/-- A comparison or a connective, which `join` makes of its two sides. -/
def Grouping.join (join : Expr → Expr → Expr) (x y : Grouping) : Grouping :=
  { Grouping.closed (x.joinOnto fun e => join e y.whole) with
    joinOnto := fun k => x.joinOnto fun e => join e (y.joinOnto k) }

/-- Powers, and comparisons and connectives, are grouped from the right. -/
def grouping : Formula → Grouping
  | number text => .closed (.number text)
  | var num => .closed (.var num)
  | call f _ x => .closed (.call f x.grouping.whole)
  | bracket x => .closed x.grouping.whole
  | pow _ x y => x.grouping.pow y.grouping
  | term op x y => .closed (.term op x.grouping.whole y.grouping.whole)
  | sum op x y => .closed (.sum op x.grouping.whole y.grouping.whole)
  | compare op x y => .join (.compare op) x.grouping y.grouping
  | connect op x y => .join (.connect op) x.grouping y.grouping

/-- The expression that the evaluator evaluates. -/
def grouped (x : Formula) : Expr := x.grouping.whole

theorem powOnto_closed {x : Formula} (h : x.isPow = false) (e : Expr) :
    x.grouping.powOnto e = .pow x.grouped e := by
  cases x with
  | pow spaced x y => exact absurd h (by simp [isPow])
  | _ => rfl

theorem joinOnto_closed {x : Formula} (h : x.joins = false) (k : Expr → Expr) :
    x.grouping.joinOnto k = k x.grouped := by
  cases x with
  | compare op x y => exact absurd h (by simp [joins])
  | connect op x y => exact absurd h (by simp [joins])
  | _ => rfl

theorem joinOnto_id (x : Formula) : x.grouping.joinOnto id = x.grouped := by
  induction x with
  | compare op x y _ ihy =>
    show x.grouping.joinOnto (fun e => .compare op e (y.grouping.joinOnto id)) = _
    rw [ihy]
    rfl
  | connect op x y _ ihy =>
    show x.grouping.joinOnto (fun e => .connect op e (y.grouping.joinOnto id)) = _
    rw [ihy]
    rfl
  | _ => rfl

/-! ### Whether the grouping is the usual one -/

end Formula

/-- How many operators, functions and operands an expression has. -/
def Expr.size : Expr → Nat
  | number _ => 1
  | var _ => 1
  | call _ x => x.size + 1
  | pow x y => x.size + y.size + 1
  | term _ x y => x.size + y.size + 1
  | sum _ x y => x.size + y.size + 1
  | compare _ x y => x.size + y.size + 1
  | connect _ x y => x.size + y.size + 1

theorem Expr.lt_size_add (x y : Expr) : x.size < x.size + y.size + 1 := by omega

/-- The size of the left side of a power, a comparison or a connective. -/
def Expr.leftSize : Expr → Nat
  | pow x _ => x.size
  | compare _ x _ => x.size
  | connect _ x _ => x.size
  | _ => 0

namespace Formula

/-- The sizes of what is made of an expression of size `n`. -/
structure Grouping.Sized (g : Grouping) (n : Nat) : Prop where
  whole : g.whole.size = n
  powOnto : ∀ e, (g.powOnto e).size = n + e.size + 1
  joinOnto : ∀ k c, (∀ e, (k e).size = e.size + c) → (g.joinOnto k).size = n + c

namespace Grouping

variable {x y : Grouping} {n m : Nat}

theorem sized_closed {e : Expr} (h : e.size = n) : (closed e).Sized n := by
  subst h
  exact ⟨rfl, fun _ => rfl, fun k c hk => hk e⟩

theorem Sized.pow (hx : x.Sized n) (hy : y.Sized m) : (x.pow y).Sized (n + m + 1) := by
  have hwhole : (x.powOnto y.whole).size = n + m + 1 := by rw [hx.powOnto, hy.whole]
  have hclosed := sized_closed hwhole
  refine ⟨hclosed.whole, ?_, hclosed.joinOnto⟩
  intro e
  show (x.powOnto (.pow y.whole e)).size = _
  rw [hx.powOnto, Expr.size, hy.whole]
  omega

theorem Sized.join (hx : x.Sized n) (hy : y.Sized m) {join : Expr → Expr → Expr}
    (hjoin : ∀ e e', (join e e').size = e.size + e'.size + 1) :
    (Grouping.join join x y).Sized (n + m + 1) := by
  have hwhole : (x.joinOnto fun e => join e y.whole).size = n + m + 1 := by
    refine hx.joinOnto _ (m + 1) fun e => ?_
    rw [hjoin, hy.whole, Nat.add_assoc]
  have hclosed := sized_closed hwhole
  refine ⟨hclosed.whole, hclosed.powOnto, ?_⟩
  intro k c hk
  have hall := hx.joinOnto (fun e => join e (y.joinOnto k)) (m + c + 1) fun e => by
    rw [hjoin, hy.joinOnto k c hk, Nat.add_assoc]
  refine hall.trans ?_
  omega

end Grouping

/-- The grouping changes no sizes. -/
theorem sized_grouping (x : Formula) : x.grouping.Sized x.expr.size := by
  induction x with
  | number text => exact Grouping.sized_closed rfl
  | var num => exact Grouping.sized_closed rfl
  | call f spaced x ih => exact Grouping.sized_closed (congrArg (· + 1) ih.whole)
  | bracket x ih => exact Grouping.sized_closed ih.whole
  | pow spaced x y ihx ihy => exact ihx.pow ihy
  | term op x y ihx ihy =>
    refine Grouping.sized_closed ?_
    show x.grouping.whole.size + y.grouping.whole.size + 1 = x.expr.size + y.expr.size + 1
    rw [ihx.whole, ihy.whole]
  | sum op x y ihx ihy =>
    refine Grouping.sized_closed ?_
    show x.grouping.whole.size + y.grouping.whole.size + 1 = x.expr.size + y.expr.size + 1
    rw [ihx.whole, ihy.whole]
  | compare op x y ihx ihy => exact ihx.join ihy fun _ _ => rfl
  | connect op x y ihx ihy => exact ihx.join ihy fun _ _ => rfl

theorem leftSize_powOnto (x : Formula) (e : Expr) : (x.grouping.powOnto e).leftSize ≤ x.expr.size ∧
    (x.isPow = true → (x.grouping.powOnto e).leftSize < x.expr.size) := by
  induction x generalizing e with
  | pow spaced x y ihx _ =>
    have hleft := (ihx (.pow y.grouped e)).1
    have hlt := Nat.lt_of_le_of_lt hleft (x.expr.lt_size_add y.expr)
    exact ⟨hlt.le, fun _ => hlt⟩
  | _ =>
    refine ⟨?_, fun h => absurd h (by simp [isPow])⟩
    rw [powOnto_closed rfl]
    exact (sized_grouping _).whole.le

theorem leftSize_joinOnto (x : Formula) (k : Expr → Expr) (hk : ∀ e, (k e).leftSize = e.size) :
    (x.grouping.joinOnto k).leftSize ≤ x.expr.size ∧
      (x.joins = true → (x.grouping.joinOnto k).leftSize < x.expr.size) := by
  induction x generalizing k with
  | compare op x y ihx _ =>
    have hleft := (ihx (fun e => .compare op e (y.grouping.joinOnto k)) fun _ => rfl).1
    have hlt := Nat.lt_of_le_of_lt hleft (x.expr.lt_size_add y.expr)
    exact ⟨hlt.le, fun _ => hlt⟩
  | connect op x y ihx _ =>
    have hleft := (ihx (fun e => .connect op e (y.grouping.joinOnto k)) fun _ => rfl).1
    have hlt := Nat.lt_of_le_of_lt hleft (x.expr.lt_size_add y.expr)
    exact ⟨hlt.le, fun _ => hlt⟩
  | _ =>
    refine ⟨?_, fun h => absurd h (by simp [joins])⟩
    rw [joinOnto_closed rfl, hk]
    exact (sized_grouping _).whole.le

/-- Of a comparison or a connective on the left of another one, only a part stays on the left. -/
theorem join_eq_iff {x y : Formula} {join : Expr → Expr → Expr}
    (hleft : ∀ e e', (join e e').leftSize = e.size)
    (hinj : ∀ a b c d, join a b = join c d → a = c ∧ b = d)
    (hx : x.grouped = x.expr ↔ x.Plain) (hy : y.grouped = y.expr ↔ y.Plain) :
    (x.grouping.joinOnto fun e => join e y.grouped) = join x.expr y.expr ↔
      x.joins = false ∧ x.Plain ∧ y.Plain := by
  constructor
  · intro h
    have hjoins : x.joins = false := by
      by_contra hne
      have hlt := (leftSize_joinOnto x (fun e => join e y.grouped) fun e => hleft e _).2 (by simpa using hne)
      rw [h, hleft] at hlt
      exact absurd hlt (lt_irrefl _)
    rw [joinOnto_closed hjoins] at h
    obtain ⟨hsameX, hsameY⟩ := hinj _ _ _ _ h
    exact ⟨hjoins, hx.mp hsameX, hy.mp hsameY⟩
  · rintro ⟨hjoins, hplainX, hplainY⟩
    rw [joinOnto_closed hjoins, hx.mpr hplainX, hy.mpr hplainY]

/-- The grouping is the usual one for plain expressions, and for no others. -/
theorem grouped_eq_iff (x : Formula) : x.grouped = x.expr ↔ x.Plain := by
  induction x with
  | number text => exact iff_of_true rfl trivial
  | var num => exact iff_of_true rfl trivial
  | call f spaced x ih =>
    exact ⟨fun h => ih.mp (Expr.call.inj h).2, fun h => congrArg (Expr.call f) (ih.mpr h)⟩
  | bracket x ih => exact ih
  | term op x y ihx ihy =>
    constructor
    · intro h
      obtain ⟨-, hx, hy⟩ := Expr.term.inj h
      exact ⟨ihx.mp hx, ihy.mp hy⟩
    · rintro ⟨hx, hy⟩
      exact congrArg₂ (Expr.term op) (ihx.mpr hx) (ihy.mpr hy)
  | sum op x y ihx ihy =>
    constructor
    · intro h
      obtain ⟨-, hx, hy⟩ := Expr.sum.inj h
      exact ⟨ihx.mp hx, ihy.mp hy⟩
    · rintro ⟨hx, hy⟩
      exact congrArg₂ (Expr.sum op) (ihx.mpr hx) (ihy.mpr hy)
  | pow spaced x y ihx ihy =>
    constructor
    · intro h
      have hpow : x.isPow = false := by
        by_contra hne
        -- the left side of the first power is shorter than the whole chain in front of the last one
        have hlt := (leftSize_powOnto x y.grouped).2 (by simpa using hne)
        have hsame : (x.grouping.powOnto y.grouped).leftSize = x.expr.size := congrArg Expr.leftSize h
        omega
      have hwhole : Expr.pow x.grouped y.grouped = .pow x.expr y.expr := (powOnto_closed hpow _).symm.trans h
      obtain ⟨hx, hy⟩ := Expr.pow.inj hwhole
      exact ⟨hpow, ihx.mp hx, ihy.mp hy⟩
    · rintro ⟨hpow, hx, hy⟩
      exact (powOnto_closed hpow _).trans (congrArg₂ Expr.pow (ihx.mpr hx) (ihy.mpr hy))
  | compare op x y ihx ihy =>
    exact join_eq_iff (fun _ _ => rfl) (fun _ _ _ _ h => (Expr.compare.inj h).2) ihx ihy
  | connect op x y ihx ihy =>
    exact join_eq_iff (fun _ _ => rfl) (fun _ _ _ _ h => (Expr.connect.inj h).2) ihx ihy

/-! ## Chains of one connective -/

section Chains

variable {A : FloatOps F} {vars : Variables F} {op : Connective}

theorem isZero_ofBool (hA : A.TellsOfBool) (b : Bool) : A.isZero (ofBool A b) = !b := by
  cases b
  · exact hA.1
  · exact hA.2

theorem holds_assoc (hA : A.TellsOfBool) (hop : op.associates = true) (x y z : F) :
    op.holds A (ofBool A (op.holds A x y)) z = op.holds A x (ofBool A (op.holds A y z)) := by
  cases op with
  | and => simp [Connective.holds, isZero_ofBool hA, Bool.and_assoc]
  | or => simp [Connective.holds, isZero_ofBool hA, Bool.or_assoc]
  | xor => simp [Connective.holds, isZero_ofBool hA]
  | nor => exact absurd hop Bool.false_ne_true

theorem value_connect_assoc (hA : A.TellsOfBool) (hop : op.associates = true) (x y z : Expr) :
    (Expr.connect op (.connect op x y) z).value A vars =
      (Expr.connect op x (.connect op y z)).value A vars := by
  simp only [Expr.value]
  cases x.value A vars with
  | error text => rfl
  | ok v =>
    cases y.value A vars with
    | error text => rfl
    | ok w =>
      cases z.value A vars with
      | error text => rfl
      | ok u => exact congrArg (fun b => Except.ok (ofBool A b)) (holds_assoc hA hop v w u)

theorem value_connect_congr {x x' y y' : Expr} (hx : x.value A vars = x'.value A vars)
    (hy : y.value A vars = y'.value A vars) :
    (Expr.connect op x y).value A vars = (Expr.connect op x' y').value A vars := by
  rw [Expr.value, Expr.value, hx, hy]

/-- A steady expression has its value when it is grouped from the right, alone and as the left side of
a chain that goes on. -/
structure KeepsValue (A : FloatOps F) (vars : Variables F) (x : Formula) : Prop where
  whole : x.grouped.value A vars = x.expr.value A vars
  onto : ∀ op e, op.associates = true → (x.joins = false ∨ x.endsIn op = true) →
    (x.grouping.joinOnto fun e' => .connect op e' e).value A vars =
      (Expr.connect op x.expr e).value A vars

theorem KeepsValue.of_closed {x : Formula} (hjoins : x.joins = false)
    (h : x.grouped.value A vars = x.expr.value A vars) : KeepsValue A vars x where
  whole := h
  onto := by
    intro op e _ _
    rw [joinOnto_closed hjoins]
    exact value_connect_congr h rfl

theorem KeepsValue.connect {x y : Formula} (hA : A.TellsOfBool) (hx : KeepsValue A vars x)
    (hy : KeepsValue A vars y)
    (hchain : x.joins = false ∨ op.associates = true ∧ x.endsIn op = true) :
    KeepsValue A vars (.connect op x y) where
  whole := by
    show (x.grouping.joinOnto fun e => .connect op e y.grouped).value A vars = _
    obtain hjoins | ⟨hop, hend⟩ := hchain
    · rw [joinOnto_closed hjoins]
      exact value_connect_congr hx.whole hy.whole
    · rw [hx.onto op _ hop (.inr hend)]
      exact value_connect_congr rfl hy.whole
  onto := by
    intro op' e hop hend
    obtain ⟨rfl, hclosed⟩ : op = op' ∧ y.joins = false := by simpa [endsIn, joins] using hend
    show (x.grouping.joinOnto fun e' => .connect op e' (y.grouping.joinOnto
      fun e'' => .connect op e'' e)).value A vars = _
    rw [joinOnto_closed hclosed, hx.onto op _ hop (hchain.imp_right And.right),
      ← value_connect_assoc hA hop]
    exact value_connect_congr (value_connect_congr rfl hy.whole) rfl

theorem keepsValue (hA : A.TellsOfBool) (x : Formula) (h : x.Steady) : KeepsValue A vars x := by
  induction x with
  | number text => exact .of_closed rfl rfl
  | var num => exact .of_closed rfl rfl
  | call f spaced x ih =>
    refine .of_closed rfl ?_
    show (Expr.call f x.grouped).value A vars = (Expr.call f x.expr).value A vars
    rw [Expr.value, Expr.value, (ih h).whole]
  | bracket x ih => exact .of_closed rfl (ih h).whole
  | pow spaced x y ihx ihy =>
    obtain ⟨hpow, hx, hy⟩ := h
    refine .of_closed rfl ?_
    show (x.grouping.powOnto y.grouped).value A vars = (Expr.pow x.expr y.expr).value A vars
    rw [powOnto_closed hpow, Expr.value, Expr.value, (ihx hx).whole, (ihy hy).whole]
  | term op x y ihx ihy =>
    refine .of_closed rfl ?_
    show (Expr.term op x.grouped y.grouped).value A vars = (Expr.term op x.expr y.expr).value A vars
    rw [Expr.value, Expr.value, (ihx h.1).whole, (ihy h.2).whole]
  | sum op x y ihx ihy =>
    refine .of_closed rfl ?_
    show (Expr.sum op x.grouped y.grouped).value A vars = (Expr.sum op x.expr y.expr).value A vars
    rw [Expr.value, Expr.value, (ihx h.1).whole, (ihy h.2).whole]
  | compare op x y ihx ihy =>
    obtain ⟨hjoins, hx, hy⟩ := h
    refine ⟨?_, fun _ _ _ hend => absurd hend (by simp [joins, endsIn])⟩
    show (x.grouping.joinOnto fun e => .compare op e y.grouped).value A vars =
      (Expr.compare op x.expr y.expr).value A vars
    rw [joinOnto_closed hjoins, Expr.value, Expr.value, (ihx hx).whole, (ihy hy).whole]
  | connect op x y ihx ihy => exact .connect hA (ihx h.2.1) (ihy h.2.2) h.1

end Chains

end Formula

/-- How close the operators of a text bind, as they are usually read. -/
inductive Binding where
  | primary | power | term | sum | comparison | connective | expression
  deriving DecidableEq, Repr

/-- The texts that are usually read as an expression. -/
inductive Usual : Binding → List Char → Formula → Prop
  | number {text : List Char} (h : Decimal text) : Usual .primary text (.number text)
  | var {digits : List Char} {n : Int} (h : strtol digits = some (n, [])) :
      Usual .primary ('#' :: digits) (.var n)
  | call {ws s : List Char} {x : Formula} (f : Function) (hws : Spaces ws) (h : Usual .expression s x) :
      Usual .primary (f.word ++ (ws ++ '[' :: (s ++ [']']))) (.call f (!ws.isEmpty) x)
  | bracket {s : List Char} {x : Formula} (h : Usual .expression s x) :
      Usual .primary ('[' :: (s ++ [']'])) (.bracket x)
  | power {ws s : List Char} {x : Formula} (hws : Spaces ws) (h : Usual .primary s x) :
      Usual .power (ws ++ s) x
  | pow {ws ws' s t : List Char} {x y : Formula} (hx : Usual .power s x) (hws : Spaces ws)
      (hws' : Spaces ws') (hy : Usual .primary t y) :
      Usual .power (s ++ (ws ++ '^' :: (ws' ++ t))) (.pow (!ws.isEmpty) x y)
  | term {s : List Char} {x : Formula} (h : Usual .power s x) : Usual .term s x
  | product {ws s t : List Char} {x y : Formula} (op : TermOp) (hx : Usual .term s x) (hws : Spaces ws)
      (hy : Usual .power t y) : Usual .term (s ++ (ws ++ (op.word ++ t))) (.term op x y)
  | sum {s : List Char} {x : Formula} (h : Usual .term s x) : Usual .sum s x
  | plus {ws s t : List Char} {x y : Formula} (op : SumOp) (hx : Usual .sum s x) (hws : Spaces ws)
      (hy : Usual .term t y) : Usual .sum (s ++ (ws ++ (op.word ++ t))) (.sum op x y)
  | comparison {s : List Char} {x : Formula} (h : Usual .sum s x) : Usual .comparison s x
  | compare {ws s t : List Char} {x y : Formula} (op : Comparison) (hx : Usual .comparison s x)
      (hws : Spaces ws) (hy : Usual .sum t y) :
      Usual .comparison (s ++ (ws ++ (op.word ++ t))) (.compare op x y)
  | connective {s : List Char} {x : Formula} (h : Usual .comparison s x) : Usual .connective s x
  | connect {ws s t : List Char} {x y : Formula} (op : Connective) (hx : Usual .connective s x)
      (hws : Spaces ws) (hy : Usual .comparison t y) :
      Usual .connective (s ++ (ws ++ (op.word ++ t))) (.connect op x y)
  | expression {ws s : List Char} {x : Formula} (h : Usual .connective s x) (hws : Spaces ws) :
      Usual .expression (s ++ ws) x

/-! ## Where the two readings agree -/

theorem eq_nil_of_not_spaced {ws : List Char} (h : (!ws.isEmpty) = false) : ws = [] := by
  simpa using h

/-- How the evaluator spells what is usually read at a level, with what may follow it there. -/
def SpeltAt : Binding → List Char → Formula → Prop
  | .primary, s, x => x.isPow = false ∧ x.joins = false ∧ Spells Decimal .primary s x.grouped
  | .power, s, x => x.joins = false ∧ Spells Decimal .factor s x.grouped ∧
      ∀ t e, Spells Decimal .factor t e → Spells Decimal .factor (s ++ '^' :: t) (x.grouping.powOnto e)
  | .term, s, x => x.joins = false ∧ Spells Decimal .term s x.grouped
  | .sum, s, x => x.joins = false ∧ Spells Decimal .sum s x.grouped
  | .comparison, s, x => ∀ t k, (∀ s e, Spells Decimal .sum s e → Spells Decimal .expression (s ++ t) (k e)) →
      Spells Decimal .expression (s ++ t) (x.grouping.joinOnto k)
  | .connective, s, x => ∀ t k, (∀ s e, Spells Decimal .sum s e → Spells Decimal .expression (s ++ t) (k e)) →
      Spells Decimal .expression (s ++ t) (x.grouping.joinOnto k)
  | .expression, s, x => Spells Decimal .expression s x.grouped

theorem Usual.speltAt {level : Binding} {s : List Char} {x : Formula} (h : Usual level s x)
    (htight : x.Tight) : SpeltAt level s x := by
  -- On the derivation. A comparison takes what follows on its right, so the chains carry a
  -- continuation.
  induction h with
  | number h => exact ⟨rfl, rfl, .number h⟩
  | var h => exact ⟨rfl, rfl, .var h⟩
  | call f hws h ih =>
    obtain ⟨hnone, hx⟩ := htight
    obtain rfl := eq_nil_of_not_spaced hnone
    exact ⟨rfl, rfl, .call f (ih hx)⟩
  | bracket h ih => exact ⟨rfl, rfl, .bracket (ih htight)⟩
  | power hws h ih =>
    obtain ⟨hpow, hjoins, hx⟩ := ih htight
    refine ⟨hjoins, .factor hws hx, ?_⟩
    intro t e ht
    rw [Formula.powOnto_closed hpow, List.append_assoc]
    exact .pow hws hx ht
  | pow hx hws hws' hy ihx ihy =>
    obtain ⟨hnone, hx, hy⟩ := htight
    obtain rfl := eq_nil_of_not_spaced hnone
    obtain ⟨-, -, hleft⟩ := ihx hx
    obtain ⟨-, -, hright⟩ := ihy hy
    refine ⟨rfl, hleft _ _ (.factor hws' hright), ?_⟩
    intro t e ht
    have hall := hleft _ _ (.pow hws' hright ht)
    simp only [List.append_assoc, List.nil_append, List.cons_append] at hall ⊢
    exact hall
  | term h ih =>
    obtain ⟨hjoins, hx, -⟩ := ih htight
    exact ⟨hjoins, .term hx⟩
  | product op hx hws hy ihx ihy =>
    exact ⟨rfl, .product op (ihx htight.1).2 hws (ihy htight.2).2.1⟩
  | sum h ih => exact ⟨(ih htight).1, .sum (ih htight).2⟩
  | plus op hx hws hy ihx ihy => exact ⟨rfl, .plus op (ihx htight.1).2 hws (ihy htight.2).2⟩
  | comparison h ih =>
    intro t k hk
    obtain ⟨hjoins, hx⟩ := ih htight
    rw [Formula.joinOnto_closed hjoins]
    exact hk _ _ hx
  | compare op hx hws hy ihx ihy =>
    intro t k hk
    obtain ⟨hjoins, hright⟩ := ihy htight.2
    simp only [List.append_assoc]
    refine ihx htight.1 _ _ fun s e hs => ?_
    refine .compare op hs hws ?_
    rw [Formula.joinOnto_closed hjoins]
    exact hk _ _ hright
  | connective h ih => exact ih htight
  | connect op hx hws hy ihx ihy =>
    intro t k hk
    simp only [List.append_assoc]
    refine ihx htight.1 _ _ fun s e hs => ?_
    exact .connect op hs hws (ihy htight.2 t k hk)
  | expression h hws ih =>
    have hall := ih htight _ id fun s e hs => .expression hs hws
    rw [Formula.joinOnto_id] at hall
    exact hall

/-- The evaluation goes to the end of the text and gives what the expression means; where this is an error,
it is the first one that halts the machine. -/
def Evaluates (A : FloatOps F) (vars : Variables F) (s : List Char) (e : Expr) : Prop :=
  ∃ r, evaluateExpression A vars s = some r ∧ (∀ v, e.value A vars = .ok v → r = ⟨v, some [], []⟩) ∧
    ∀ text, e.value A vars = .error text → r.errors.head? = some text

theorem Evaluates.congr {A : FloatOps F} {vars : Variables F} {s : List Char} {e e' : Expr}
    (h : Evaluates A vars s e) (hvalue : e.value A vars = e'.value A vars) :
    Evaluates A vars s e' := by
  rw [Evaluates, hvalue] at h
  exact h

theorem Spells.evaluates (A : FloatOps F) (vars : Variables F) {s : List Char} {e : Expr}
    (h : Spells Decimal .expression s e) : Evaluates A vars s e := by
  unfold Evaluates
  cases he : e.value A vars with
  | ok v =>
    have heval := evaluateExpression_value h expressionStops_nil (by decide) he
    rw [List.append_nil] at heval
    refine ⟨_, heval, ?_, fun text htext => absurd htext (by simp)⟩
    intro w hw
    obtain rfl := Except.ok.inj hw
    rfl
  | error text =>
    obtain ⟨r, heval, hfault⟩ := evaluateExpression_fault h expressionStops_nil he
    rw [List.append_nil] at heval
    refine ⟨r, heval, fun v hv => absurd hv (by simp), ?_⟩
    intro first hfirst
    obtain rfl := Except.error.inj hfirst
    exact hfault

/-- A text is evaluated to what it means when powers, and comparisons and connectives, are grouped from the
right. This is the usual grouping if no power stands on the left of a power and no comparison or
connective on the left of another one, and only then. A chain of `and`, of `or` or of `xor` has its
usual value as well. -/
theorem evaluateExpression_usual (A : FloatOps F) (vars : Variables F) {s : List Char} {x : Formula}
    (h : Usual .expression s x) (htight : x.Tight) :
    Evaluates A vars s x.grouped ∧ (x.grouped = x.expr ↔ x.Plain) ∧
      (x.Plain → Evaluates A vars s x.expr) ∧
      (A.TellsOfBool → x.Steady → Evaluates A vars s x.expr) := by
  have hgrouped : Evaluates A vars s x.grouped := Spells.evaluates A vars (h.speltAt htight)
  refine ⟨hgrouped, x.grouped_eq_iff, ?_, ?_⟩
  · intro hplain
    rw [← x.grouped_eq_iff.mpr hplain]
    exact hgrouped
  · intro hA hsteady
    exact hgrouped.congr (Formula.keepsValue hA x hsteady).whole

/-- Exact arithmetic, where a power has a whole exponent. The functions of the library give back what they
are given. -/
def exactOps : FloatOps ℚ where
  nan := 0
  ofNat n := n
  ofText text :=
    let (negative, text) := signSplit text
    let value (digits : List Char) : ℚ := digits.foldl (fun n c => 10 * n + (c.toNat - '0'.toNat : Nat)) 0
    let frac := (text.dropWhile Char.isDigit).drop 1
    let x := value (text.takeWhile Char.isDigit) + value frac / 10 ^ frac.length
    if negative then -x else x
  add x y := x + y
  sub x y := x - y
  mul x y := x * y
  div x y := x / y
  fmod x y := x - y * (if 0 ≤ x / y then ⌊x / y⌋ else ⌈x / y⌉)
  pow x y := x ^ y.num
  libm _ x := x
  degToRad := 1
  isZero x := x = 0
  lt x y := x < y
  le x y := x ≤ y
  near x y := |x - y| < 1 / 1000000
  isNan _ := false
  isSet x := -100000 < x

def zeroVariables : Variables ℚ where
  localParams _ := 0
  localVars _ := 0
  probeTipDiameter := 0
  probeOutputs _ := 0
  permVars _ := 0
  system _ := 0

section Examples

theorem spaces_nil : Spaces [] := fun _ hc => absurd hc List.not_mem_nil

theorem usual_digit (c : Char) (hc : c.isDigit = true) : Usual .power [c] (.number [c]) :=
  .power spaces_nil (.number (decimal_digit c hc))

/-- `2+3*2`. -/
def sumOfProduct : Formula :=
  .sum .add (.number ['2']) (.term .mul (.number ['3']) (.number ['2']))

theorem usual_sumOfProduct : Usual .expression ['2', '+', '3', '*', '2'] sumOfProduct := by
  have hproduct := Usual.product .mul (.term (usual_digit '3' (by decide))) spaces_nil
    (usual_digit '2' (by decide))
  have hsum := Usual.plus .add (.sum (.term (usual_digit '2' (by decide)))) spaces_nil hproduct
  exact .expression (.connective (.comparison hsum)) spaces_nil

/-- `1 or 0 or 0`. -/
def chainOfOr : Formula :=
  .connect .or (.connect .or (.number ['1']) (.number ['0'])) (.number ['0'])

def chainOfOrText : List Char := ['1', ' ', 'o', 'r', ' ', '0', ' ', 'o', 'r', ' ', '0']

theorem spaces_one : Spaces [' '] := by
  intro c hc
  obtain rfl := List.mem_singleton.mp hc
  decide

theorem usual_spaced (c : Char) (hc : c.isDigit = true) : Usual .sum ([' '] ++ [c]) (.number [c]) :=
  .sum (.term (.power spaces_one (.number (decimal_digit c hc))))

theorem usual_chainOfOr : Usual .expression chainOfOrText chainOfOr := by
  have hone := Usual.connective (.comparison (.sum (.term (usual_digit '1' (by decide)))))
  have hzero := Usual.comparison (usual_spaced '0' (by decide))
  exact .expression (.connect .or (.connect .or hone spaces_one hzero) spaces_one hzero) spaces_nil

/-- Two expressions that have their usual values; the second is grouped from the right. -/
theorem evaluateExpression_usual_sumOfProduct :
    evaluateExpression exactOps zeroVariables ['2', '+', '3', '*', '2'] = some ⟨8, some [], []⟩ ∧
      evaluateExpression exactOps zeroVariables chainOfOrText = some ⟨1, some [], []⟩ := by
  constructor
  · have htight : sumOfProduct.Tight := by simp [sumOfProduct, Formula.Tight]
    have hplain : sumOfProduct.Plain := by simp [sumOfProduct, Formula.Plain]
    obtain ⟨-, -, husual, -⟩ :=
      evaluateExpression_usual exactOps zeroVariables usual_sumOfProduct htight
    obtain ⟨r, hr, hvalue, -⟩ := husual hplain
    have height : exactOps.add (exactOps.ofText ['2'])
        (exactOps.mul (exactOps.ofText ['3']) (exactOps.ofText ['2'])) = 8 := by decide +kernel
    rw [hr, hvalue 8 (congrArg Except.ok height)]
  · have htight : chainOfOr.Tight := by simp [chainOfOr, Formula.Tight]
    have hsteady : chainOfOr.Steady := by
      simp [chainOfOr, Formula.Steady, Formula.joins, Formula.endsIn, Connective.associates]
    have hbool : exactOps.TellsOfBool := by constructor <;> decide +kernel
    obtain ⟨-, -, -, husual⟩ :=
      evaluateExpression_usual exactOps zeroVariables usual_chainOfOr htight
    obtain ⟨r, hr, hvalue, -⟩ := husual hbool hsteady
    have hone : ofBool exactOps (Connective.or.holds exactOps (ofBool exactOps
        (Connective.or.holds exactOps (exactOps.ofText ['1']) (exactOps.ofText ['0'])))
          (exactOps.ofText ['0'])) = 1 := by decide +kernel
    rw [hr, hvalue 1 (congrArg Except.ok hone)]

/-- `0 eq 1 and 0`. -/
def lateConnective : Formula :=
  .connect .and (.compare .eq (.number ['0']) (.number ['1'])) (.number ['0'])

def lateConnectiveText : List Char := ['0', ' ', 'e', 'q', ' ', '1', ' ', 'a', 'n', 'd', ' ', '0']

theorem usual_lateConnective : Usual .expression lateConnectiveText lateConnective := by
  have hleft := Usual.comparison (.sum (.term (usual_digit '0' (by decide))))
  have hcompare := Usual.compare .eq hleft spaces_one (usual_spaced '1' (by decide))
  have hconnect := Usual.connect .and (.connective hcompare) spaces_one
    (.comparison (usual_spaced '0' (by decide)))
  exact .expression hconnect spaces_nil

/-- `0 eq 1 and 0` is usually 0, and comes to 1. -/
theorem lateConnective_not_usual : ¬∀ (s : List Char) (x : Formula) (v : ℚ), Usual .expression s x →
    x.expr.value exactOps zeroVariables = .ok v →
      evaluateExpression exactOps zeroVariables s = some ⟨v, some [], []⟩ := by
  intro h
  have hvalue : ofBool exactOps (Connective.and.holds exactOps
      (ofBool exactOps (Comparison.eq.holds exactOps (exactOps.ofText ['0']) (exactOps.ofText ['1'])))
        (exactOps.ofText ['0'])) = 0 := by decide +kernel
  have heval := h _ _ 0 usual_lateConnective (congrArg Except.ok hvalue)
  have hcode : evaluateExpression exactOps zeroVariables lateConnectiveText = some ⟨1, some [], []⟩ := by
    decide +kernel
  rw [hcode] at heval
  have hsame : (1 : ℚ) = 0 := congrArg Evaluated.value (Option.some.inj heval)
  exact absurd hsame (by decide)

end Examples

end CarveraFirmware.Gcode
