/-
Module: AndroidArt.Optimizing.InductionVarAnalysis
Purpose: The trip-count analysis of induction-variable analysis
  (compiler/optimizing/induction_var_analysis.cc): `VisitControl`, `VisitCondition`,
  `VisitTripCount`, `IsTaken`, `IsFinite`, `FitsNarrowerControl`, and `CreateSimplifiedInvariant`
  for the invariants they build; and the loop whose header test they read, run on Java values.
Trusted boundary: `IsExact`, `IsAtMost` and `IsAtLeast` (`InductionVarRange::IsConstant`) are
  given as a `RangeFacts` oracle, sound for the runtime values; the value of an invariant is that
  of the code `InductionVarRange::GenerateCode` emits for it (`HAdd`, `HSub`, `HDiv`, `HNeg` and
  the comparisons of its type); `RewriteBreakLoop`, which rewrites a loop's graph, is given as
  its outcome, and a loop it rewrote is the loop with the rewritten test.
Main exports: Invariant, RangeFacts, createSimplifiedInvariant, createSimplifiedInvariant_eval
-/
import AndroidArt.Optimizing.JavaSemantics
import AndroidArt.Lib.CountedLoop
import Mathlib.Data.Int.ModEq

namespace AndroidArt.Optimizing

/-- `HCondition::GetOppositeCondition`. -/
def IfCondition.opposite : IfCondition → IfCondition
  | .eq => .ne | .ne => .eq | .lt => .ge | .le => .gt | .gt => .le | .ge => .lt
  | .b => .ae | .be => .a | .a => .be | .ae => .b

namespace InductionVarAnalysis

open AndroidArt.Lib

/-- `HInductionVarAnalysis::InductionOp`: the operations of invariants and trip counts. -/
inductive InductionOp where
  | nop | add | sub | neg | mul | div | rem | xor | fetch
  | tripCountInLoop | tripCountInBody | tripCountInLoopUnsafe | tripCountInBodyUnsafe
  | lt | le | gt | ge
deriving DecidableEq, Repr

/-- An `InductionInfo` of class `kInvariant`: a fetch of an instruction defined outside the loop,
a constant (`CreateConstant`), or an operation on invariants at the precision `type`. The
instructions are `ι`. -/
inductive Invariant (ι : Type) where
  | fetch (instruction : ι) (type : DataType)
  | constant (value : Int) (type : DataType)
  | unary (op : InductionOp) (b : Invariant ι) (type : DataType)
  | binary (op : InductionOp) (a b : Invariant ι) (type : DataType)
deriving DecidableEq, Repr

namespace Invariant

variable {ι : Type}

/-- `info->type`. -/
def type : Invariant ι → DataType
  | fetch _ t | constant _ t | unary _ _ t | binary _ _ _ t => t

/-- `info->operation`. -/
def operation : Invariant ι → InductionOp
  | fetch _ _ | constant _ _ => .fetch
  | unary op _ _ | binary op _ _ _ => op

/-- The number of nodes, which the simplifier's recursion decreases. -/
def size : Invariant ι → Nat
  | fetch _ _ | constant _ _ => 1
  | unary _ b _ => b.size + 1
  | binary _ a b _ => a.size + b.size + 1

theorem size_pos (e : Invariant ι) : 0 < e.size := by
  cases e <;> simp [size]

end Invariant

/-- `ImplicitConversion(type)`: the types narrower than `int` compute as `int`. -/
def implicitConversion : DataType → DataType
  | .bool | .uint8 | .int8 | .uint16 | .int16 => .int32
  | t => t

/-- `DataType::MinValueOfIntegralType`, as the `int64_t` it returns. -/
def minValueOfIntegralType : DataType → Int
  | .int8 => -2 ^ 7
  | .int16 => -2 ^ 15
  | .int32 => -2 ^ 31
  | .int64 => -2 ^ 63
  | _ => 0

/-- `DataType::MaxValueOfIntegralType`, as the `int64_t` it returns: the `uint64_t` maximum
reads as `-1`. -/
def maxValueOfIntegralType : DataType → Int
  | .bool => 1
  | .uint8 => 2 ^ 8 - 1
  | .int8 => 2 ^ 7 - 1
  | .uint16 => 2 ^ 16 - 1
  | .int16 => 2 ^ 15 - 1
  | .uint32 => 2 ^ 32 - 1
  | .int32 => 2 ^ 31 - 1
  | .uint64 => -1
  | .int64 => 2 ^ 63 - 1
  | _ => 0

/-! ### The values of invariants -/

/-- A binary operation of an invariant on the values of its operands, as the code emitted for it
computes: Java arithmetic of the invariant's type, and `1` or `0` for a comparison. -/
def evalOp (op : InductionOp) (type : DataType) (x y : Int) : Option Int :=
  let test (cond : IfCondition) : Option Int := some (if Java.condition cond type x y then 1 else 0)
  match op with
  | .add => Java.binaryOp .add type x y
  | .sub => Java.binaryOp .sub type x y
  | .mul => Java.binaryOp .mul type x y
  | .div => Java.binaryOp .div type x y
  | .rem => Java.binaryOp .rem type x y
  | .xor => Java.binaryOp .xor type x y
  | .lt => test .lt
  | .le => test .le
  | .gt => test .gt
  | .ge => test .ge
  | _ => none

section EvalOp

variable {t : DataType} {x y : Int}

theorem evalOp_add : evalOp .add t x y = some (Java.wrap (Java.bitWidth t) (x + y)) := rfl

theorem evalOp_sub : evalOp .sub t x y = some (Java.wrap (Java.bitWidth t) (x - y)) := rfl

theorem evalOp_mul : evalOp .mul t x y = some (Java.wrap (Java.bitWidth t) (x * y)) := rfl

theorem evalOp_div :
    evalOp .div t x y = if y = 0 then none else some (Java.wrap (Java.bitWidth t) (x.tdiv y)) :=
  rfl

theorem evalOp_xor :
    evalOp .xor t x y =
      some (BitVec.ofInt (Java.bitWidth t) x ^^^ BitVec.ofInt (Java.bitWidth t) y).toInt :=
  rfl

theorem neg_eq_wrap : Java.neg t x = Java.wrap (Java.bitWidth t) (-x) := rfl

end EvalOp

/-- The value of an invariant, the instructions it fetches having the values `env`; `none` where
the code would throw (a zero divisor) or where the invariant is not one the code emits. -/
def Invariant.eval {ι : Type} (env : ι → Int) : Invariant ι → Option Int
  | .fetch x _ => some (env x)
  | .constant value _ => some value
  | .unary op b type => if op = .neg then (b.eval env).map (Java.neg type) else none
  | .binary op a b type => do evalOp op type (← a.eval env) (← b.eval env)

/-- What `InductionVarRange` proves of an invariant when the analysis asks `IsExact`, `IsAtMost`
or `IsAtLeast`. -/
structure RangeFacts (ι : Type) where
  isExact : Invariant ι → Option Int
  isAtMost : Invariant ι → Option Int
  isAtLeast : Invariant ι → Option Int

/-- The facts hold of the values of the invariants, the instructions having the values `env`. -/
structure RangeFacts.Sound {ι : Type} (facts : RangeFacts ι) (env : ι → Int) : Prop where
  isExact : ∀ e v, facts.isExact e = some v → e.eval env = some v
  isAtMost : ∀ e v, facts.isAtMost e = some v → ∀ x, e.eval env = some x → x ≤ v
  isAtLeast : ∀ e v, facts.isAtLeast e = some v → ∀ x, e.eval env = some x → v ≤ x

/-- What `InductionVarRange` knows of a constant: its value, exactly. -/
def constantFacts {ι : Type} : RangeFacts ι where
  isExact
    | .constant value _ => some value
    | _ => none
  isAtMost
    | .constant value _ => some value
    | _ => none
  isAtLeast
    | .constant value _ => some value
    | _ => none

theorem constantFacts_sound {ι : Type} (env : ι → Int) : (constantFacts : RangeFacts ι).Sound env := by
  refine ⟨fun e v h => ?_, fun e v h x hx => ?_, fun e v h x hx => ?_⟩ <;>
    cases e <;> simp only [constantFacts, reduceCtorEq, Option.some.injEq] at h <;>
    simp_all [Invariant.eval]

/-- Every node of the invariant computes in the type `t`, and the instructions it fetches and the
constants it holds have values of `t`. -/
def Invariant.Fits {ι : Type} (env : ι → Int) (t : DataType) : Invariant ι → Prop
  | .fetch x type => type = t ∧ t.InRange (env x)
  | .constant value type => type = t ∧ t.InRange value
  | .unary _ b type => type = t ∧ b.Fits env t
  | .binary _ a b type => type = t ∧ a.Fits env t ∧ b.Fits env t

section Values

variable {ι : Type} {env : ι → Int} {t : DataType} {op : InductionOp} {x y v : Int}

theorem Invariant.Fits.type {e : Invariant ι} (h : e.Fits env t) : e.type = t := by
  cases e <;> exact h.1

theorem implicitConversion_of_isIntOrLongType (ht : t.isIntOrLongType) :
    implicitConversion t = t := by
  cases t <;> simp_all [DataType.isIntOrLongType, implicitConversion]

/-- A value of an arithmetic type survives its own wrap-around. -/
theorem wrap_of_inRange (ht : t.isIntOrLongType) (h : t.InRange x) :
    Java.wrap (Java.bitWidth t) x = x :=
  Java.toInt_ofInt_of_inRange (Java.isUnsignedType_of_isIntOrLongType ht)
    (by cases t <;> simp_all [DataType.isIntOrLongType, DataType.size]) h

theorem evalOp_inRange (ht : t.isIntOrLongType) (hx : t.InRange x) (hy : t.InRange y)
    (h : evalOp op t x y = some v) : t.InRange v := by
  cases op <;> simp only [evalOp] at h
  case add | sub | mul | div | rem | xor => exact Java.binaryOp_inRange ht hx hy h
  -- a comparison is `1` or `0`
  case lt | le | gt | ge =>
    cases h
    split <;> exact DataType.InRange.of_int32 ht (by decide)
  all_goals contradiction

/-- The value of an invariant that fits `t` is a value of `t`. -/
theorem Invariant.Fits.eval_inRange {e : Invariant ι} (he : e.Fits env t) (ht : t.isIntOrLongType)
    (h : e.eval env = some v) : t.InRange v := by
  induction e generalizing v with
  | fetch x type =>
    cases h
    exact he.2
  | constant value type =>
    cases h
    exact he.2
  | unary op b type ihb =>
    simp only [Invariant.eval] at h
    split at h
    · obtain ⟨y, -, rfl⟩ := Option.map_eq_some_iff.mp h
      rw [he.1]
      exact Java.wrap_inRange (Java.isUnsignedType_of_isIntOrLongType ht) _
    · contradiction
  | binary op a b type iha ihb =>
    simp only [Invariant.eval, Option.bind_eq_bind, Option.bind_eq_some_iff] at h
    obtain ⟨x, hx, y, hy, h⟩ := h
    rw [he.1] at h
    exact evalOp_inRange ht (iha he.2.1 hx) (ihb he.2.2 hy) h

/-! The identities `CreateSimplifiedInvariant` applies, on the values of its operands. -/

theorem evalOp_zero_left (ht : t.isIntOrLongType) (hy : t.InRange y)
    (hop : op = .add ∨ op = .xor) : evalOp op t 0 y = some y := by
  rcases hop with rfl | rfl
  · rw [evalOp_add, Int.zero_add, wrap_of_inRange ht hy]
  · rw [evalOp_xor, BitVec.ofInt_ofNat, BitVec.zero_xor]
    exact congrArg some (wrap_of_inRange ht hy)

theorem evalOp_zero_right (ht : t.isIntOrLongType) (hx : t.InRange x)
    (hop : op = .add ∨ op = .sub ∨ op = .xor) : evalOp op t x 0 = some x := by
  rcases hop with rfl | rfl | rfl
  · rw [evalOp_add, Int.add_zero, wrap_of_inRange ht hx]
  · rw [evalOp_sub, Int.sub_zero, wrap_of_inRange ht hx]
  · rw [evalOp_xor, BitVec.ofInt_ofNat, BitVec.xor_zero]
    exact congrArg some (wrap_of_inRange ht hx)

theorem evalOp_mul_zero_left : evalOp .mul t 0 y = some 0 := by
  rw [evalOp_mul, Int.zero_mul, Java.wrap_zero]

theorem evalOp_mul_zero_right : evalOp .mul t x 0 = some 0 := by
  rw [evalOp_mul, Int.mul_zero, Java.wrap_zero]

theorem evalOp_mul_one_left (ht : t.isIntOrLongType) (hy : t.InRange y) :
    evalOp .mul t 1 y = some y := by
  rw [evalOp_mul, Int.one_mul, wrap_of_inRange ht hy]

theorem evalOp_one_right (ht : t.isIntOrLongType) (hx : t.InRange x)
    (hop : op = .mul ∨ op = .div) : evalOp op t x 1 = some x := by
  rcases hop with rfl | rfl
  · rw [evalOp_mul, Int.mul_one, wrap_of_inRange ht hx]
  · rw [evalOp_div, if_neg Int.one_ne_zero, Int.tdiv_one, wrap_of_inRange ht hx]

theorem evalOp_mul_neg_one_left : evalOp .mul t (-1) y = some (Java.neg t y) := by
  rw [evalOp_mul, neg_eq_wrap, Int.neg_one_mul]

theorem evalOp_neg_one_right (hop : op = .mul ∨ op = .div) :
    evalOp op t x (-1) = some (Java.neg t x) := by
  rcases hop with rfl | rfl
  · rw [evalOp_mul, neg_eq_wrap, Int.mul_neg_one]
  · rw [evalOp_div, neg_eq_wrap, if_neg (by decide), Int.tdiv_neg, Int.tdiv_one]

theorem evalOp_add_neg : evalOp .add t x (Java.neg t y) = evalOp .sub t x y := by
  rw [evalOp_add, evalOp_sub, neg_eq_wrap, Java.wrap_add_wrap, Int.sub_eq_add_neg]

theorem evalOp_sub_neg : evalOp .sub t x (Java.neg t y) = evalOp .add t x y := by
  rw [evalOp_add, evalOp_sub, neg_eq_wrap, Java.wrap_sub_wrap, Int.sub_neg]

theorem neg_neg_of_inRange (ht : t.isIntOrLongType) (hy : t.InRange y) :
    Java.neg t (Java.neg t y) = y := by
  rw [neg_eq_wrap, neg_eq_wrap, Java.wrap_neg_wrap, Int.neg_neg, wrap_of_inRange ht hy]

theorem neg_wrap_sub : Java.neg t (Java.wrap (Java.bitWidth t) (x - y)) =
    Java.wrap (Java.bitWidth t) (y - x) := by
  rw [neg_eq_wrap, Java.wrap_neg_wrap, Int.neg_sub]

end Values

/-! ### Building invariants -/

section Build

variable {ι : Type} (facts : RangeFacts ι)

/-- The invariant node `new InductionInfo(kInvariant, op, a, b, nullptr, ImplicitConversion(b->type))`. -/
def makeInvariant (op : InductionOp) (a : Option (Invariant ι)) (b : Invariant ι) : Invariant ι :=
  match a with
  | none => .unary op b (implicitConversion b.type)
  | some a => .binary op a b (implicitConversion b.type)

/-- `CreateSimplifiedInvariant(op, a, b)`: the light-weight simplifications by a constant `0`, `1`
or `-1` operand and of negations, else a new node. `a` is `nullptr` for `kNeg`. -/
def createSimplifiedInvariant (op : InductionOp) (a : Option (Invariant ι)) (b : Invariant ι) :
    Invariant ι :=
  let exactA := a.bind facts.isExact
  let exactB := facts.isExact b
  -- 0 + b = b, 0 ^ b = b, 0 * b = 0, 1 * b = b, -1 * b = -b
  if exactA = some 0 ∧ (op = .add ∨ op = .xor) then b
  else if exactA = some 0 ∧ op = .mul then a.getD b
  else if exactA = some 1 ∧ op = .mul then b
  else if exactA = some (-1) ∧ op = .mul then createSimplifiedInvariant .neg none b
  -- a + 0 = a, a - 0 = a, a ^ 0 = a, a * 0 = 0, -0 = 0, a * 1 = a, a / 1 = a, a * -1 = -a, a / -1 = -a
  else if exactB = some 0 ∧ (op = .add ∨ op = .sub ∨ op = .xor) then a.getD b
  else if exactB = some 0 ∧ (op = .mul ∨ op = .neg) then b
  else if exactB = some 1 ∧ (op = .mul ∨ op = .div) then a.getD b
  else if exactB = some (-1) ∧ (op = .mul ∨ op = .div) then
    createSimplifiedInvariant .neg none (a.getD b)
  else if exactB.isSome then makeInvariant op a b
  else
    match b with
    -- a + (-b) = a - b, a - (-b) = a + b, -(-b) = b
    | .unary .neg b' _ =>
      if op = .add then createSimplifiedInvariant .sub a b'
      else if op = .sub then createSimplifiedInvariant .add a b'
      else if op = .neg then b'
      else makeInvariant op a b
    -- -(a - b) = b - a
    | .binary .sub b₁ b₂ _ =>
      if op = .neg then createSimplifiedInvariant .sub (some b₂) b₁ else makeInvariant op a b
    | _ => makeInvariant op a b
termination_by 2 * ((a.map Invariant.size).getD 0 + b.size) + (if op = .neg then 0 else 1)
decreasing_by
  all_goals
    simp_wf
    have hb := b.size_pos
    (try split_ifs) <;> rcases a with _ | a <;> (try have ha := a.size_pos) <;>
      simp_all [Invariant.size] <;> omega

/-- `CreateInvariantOp(op, a, b)`. -/
def createInvariantOp (op : InductionOp) (a : Option (Invariant ι)) (b : Invariant ι) :
    Invariant ι :=
  createSimplifiedInvariant facts op a b

end Build

/-! ### The simplifications keep the value

`CreateSimplifiedInvariant` replaces the node `op a b` by an operand, a negation or a node of
another operation only where the values agree in the type of the node: `0 + b`, `1 * b`, `a / 1`
are `b` or `a` because every operand of a node that fits the type is a value of it; the negation
of a negation and of a difference use that the wrap-around of a wrapped value is the wrap-around
of the value.  The node `op a b` itself is `makeInvariant`. -/

section Simplify

variable {ι : Type} {facts : RangeFacts ι} {env : ι → Int} {t : DataType} {op : InductionOp}
  {a : Option (Invariant ι)} {b : Invariant ι} {x y : Int}

theorem makeInvariant_fits (ht : t.isIntOrLongType) (ha : ∀ a' ∈ a, a'.Fits env t)
    (hb : b.Fits env t) : (makeInvariant op a b).Fits env t := by
  have htype : implicitConversion b.type = t := by
    rw [hb.type, implicitConversion_of_isIntOrLongType ht]
  cases a with
  | none => exact ⟨htype, hb⟩
  | some a => exact ⟨htype, ha a rfl, hb⟩

theorem getD_fits (ha : ∀ a' ∈ a, a'.Fits env t) (hb : b.Fits env t) : (a.getD b).Fits env t := by
  cases a with
  | none => exact hb
  | some a => exact ha a rfl

theorem makeInvariant_eval_binary (ht : t.isIntOrLongType) {a : Invariant ι} (hb : b.Fits env t)
    (hx : a.eval env = some x) (hy : b.eval env = some y) :
    (makeInvariant op (some a) b).eval env = evalOp op t x y := by
  simp only [makeInvariant, Invariant.eval, hx, hy, hb.type, implicitConversion_of_isIntOrLongType ht,
    Option.bind_eq_bind, Option.bind_some]

theorem makeInvariant_eval_neg (ht : t.isIntOrLongType) (hb : b.Fits env t)
    (hy : b.eval env = some y) : (makeInvariant .neg none b).eval env = some (Java.neg t y) := by
  simp only [makeInvariant, Invariant.eval, hy, hb.type, implicitConversion_of_isIntOrLongType ht,
    if_true, Option.map_some]

theorem eval_neg {b : Invariant ι} {type : DataType} :
    (Invariant.unary .neg b type).eval env = (b.eval env).map (Java.neg type) := by
  simp only [Invariant.eval, if_true]

/-- What the analysis knows exactly of the operand `a` is its value. -/
theorem RangeFacts.Sound.bind_isExact (hsound : facts.Sound env) {c : Int}
    (h : a.bind facts.isExact = some c) : ∃ a', a = some a' ∧ a'.eval env = some c := by
  obtain ⟨a', rfl, hexact⟩ := Option.bind_eq_some_iff.mp h
  exact ⟨a', rfl, hsound.isExact a' c hexact⟩

/-- Every operation but `kNeg` has its operand `a`. -/
theorem exists_operand (hop : a = none ↔ op = .neg) (hne : op ≠ .neg) : ∃ a', a = some a' :=
  Option.ne_none_iff_exists'.mp (mt hop.mp hne)

theorem createSimplifiedInvariant_fits (ht : t.isIntOrLongType) (ha : ∀ a' ∈ a, a'.Fits env t)
    (hb : b.Fits env t) : (createSimplifiedInvariant facts op a b).Fits env t := by
  fun_induction createSimplifiedInvariant facts op a b
  case case1 | case3 | case6 => exact hb
  case case2 | case5 | case7 => exact getD_fits ha hb
  case case9 | case13 | case15 | case16 => exact makeInvariant_fits ht ha hb
  case case4 =>
    rename_i ih
    exact ih nofun hb
  case case8 =>
    rename_i ih
    exact ih nofun (getD_fits ha hb)
  case case10 | case11 =>
    rename_i ih
    exact ih ha hb.2
  case case12 => exact hb.2
  -- `-(b₁ - b₂)` is `b₂ - b₁`
  case case14 =>
    rename_i ih
    exact ih (fun a' h => by cases h; exact hb.2.2) hb.2.1

/-- `CreateSimplifiedInvariant(op, a, b)` has the value of the node `op a b`, where the operands
fit the type and have values. -/
theorem createSimplifiedInvariant_eval (hsound : facts.Sound env) (ht : t.isIntOrLongType)
    (hop : a = none ↔ op = .neg) (ha : ∀ a' ∈ a, a'.Fits env t ∧ ∃ x, a'.eval env = some x)
    (hb : b.Fits env t) (hbv : ∃ y, b.eval env = some y) :
    (createSimplifiedInvariant facts op a b).eval env = (makeInvariant op a b).eval env := by
  fun_induction createSimplifiedInvariant facts op a b
  case case9 | case13 | case15 | case16 => rfl
  -- a constant left operand
  case case1 =>
    rename_i h
    obtain ⟨a', rfl, hx⟩ := hsound.bind_isExact h.1
    obtain ⟨y, hy⟩ := hbv
    rw [makeInvariant_eval_binary ht hb hx hy, hy, evalOp_zero_left ht (hb.eval_inRange ht hy) h.2]
  case case2 =>
    rename_i h
    obtain ⟨hA, rfl⟩ := h
    obtain ⟨a', rfl, hx⟩ := hsound.bind_isExact hA
    obtain ⟨y, hy⟩ := hbv
    rw [Option.getD_some, makeInvariant_eval_binary ht hb hx hy, hx, evalOp_mul_zero_left]
  case case3 =>
    rename_i h
    obtain ⟨hA, rfl⟩ := h
    obtain ⟨a', rfl, hx⟩ := hsound.bind_isExact hA
    obtain ⟨y, hy⟩ := hbv
    rw [makeInvariant_eval_binary ht hb hx hy, hy, evalOp_mul_one_left ht (hb.eval_inRange ht hy)]
  case case4 =>
    rename_i h ih
    obtain ⟨hA, rfl⟩ := h
    obtain ⟨a', rfl, hx⟩ := hsound.bind_isExact hA
    obtain ⟨y, hy⟩ := hbv
    rw [ih (iff_of_true rfl rfl) nofun hb ⟨y, hy⟩, makeInvariant_eval_neg ht hb hy,
      makeInvariant_eval_binary ht hb hx hy, evalOp_mul_neg_one_left]
  -- a constant right operand
  case case5 =>
    rename_i h
    have hy := hsound.isExact _ 0 h.1
    obtain ⟨a', rfl⟩ := exists_operand hop (by rcases h.2 with hop' | hop' | hop' <;> simp [hop'])
    obtain ⟨ha', x, hx⟩ := ha a' rfl
    rw [Option.getD_some, makeInvariant_eval_binary ht hb hx hy, hx,
      evalOp_zero_right ht (ha'.eval_inRange ht hx) h.2]
  case case6 =>
    rename_i h
    have hy := hsound.isExact _ 0 h.1
    rcases h.2 with rfl | rfl
    · obtain ⟨a', rfl⟩ := exists_operand hop (by decide)
      obtain ⟨-, x, hx⟩ := ha a' rfl
      rw [makeInvariant_eval_binary ht hb hx hy, hy, evalOp_mul_zero_right]
    · -- `-0` is `0`
      rw [hop.mpr rfl, makeInvariant_eval_neg ht hb hy, hy, neg_eq_wrap, Int.neg_zero, Java.wrap_zero]
  case case7 =>
    rename_i h
    have hy := hsound.isExact _ 1 h.1
    obtain ⟨a', rfl⟩ := exists_operand hop (by rcases h.2 with hop' | hop' <;> simp [hop'])
    obtain ⟨ha', x, hx⟩ := ha a' rfl
    rw [Option.getD_some, makeInvariant_eval_binary ht hb hx hy, hx,
      evalOp_one_right ht (ha'.eval_inRange ht hx) h.2]
  case case8 =>
    rename_i h ih
    have hy := hsound.isExact _ (-1) h.1
    obtain ⟨a', rfl⟩ := exists_operand hop (by rcases h.2 with hop' | hop' <;> simp [hop'])
    obtain ⟨ha', x, hx⟩ := ha a' rfl
    rw [Option.getD_some] at ih ⊢
    rw [ih (iff_of_true rfl rfl) nofun ha' ⟨x, hx⟩, makeInvariant_eval_neg ht ha' hx,
      makeInvariant_eval_binary ht hb hx hy, evalOp_neg_one_right h.2]
  -- a negated right operand
  case case10 | case11 =>
    rename_i ih
    obtain ⟨a', rfl⟩ := exists_operand hop (by decide)
    obtain ⟨ha', x, hx⟩ := ha a' rfl
    obtain ⟨y, hy⟩ := hbv
    rw [eval_neg] at hy
    obtain ⟨y', hy', rfl⟩ := Option.map_eq_some_iff.mp hy
    rw [ih (iff_of_false nofun (by decide)) ha hb.2 ⟨y', hy'⟩,
      makeInvariant_eval_binary ht hb.2 hx hy', makeInvariant_eval_binary ht hb hx (by rw [eval_neg, hy']; rfl),
      hb.1]
    first
    | exact evalOp_add_neg.symm
    | exact evalOp_sub_neg.symm
  case case12 =>
    obtain ⟨y, hy⟩ := hbv
    rw [eval_neg] at hy
    obtain ⟨y', hy', rfl⟩ := Option.map_eq_some_iff.mp hy
    rw [hop.mpr rfl, makeInvariant_eval_neg ht hb (by rw [eval_neg, hy']; rfl), hy', hb.1,
      neg_neg_of_inRange ht (hb.2.eval_inRange ht hy')]
  case case14 =>
    rename_i ih
    obtain ⟨y, hy⟩ := hbv
    simp only [Invariant.eval, Option.bind_eq_bind, Option.bind_eq_some_iff] at hy
    obtain ⟨y₁, hy₁, y₂, hy₂, hsub⟩ := hy
    rw [hb.1] at hsub
    rw [ih (iff_of_false nofun (by decide)) (fun a' h => by cases h; exact ⟨hb.2.2, y₂, hy₂⟩)
      hb.2.1 ⟨y₁, hy₁⟩, makeInvariant_eval_binary ht hb.2.1 hy₂ hy₁, hop.mpr rfl,
      makeInvariant_eval_neg ht hb (by simp only [Invariant.eval, hy₁, hy₂, hb.1]; exact hsub)]
    cases hsub
    rw [evalOp_sub, neg_wrap_sub]

end Simplify

/-! ### The trip count -/

/-- The `InductionInfo` of a condition's input, as far as the trip-count analysis reads it: an
invariant, a linear induction `stride * i + lower` of the type `type`, or another sequence. -/
inductive Info (ι : Type) where
  | invariant (e : Invariant ι)
  | linear (stride lower : Invariant ι) (type : DataType)
  | other

/-- The trip count `CreateTripCount(tcKind, trip_count, taken_test, type)` the analysis assigns
to the loop's control. -/
structure TripCount (ι : Type) where
  kind : InductionOp
  count : Invariant ι
  takenTest : Invariant ι
  type : DataType

section Analysis

variable {ι : Type} (facts : RangeFacts ι)

/-- `IsTaken(lower_expr, upper_expr, cmp)`: the loop is certainly entered. -/
def isTaken (lower upper : Invariant ι) : IfCondition → Bool
  | .lt => match facts.isAtMost lower, facts.isAtLeast upper with
    | some l, some u => decide (l < u)
    | _, _ => false
  | .le => match facts.isAtMost lower, facts.isAtLeast upper with
    | some l, some u => decide (l ≤ u)
    | _, _ => false
  | .gt => match facts.isAtLeast lower, facts.isAtMost upper with
    | some l, some u => decide (u < l)
    | _, _ => false
  | .ge => match facts.isAtLeast lower, facts.isAtMost upper with
    | some l, some u => decide (u ≤ l)
    | _, _ => false
  | _ => false

/-- `IsFinite(upper_expr, stride_value, type, cmp)`: the loop certainly ends. -/
def isFinite (upper : Invariant ι) (strideValue : Int) (type : DataType) : IfCondition → Bool
  | .lt => strideValue == 1 || match facts.isAtMost upper with
    | some value => decide (value ≤ maxValueOfIntegralType type - strideValue + 1)
    | none => false
  | .le => match facts.isAtMost upper with
    | some value => decide (value ≤ maxValueOfIntegralType type - strideValue)
    | none => false
  | .gt => strideValue == -1 || match facts.isAtLeast upper with
    | some value => decide (minValueOfIntegralType type - strideValue - 1 ≤ value)
    | none => false
  | .ge => match facts.isAtLeast upper with
    | some value => decide (minValueOfIntegralType type - strideValue ≤ value)
    | none => false
  | _ => false

/-- `FitsNarrowerControl(lower_expr, upper_expr, stride_value, type, cmp)`: both bounds lie in
the range of the narrower induction type, one short of its end for an inclusive test. -/
def fitsNarrowerControl (lower upper : Invariant ι) (strideValue : Int) (type : DataType)
    (cmp : IfCondition) : Bool :=
  let min := minValueOfIntegralType type + if cmp = .ge then 1 else 0
  let max := maxValueOfIntegralType type - if cmp = .le then 1 else 0
  let within (e : Invariant ι) : Bool :=
    match facts.isAtLeast e, facts.isAtMost e with
    | some atLeast, some atMost => decide (min ≤ atLeast ∧ atMost ≤ max)
    | _, _ => false
  if strideValue ≠ 1 ∧ strideValue ≠ -1 then false
  else within lower && within upper

/-- `VisitTripCount`: the trip count `(U + S - L) / S` of a normalized loop control, the
inequality made inclusive first unless a unit stride cancels it, with its kind by what
`IsTaken` and `IsFinite` show. -/
def visitTripCount (lower upper stride : Invariant ι) (strideValue : Int) (type : DataType)
    (cmp : IfCondition) : TripCount ι :=
  let isTaken := isTaken facts lower upper cmp
  let isFinite := isFinite facts upper strideValue type cmp
  let cancels := (cmp = .lt ∨ cmp = .gt) ∧ (strideValue = 1 ∨ strideValue = -1)
  let inclusive :=
    -- i < U is i <= U - 1 and i > U is i >= U + 1
    if cmp = .lt then createInvariantOp facts .sub (some upper) (.constant 1 type)
    else if cmp = .gt then createInvariantOp facts .add (some upper) (.constant 1 type)
    else upper
  let tripCount := if cancels then upper else createInvariantOp facts .add (some inclusive) stride
  let tripCount := createInvariantOp facts .div
    (some (createInvariantOp facts .sub (some tripCount) lower)) stride
  let kind : InductionOp :=
    if isTaken ∧ isFinite then .tripCountInLoop
    else if isFinite then .tripCountInBody
    else if isTaken then .tripCountInLoopUnsafe
    else .tripCountInBodyUnsafe
  let op : InductionOp := match cmp with
    | .lt => .lt
    | .le => .le
    | .gt => .gt
    | .ge => .ge
    | _ => .nop
  ⟨kind, tripCount, createInvariantOp facts op (some lower) upper, type⟩

/-- The part of `VisitCondition` for a linear induction `stride * i + lower` of the type
`inductionType` on the left of `cmp` and the invariant `upper` on its right. `rewriteBreakLoop`
is what `RewriteBreakLoop` returns when it is called. -/
def visitConditionLinear (rewriteBreakLoop : Bool) (stride lower : Invariant ι)
    (inductionType : DataType) (upper : Invariant ι) (type : DataType) (cmp : IfCondition) :
    Option (TripCount ι) :=
  match facts.isExact stride with
  | none => none
  | some strideValue =>
    if type ≠ .int32 ∧ type ≠ .int64 then none
    else
      -- a break loop `i != U` rewritten into `i <= U` or `i >= U`
      let cmp := if cmp = .ne ∧ rewriteBreakLoop then
          (if 0 < strideValue then .le else .ge) else cmp
      -- `i != U` with a unit stride that reaches `U` exactly is `i < U` or `i > U`
      let cmp := if cmp = .ne ∧ ((strideValue = 1 ∧ isTaken facts lower upper .le) ∨
          (strideValue = -1 ∧ isTaken facts lower upper .ge)) then
          (if 0 < strideValue then .lt else .gt) else cmp
      if type ≠ inductionType ∧
          fitsNarrowerControl facts lower upper strideValue inductionType cmp = false then none
      else if (0 < strideValue ∧ (cmp = .lt ∨ cmp = .le)) ∨
          (strideValue < 0 ∧ (cmp = .gt ∨ cmp = .ge)) then
        some (visitTripCount facts lower upper stride strideValue type cmp)
      else none

/-- `VisitCondition(loop, body, a, b, type, cmp)`: an induction on the right is swapped to the
left. -/
def visitCondition (rewriteBreakLoop : Bool) (a b : Info ι) (type : DataType) (cmp : IfCondition) :
    Option (TripCount ι) :=
  match a, b with
  | .invariant upper, .linear stride lower inductionType =>
    -- U > i is i < U
    let swapped : Option IfCondition := match cmp with
      | .lt => some .gt
      | .le => some .ge
      | .gt => some .lt
      | .ge => some .le
      | .ne => some .ne
      | _ => none
    swapped.bind (visitConditionLinear facts rewriteBreakLoop stride lower inductionType upper type)
  | .linear stride lower inductionType, .invariant upper =>
    visitConditionLinear facts rewriteBreakLoop stride lower inductionType upper type cmp
  | _, _ => none

/-- `VisitControl(loop)` for a header ending in `if (input0 cond input1)`, with the infos `a`
and `b` of the inputs (`none` where the input is no sequence), `inputType` the type of
`input0`, and which of the `if`'s successors stay in the loop. -/
def visitControl (rewriteBreakLoop : Bool) (a b : Option (Info ι)) (inputType : DataType)
    (cond : IfCondition) (trueInLoop falseInLoop : Bool) : Option (TripCount ι) :=
  let type := implicitConversion inputType
  match a, b with
  | some a, some b =>
    if !trueInLoop && falseInLoop then
      visitCondition facts rewriteBreakLoop a b type cond.opposite
    else if trueInLoop && !falseInLoop then visitCondition facts rewriteBreakLoop a b type cond
    else none
  | _, _ => none

end Analysis

/-! ### The loop -/

/-- The value of a sequence at the `n`-th execution of the loop header: an invariant its value,
a linear induction `stride * n + lower` in its type. -/
def Info.value {ι : Type} (env : ι → Int) (n : Nat) : Info ι → Option Int
  | .invariant e => e.eval env
  | .linear stride lower type => do
    let s ← stride.eval env
    let l ← lower.eval env
    some (Java.typeConversion type (s * n + l))
  | .other => none

/-- Whether the loop goes on at the `n`-th execution of its header, which ends in
`if (input0 cond input1)` and stays in the loop on its `true` side when `trueInLoop`. -/
def iterates {ι : Type} (env : ι → Int) (a b : Info ι) (inputType : DataType) (cond : IfCondition)
    (trueInLoop : Bool) (n : Nat) : Option Bool := do
  let x ← a.value env n
  let y ← b.value env n
  some (Java.condition cond (implicitConversion inputType) x y == trueInLoop)

/-- A value of the control type read as unsigned, as clients read the trip count. -/
def asUnsigned (t : DataType) (v : Int) : Nat := (BitVec.ofInt (Java.bitWidth t) v).toNat

/-- The normal form `VisitCondition` hands to `VisitTripCount`: a positive stride with `<` or
`<=`, a negative one with `>` or `>=`. -/
def Normalized (strideValue : Int) (cmp : IfCondition) : Prop :=
  0 < strideValue ∧ (cmp = .lt ∨ cmp = .le) ∨ strideValue < 0 ∧ (cmp = .gt ∨ cmp = .ge)

/-- The bound made inclusive as `VisitTripCount` does: `i < U` is `i <= U - 1` and `i > U` is
`i >= U + 1`. -/
def inclusiveBound (cmp : IfCondition) (upper : Int) : Int :=
  if cmp = .lt then upper - 1 else if cmp = .gt then upper + 1 else upper

/-! ### The trip count's value -/

section TripCountValue

variable {ι : Type} {facts : RangeFacts ι} {env : ι → Int} {t : DataType}
  {lower upper stride : Invariant ι} {L U S : Int} {cmp : IfCondition}

/-- The range of an arithmetic type is that of `MinValueOfIntegralType` and
`MaxValueOfIntegralType`. -/
theorem inRange_iff (ht : t.isIntOrLongType) {x : Int} :
    t.InRange x ↔ minValueOfIntegralType t ≤ x ∧ x ≤ maxValueOfIntegralType t := by
  cases t <;> simp_all [DataType.isIntOrLongType, DataType.InRange, DataType.isUnsignedType,
    DataType.size, minValueOfIntegralType, maxValueOfIntegralType] <;> omega

theorem typeConversion_of_inRange (ht : t.isIntOrLongType) {x : Int} (h : t.InRange x) :
    Java.typeConversion t x = x := by
  simp only [Java.typeConversion, Java.isUnsignedType_of_isIntOrLongType ht, Bool.false_eq_true,
    if_false]
  exact wrap_of_inRange ht h

/-- `CreateInvariantOp` on two operands that fit the type: the node fits it and has the value of
the operation. -/
theorem createInvariantOp_binary (hsound : facts.Sound env) (ht : t.isIntOrLongType)
    (op : InductionOp) (hop : op ≠ .neg) {a b : Invariant ι} {x y v : Int} (ha : a.Fits env t)
    (hx : a.eval env = some x) (hb : b.Fits env t) (hy : b.eval env = some y)
    (hv : evalOp op t x y = some v) :
    (createInvariantOp facts op (some a) b).Fits env t ∧
      (createInvariantOp facts op (some a) b).eval env = some v := by
  have hops : (some a = none ↔ op = .neg) := iff_of_false nofun hop
  constructor
  · exact createSimplifiedInvariant_fits ht (fun a' h => by cases h; exact ha) hb
  · rw [createInvariantOp, createSimplifiedInvariant_eval hsound ht hops
      (fun a' h => by cases h; exact ⟨ha, x, hx⟩) hb ⟨y, hy⟩, makeInvariant_eval_binary ht hb hx hy,
      hv]

variable (hsound : facts.Sound env) (ht : t.isIntOrLongType)
  (hstride : stride.Fits env t) (hS : stride.eval env = some S)
  (hlower : lower.Fits env t) (hL : lower.eval env = some L)
  (hupper : upper.Fits env t) (hU : upper.eval env = some U)
include hsound ht hstride hS hlower hL hupper hU

/-- The trip count is `(U + S - L) / S` for the inclusive bound `U`, computed in the control type:
the numerator wraps around, the quotient truncates. -/
theorem visitTripCount_count_eval (hnorm : Normalized S cmp) :
    (visitTripCount facts lower upper stride S t cmp).count.eval env =
      some (Java.wrap (Java.bitWidth t)
        ((Java.wrap (Java.bitWidth t) (inclusiveBound cmp U + S - L)).tdiv S)) := by
  have hS0 : S ≠ 0 := by rcases hnorm with ⟨h, -⟩ | ⟨h, -⟩ <;> omega
  have hone : (Invariant.constant 1 t : Invariant ι).Fits env t :=
    ⟨rfl, DataType.InRange.of_int32 ht (by decide)⟩
  have hUrange := hupper.eval_inRange ht hU
  -- from the numerator `U + S` on, the lower bound is subtracted and the stride divides
  have hdivide : ∀ numerator : Invariant ι, numerator.Fits env t ∧
      numerator.eval env = some (Java.wrap (Java.bitWidth t) (inclusiveBound cmp U + S)) →
      (createInvariantOp facts .div (some (createInvariantOp facts .sub (some numerator) lower))
        stride).eval env = some (Java.wrap (Java.bitWidth t)
          ((Java.wrap (Java.bitWidth t) (inclusiveBound cmp U + S - L)).tdiv S)) := by
    rintro numerator ⟨hfits, hvalue⟩
    obtain ⟨hsubFits, hsub⟩ := createInvariantOp_binary hsound ht .sub (by decide) hfits hvalue
      hlower hL rfl
    rw [Java.wrap_wrap_sub] at hsub
    refine (createInvariantOp_binary hsound ht .div (by decide) hsubFits hsub hstride hS ?_).2
    rw [evalOp_div, if_neg hS0]
  simp only [visitTripCount]
  apply hdivide
  split_ifs with hcancels hlt hgt
  · -- a unit stride cancels the `- 1` or `+ 1` of a strict test
    refine ⟨hupper, ?_⟩
    have hbound : inclusiveBound cmp U + S = U := by
      obtain ⟨hcmp, hunit⟩ := hcancels
      rcases hcmp with rfl | rfl <;> simp [inclusiveBound, Normalized] at hnorm ⊢ <;> omega
    rw [hbound, hU, wrap_of_inRange ht hUrange]
  · obtain ⟨hminusFits, hminus⟩ :=
      createInvariantOp_binary hsound ht .sub (by decide) hupper hU hone rfl rfl
    refine createInvariantOp_binary hsound ht .add (by decide) hminusFits hminus hstride hS ?_
    rw [inclusiveBound, if_pos hlt, evalOp_add, Java.wrap_wrap_add]
  · obtain ⟨hplusOneFits, hplusOne⟩ :=
      createInvariantOp_binary hsound ht .add (by decide) hupper hU hone rfl rfl
    refine createInvariantOp_binary hsound ht .add (by decide) hplusOneFits hplusOne hstride hS ?_
    rw [inclusiveBound, if_neg hlt, if_pos hgt, evalOp_add, Java.wrap_wrap_add]
  · refine createInvariantOp_binary hsound ht .add (by decide) hupper hU hstride hS ?_
    rw [inclusiveBound, if_neg hlt, if_neg hgt]
    rfl

omit hstride hS in
/-- The taken-test is the comparison of the bounds. -/
theorem visitTripCount_takenTest_eval (hnorm : Normalized S cmp) :
    (visitTripCount facts lower upper stride S t cmp).takenTest.eval env =
      some (if Java.condition cmp t L U then 1 else 0) := by
  simp only [visitTripCount]
  rcases hnorm with ⟨-, rfl | rfl⟩ | ⟨-, rfl | rfl⟩ <;>
    exact (createInvariantOp_binary hsound ht _ (by decide) hlower hL hupper hU rfl).2

end TripCountValue

/-! ### What `IsTaken` and `IsFinite` show -/

section Tests

variable {ι : Type} {facts : RangeFacts ι} {env : ι → Int} {t : DataType}
  {lower upper : Invariant ι} {L U S : Int} {cmp : IfCondition}

/-- `IsTaken` shows that the bounds pass the test, so the loop is entered. -/
theorem isTaken_sound (hsound : facts.Sound env) (hL : lower.eval env = some L)
    (hU : upper.eval env = some U) (h : isTaken facts lower upper cmp = true) :
    Java.condition cmp t L U = true := by
  cases cmp <;> simp only [isTaken] at h
  -- `lower` is at most what it is known to be at most, `upper` at least
  case lt | le =>
    split at h
    · rename_i l u hl hu
      have hlower := hsound.isAtMost _ _ hl _ hL
      have hupper := hsound.isAtLeast _ _ hu _ hU
      simp only [decide_eq_true_eq] at h
      simp only [Java.condition, decide_eq_true_eq]
      omega
    · contradiction
  case gt | ge =>
    split at h
    · rename_i l u hl hu
      have hlower := hsound.isAtLeast _ _ hl _ hL
      have hupper := hsound.isAtMost _ _ hu _ hU
      simp only [decide_eq_true_eq] at h
      simp only [Java.condition, decide_eq_true_eq]
      omega
    · contradiction
  all_goals contradiction

/-- A bound `IsAtMost` gives, compared as `IsFinite` compares it, holds of the value. -/
theorem le_of_isAtMost (hsound : facts.Sound env) (hU : upper.eval env = some U) {c : Int}
    (h : (match facts.isAtMost upper with
      | some value => decide (value ≤ c)
      | none => false) = true) : U ≤ c := by
  split at h
  · rename_i value hvalue
    have hbound := hsound.isAtMost _ _ hvalue _ hU
    simp only [decide_eq_true_eq] at h
    omega
  · contradiction

theorem le_of_isAtLeast (hsound : facts.Sound env) (hU : upper.eval env = some U) {c : Int}
    (h : (match facts.isAtLeast upper with
      | some value => decide (c ≤ value)
      | none => false) = true) : c ≤ U := by
  split at h
  · rename_i value hvalue
    have hbound := hsound.isAtLeast _ _ hvalue _ hU
    simp only [decide_eq_true_eq] at h
    omega
  · contradiction

/-- `IsFinite` shows that one stride past the inclusive bound is still a value of the type: the
induction cannot wrap around before the test fails. -/
theorem isFinite_sound (hsound : facts.Sound env) (ht : t.isIntOrLongType) (hU : upper.eval env = some U)
    (hUrange : t.InRange U) (hnorm : Normalized S cmp) (h : isFinite facts upper S t cmp = true) :
    t.InRange (inclusiveBound cmp U + S) := by
  rw [inRange_iff ht] at hUrange ⊢
  rcases hnorm with ⟨hS, rfl | rfl⟩ | ⟨hS, rfl | rfl⟩ <;>
    simp only [isFinite, Bool.or_eq_true, beq_iff_eq] at h <;> simp only [inclusiveBound] <;>
    simp only [reduceCtorEq, if_true, if_false]
  -- `i < U`: a unit stride stops at `U`, a longer one below `max - S + 1`
  · rcases h with rfl | h
    · omega
    · have hbound := le_of_isAtMost hsound hU h
      omega
  · have hbound := le_of_isAtMost hsound hU h
    omega
  -- `i > U`: a unit stride stops at `U`, a longer one above `min - S - 1`
  · rcases h with rfl | h
    · omega
    · have hbound := le_of_isAtLeast hsound hU h
      omega
  · have hbound := le_of_isAtLeast hsound hU h
    omega

end Tests

/-! ### The loop in normal form -/

/-- The header test of a normalized control at its `k`-th execution: the induction `S * k + L` in
the type `t` against the bound `U`. -/
def normalTest (cmp : IfCondition) (t : DataType) (S L U : Int) (k : Nat) : Option Bool :=
  some (Java.condition cmp t (Java.typeConversion t (S * k + L)) U)

section NormalLoop

variable {t : DataType} {L U S : Int} {cmp : IfCondition}

/-- An increasing normalized loop leaves after `(U' + S - L) / S` passes, `U'` the inclusive bound,
and up to then its induction takes values of the type, where one stride past the bound is one. -/
theorem normalTest_exitsAfter_of_pos (ht : t.isIntOrLongType) (hS : 0 < S)
    (hcmp : cmp = .lt ∨ cmp = .le) (hL : t.InRange L) (hpast : t.InRange (inclusiveBound cmp U + S))
    (hN : 0 ≤ inclusiveBound cmp U + S - L) :
    ExitsAfter (normalTest cmp t S L U) ((inclusiveBound cmp U + S - L).tdiv S).toNat ∧
      ∀ k ≤ ((inclusiveBound cmp U + S - L).tdiv S).toNat, t.InRange (S * k + L) := by
  -- up to the count the induction lies between `L` and one stride past the bound
  have hrange : ∀ k : Nat, (k : Int) ≤ (inclusiveBound cmp U + S - L).tdiv S →
      t.InRange (S * k + L) := by
    intro k hk
    obtain ⟨hlo, hhi⟩ := add_mul_mem_of_le_tdiv hS hN hk
    rw [inRange_iff ht] at hL hpast ⊢
    omega
  have hcount := tdiv_nonneg_of_sign (.inl ⟨hS, hN⟩)
  refine ⟨exitsAfter_of_lt_iff fun k hk => ?_, fun k hk => hrange k (by omega)⟩
  have hk' : (k : Int) ≤ (inclusiveBound cmp U + S - L).tdiv S := by omega
  rw [normalTest, typeConversion_of_inRange ht (hrange k hk')]
  congr 1
  have hiff := add_mul_le_iff_lt_tdiv (L := L) (U := inclusiveBound cmp U) hS k
  -- `i < U` is `i <= U - 1`
  rcases hcmp with rfl | rfl <;> simp only [Java.condition, inclusiveBound, reduceCtorEq, if_true,
    if_false] at hiff ⊢ <;> exact decide_eq_decide.mpr (Iff.trans ⟨fun h => by omega, fun h => by omega⟩ hiff)

/-- A decreasing normalized loop leaves after `(U' + S - L) / S` passes, `U'` the inclusive bound,
and up to then its induction takes values of the type, where one stride past the bound is one. -/
theorem normalTest_exitsAfter_of_neg (ht : t.isIntOrLongType) (hS : S < 0)
    (hcmp : cmp = .gt ∨ cmp = .ge) (hL : t.InRange L) (hpast : t.InRange (inclusiveBound cmp U + S))
    (hN : inclusiveBound cmp U + S - L ≤ 0) :
    ExitsAfter (normalTest cmp t S L U) ((inclusiveBound cmp U + S - L).tdiv S).toNat ∧
      ∀ k ≤ ((inclusiveBound cmp U + S - L).tdiv S).toNat, t.InRange (S * k + L) := by
  have hrange : ∀ k : Nat, (k : Int) ≤ (inclusiveBound cmp U + S - L).tdiv S →
      t.InRange (S * k + L) := by
    intro k hk
    obtain ⟨hlo, hhi⟩ := add_mul_mem_of_le_tdiv_of_neg hS hN hk
    rw [inRange_iff ht] at hL hpast ⊢
    omega
  have hcount := tdiv_nonneg_of_sign (.inr ⟨hS, hN⟩)
  refine ⟨exitsAfter_of_lt_iff fun k hk => ?_, fun k hk => hrange k (by omega)⟩
  have hk' : (k : Int) ≤ (inclusiveBound cmp U + S - L).tdiv S := by omega
  rw [normalTest, typeConversion_of_inRange ht (hrange k hk')]
  congr 1
  have hiff := le_add_mul_iff_lt_tdiv (L := L) (U := inclusiveBound cmp U) hS k
  -- `i > U` is `i >= U + 1`
  rcases hcmp with rfl | rfl <;> simp only [Java.condition, inclusiveBound, reduceCtorEq, if_true,
    if_false] at hiff ⊢ <;> exact decide_eq_decide.mpr (Iff.trans ⟨fun h => by omega, fun h => by omega⟩ hiff)

/-- An unsigned reading of the trip count is the number of passes, where the stride is a unit one
or the numerator does not wrap around: a wrapped numerator over a unit stride keeps its residue. -/
theorem asUnsigned_tripCount (ht : t.isIntOrLongType) {N : Int}
    (hfits : S = 1 ∨ S = -1 ∨ t.InRange N) (hcount : 0 ≤ N.tdiv S)
    (hbound : N.tdiv S < 2 ^ Java.bitWidth t) :
    asUnsigned t (Java.wrap (Java.bitWidth t) ((Java.wrap (Java.bitWidth t) N).tdiv S)) =
      (N.tdiv S).toNat := by
  have hdvd : ((2 ^ Java.bitWidth t : Nat) : Int) ∣ 2 ^ Java.bitWidth t := by push_cast; rfl
  have hmod : (Java.wrap (Java.bitWidth t) N).tdiv S % ((2 ^ Java.bitWidth t : Nat) : Int) =
      N.tdiv S % ((2 ^ Java.bitWidth t : Nat) : Int) := by
    rcases hfits with rfl | rfl | hN
    · rw [Int.tdiv_one, Int.tdiv_one]
      exact Java.wrap_emod_of_dvd hdvd N
    · rw [Int.tdiv_neg, Int.tdiv_one, Int.tdiv_neg, Int.tdiv_one]
      exact Int.ModEq.neg (Java.wrap_emod_of_dvd hdvd N)
    · rw [wrap_of_inRange ht hN]
  unfold asUnsigned
  rw [BitVec.toNat_ofInt, Java.wrap_emod_of_dvd hdvd, hmod,
    Int.emod_eq_of_lt hcount (by push_cast; exact hbound)]

end NormalLoop

/-! ### From the header's test to the normal form -/

section Control

variable {ι : Type} {facts : RangeFacts ι} {env : ι → Int} {t : DataType}
  {stride lower upper : Invariant ι} {S L U : Int} {a b : Info ι} {inputType : DataType}
  {cond cmp : IfCondition} {rewriteBreakLoop trueInLoop falseInLoop : Bool} {tc : TripCount ι}

theorem condition_opposite (cond : IfCondition) (t : DataType) (x y : Int) :
    Java.condition cond.opposite t x y = !Java.condition cond t x y := by
  cases cond <;> simp only [IfCondition.opposite, Java.condition, bne, Bool.not_not, ← decide_not,
    Int.not_lt, Int.not_le, Nat.not_lt, Nat.not_le]

/-- `VisitControl` passes on the test that keeps the loop going. -/
theorem visitControl_some (h : visitControl facts rewriteBreakLoop (some a) (some b) inputType cond
      trueInLoop falseInLoop = some tc) :
    ∃ cmp, visitCondition facts rewriteBreakLoop a b (implicitConversion inputType) cmp = some tc ∧
      ∀ x y, (Java.condition cond (implicitConversion inputType) x y == trueInLoop) =
        Java.condition cmp (implicitConversion inputType) x y := by
  simp only [visitControl] at h
  split_ifs at h with hexit hiterate
  -- the loop goes on at the `false` side: the opposite condition
  · refine ⟨cond.opposite, h, fun x y => ?_⟩
    rw [condition_opposite]
    cases trueInLoop <;> simp_all
  · refine ⟨cond, h, fun x y => ?_⟩
    cases trueInLoop <;> simp_all

/-- A break loop `i != U` that `RewriteBreakLoop` rewrote is analyzed as the loop with the test
`i <= U` or `i >= U` it has after the rewrite. -/
theorem visitConditionLinear_rewriteBreakLoop {inductionType type : DataType}
    (hS : facts.isExact stride = some S) :
    visitConditionLinear facts true stride lower inductionType upper type .ne =
      visitConditionLinear facts false stride lower inductionType upper type
        (if 0 < S then .le else .ge) := by
  simp only [visitConditionLinear, hS]
  -- the rewritten condition is no longer `!=`, so the second rewrite does not apply on either side
  by_cases hpos : 0 < S <;>
    simp only [hpos, if_true, if_false, and_true, and_false, false_and, reduceCtorEq]

/-- What `VisitConditionLinear` hands to `VisitTripCount`, where no break loop is rewritten: the
condition itself, or `i != U` as `i < U` or `i > U` when a unit stride reaches `U`. -/
theorem visitConditionLinear_normalForm (hsound : facts.Sound env) (hS : stride.eval env = some S)
    (h : visitConditionLinear facts false stride lower t upper t cmp = some tc) :
    (t = .int32 ∨ t = .int64) ∧ ∃ cmp', Normalized S cmp' ∧
      tc = visitTripCount facts lower upper stride S t cmp' ∧
      (cmp' = cmp ∨ cmp = .ne ∧ (S = 1 ∧ cmp' = .lt ∧ isTaken facts lower upper .le = true ∨
        S = -1 ∧ cmp' = .gt ∧ isTaken facts lower upper .ge = true)) := by
  simp only [visitConditionLinear] at h
  split at h
  · contradiction
  · rename_i S' hexact
    have hS' : S' = S := Option.some.inj ((hsound.isExact _ _ hexact).symm.trans hS)
    subst hS'
    simp only [Bool.false_eq_true, and_false, if_false, ne_eq, not_true_eq_false, false_and] at h
    split_ifs at h with htype hcmp hpos
    -- `i != U` with a unit stride that is taken to reach `U`
    · obtain ⟨hne, hunit⟩ := hcmp
      have hone : S' = 1 := by rcases hunit with ⟨h1, -⟩ | ⟨h1, -⟩ <;> omega
      refine ⟨by simpa only [not_and_or, not_not] using htype, .lt, .inl ⟨hpos, .inl rfl⟩,
        (Option.some.inj h).symm, .inr ⟨hne, .inl ⟨hone, rfl, ?_⟩⟩⟩
      rcases hunit with ⟨-, htaken⟩ | ⟨h1, -⟩
      · exact htaken
      · omega
    · obtain ⟨hne, hunit⟩ := hcmp
      have hminus : S' = -1 := by rcases hunit with ⟨h1, -⟩ | ⟨h1, -⟩ <;> omega
      refine ⟨by simpa only [not_and_or, not_not] using htype, .gt, .inr ⟨by omega, .inl rfl⟩,
        (Option.some.inj h).symm, .inr ⟨hne, .inr ⟨hminus, rfl, ?_⟩⟩⟩
      rcases hunit with ⟨h1, -⟩ | ⟨-, htaken⟩
      · omega
      · exact htaken
    -- any other condition is passed on as it is
    · rename_i hnorm
      exact ⟨by simpa only [not_and_or, not_not] using htype, cmp, hnorm, (Option.some.inj h).symm,
        .inl rfl⟩

/-- The header's test of a control `VisitControl` annotates is the test of the normal form's
condition, before `VisitConditionLinear` turns `i != U` into `i < U` or `i > U`: the induction
moved to the left, and the condition negated where the loop goes on at the `false` side. -/
theorem visitControl_normalForm (hS : stride.eval env = some S) (hL : lower.eval env = some L)
    (hU : upper.eval env = some U)
    (hab : a = .linear stride lower t ∧ b = .invariant upper ∨
      a = .invariant upper ∧ b = .linear stride lower t)
    (hinput : implicitConversion inputType = t)
    (h : visitControl facts rewriteBreakLoop (some a) (some b) inputType cond trueInLoop
      falseInLoop = some tc) :
    ∃ cmp, visitConditionLinear facts rewriteBreakLoop stride lower t upper t cmp = some tc ∧
      iterates env a b inputType cond trueInLoop = normalTest cmp t S L U := by
  obtain ⟨cmp, hcmp, htest⟩ := visitControl_some h
  rw [hinput] at hcmp htest
  rcases hab with ⟨rfl, rfl⟩ | ⟨rfl, rfl⟩
  · refine ⟨cmp, hcmp, funext fun k => ?_⟩
    simp only [iterates, Info.value, hS, hL, hU, hinput, htest, Option.bind_eq_bind, Option.bind_some,
      normalTest]
  -- `U > i` is `i < U`
  · cases cmp <;> simp only [visitCondition, Option.bind_none, Option.bind_some, reduceCtorEq] at hcmp
    all_goals
      refine ⟨_, hcmp, funext fun k => ?_⟩
      simp only [iterates, Info.value, hS, hL, hU, hinput, htest, Option.bind_eq_bind,
        Option.bind_some]
      simp only [normalTest, Java.condition, bne_comm]

end Control

/-! ### The trip count counts the iterations -/

section Counting

variable {ι : Type} {facts : RangeFacts ι} {env : ι → Int} {t : DataType}
  {stride lower upper : Invariant ι} {S L U : Int} {cmp cmp' : IfCondition}

theorem visitTripCount_isFinite
    (h : (visitTripCount facts lower upper stride S t cmp).kind = .tripCountInLoop ∨
      (visitTripCount facts lower upper stride S t cmp).kind = .tripCountInBody) :
    isFinite facts upper S t cmp = true := by
  simp only [visitTripCount] at h
  split_ifs at h with hloop hbody <;> simp_all

theorem visitTripCount_isTaken
    (h : (visitTripCount facts lower upper stride S t cmp).kind = .tripCountInLoop) :
    isTaken facts lower upper cmp = true := by
  simp only [visitTripCount] at h
  split_ifs at h with hloop
  exact hloop.1

/-- Bounds that pass the normalized test leave the loop a non-negative number of passes. -/
theorem numerator_sign (hnorm : Normalized S cmp) (htaken : Java.condition cmp t L U = true) :
    0 < S ∧ 0 ≤ inclusiveBound cmp U + S - L ∨ S < 0 ∧ inclusiveBound cmp U + S - L ≤ 0 := by
  rcases hnorm with ⟨hS, rfl | rfl⟩ | ⟨hS, rfl | rfl⟩ <;>
    simp only [Java.condition, decide_eq_true_eq] at htaken <;>
    simp only [inclusiveBound, reduceCtorEq, if_true, if_false] <;> omega

/-- Where `U + S - L` is a value of the type, so is the numerator with the inclusive bound. -/
theorem numerator_inRange (ht : t.isIntOrLongType) (hnorm : Normalized S cmp)
    (hN : 0 < S ∧ 0 ≤ inclusiveBound cmp U + S - L ∨ S < 0 ∧ inclusiveBound cmp U + S - L ≤ 0)
    (h : t.InRange (U + S - L)) : t.InRange (inclusiveBound cmp U + S - L) := by
  have hzero := (inRange_iff ht).mp (DataType.InRange.of_int32 ht (x := 0) (by decide))
  rw [inRange_iff ht] at h ⊢
  rcases hnorm with ⟨hS, rfl | rfl⟩ | ⟨hS, rfl | rfl⟩ <;>
    simp only [inclusiveBound, reduceCtorEq, if_true, if_false] at hN ⊢ <;> omega

/-- The number of passes is below `2 ^ bits`: the numerator is a difference of two values of the
type. -/
theorem tdiv_lt_two_pow (ht : t.isIntOrLongType) {P : Int} (hL : t.InRange L) (hP : t.InRange P) :
    (P - L).tdiv S < 2 ^ Java.bitWidth t := by
  have habs := Int.natAbs_tdiv_le_natAbs (P - L) S
  obtain rfl | rfl : t = .int32 ∨ t = .int64 := by cases t <;> simp_all [DataType.isIntOrLongType]
  all_goals
    simp only [DataType.InRange, DataType.isUnsignedType, DataType.size, Bool.false_eq_true,
      if_false] at hL hP
    simp only [Java.bitWidth, DataType.size]
    omega

/-- A normalized loop whose bounds leave it a non-negative number of passes leaves after
`(U' + S - L) / S` of them. -/
theorem normalTest_exitsAfter (ht : t.isIntOrLongType) (hnorm : Normalized S cmp)
    (hL : t.InRange L) (hpast : t.InRange (inclusiveBound cmp U + S))
    (hN : 0 < S ∧ 0 ≤ inclusiveBound cmp U + S - L ∨ S < 0 ∧ inclusiveBound cmp U + S - L ≤ 0) :
    ExitsAfter (normalTest cmp t S L U) ((inclusiveBound cmp U + S - L).tdiv S).toNat ∧
      ∀ k ≤ ((inclusiveBound cmp U + S - L).tdiv S).toNat, t.InRange (S * k + L) := by
  rcases hnorm with ⟨hS, hcmp⟩ | ⟨hS, hcmp⟩
  · exact normalTest_exitsAfter_of_pos ht hS hcmp hL hpast (by omega)
  · exact normalTest_exitsAfter_of_neg ht hS hcmp hL hpast (by omega)

/-- A normalized loop whose bounds leave it no pass fails its first test. -/
theorem normalTest_zero (ht : t.isIntOrLongType) (hnorm : Normalized S cmp) (hL : t.InRange L)
    (hN : ¬ (0 < S ∧ 0 ≤ inclusiveBound cmp U + S - L ∨ S < 0 ∧ inclusiveBound cmp U + S - L ≤ 0)) :
    normalTest cmp t S L U 0 = some false := by
  rw [normalTest, Nat.cast_zero, Int.mul_zero, Int.zero_add, typeConversion_of_inRange ht hL]
  rcases hnorm with ⟨hS, rfl | rfl⟩ | ⟨hS, rfl | rfl⟩ <;>
    simp only [inclusiveBound, reduceCtorEq, if_true, if_false] at hN <;>
    simp only [Java.condition, Option.some.injEq, decide_eq_false_iff_not] <;> omega

/-- The loop `VisitConditionLinear` normalized leaves after the count of its normal form: `i != U`
with a unit stride agrees with `i < U` (or `i > U`) up to the exit, where the induction has not
passed `U`. -/
theorem exitsAfter_of_normalForm (ht : t.isIntOrLongType) (hnorm : Normalized S cmp')
    (hcmp : cmp' = cmp ∨ cmp = .ne ∧ (S = 1 ∧ cmp' = .lt ∨ S = -1 ∧ cmp' = .gt))
    (hL : t.InRange L) (hpast : t.InRange (inclusiveBound cmp' U + S))
    (hN : 0 < S ∧ 0 ≤ inclusiveBound cmp' U + S - L ∨ S < 0 ∧ inclusiveBound cmp' U + S - L ≤ 0) :
    ExitsAfter (normalTest cmp t S L U) ((inclusiveBound cmp' U + S - L).tdiv S).toNat ∧
      ∀ k ≤ ((inclusiveBound cmp' U + S - L).tdiv S).toNat, t.InRange (S * k + L) := by
  obtain ⟨hexit, hrange⟩ := normalTest_exitsAfter ht hnorm hL hpast hN
  rcases hcmp with rfl | ⟨rfl, ⟨rfl, rfl⟩ | ⟨rfl, rfl⟩⟩
  · exact ⟨hexit, hrange⟩
  -- `i != U` is `i < U` below `U`
  · refine ⟨hexit.congr fun k hk => ?_, hrange⟩
    have hcount : 0 ≤ (inclusiveBound .lt U + 1 - L).tdiv 1 := by
      rw [Int.tdiv_one]
      omega
    have hnear := (add_mul_mem_of_le_tdiv (L := L) (U := inclusiveBound .lt U) (S := 1) (by decide)
      (by omega) (k := k) (by omega)).2
    simp only [inclusiveBound, if_true] at hnear
    simp only [normalTest, typeConversion_of_inRange ht (hrange k hk), Java.condition]
    rw [Option.some.injEq, Bool.eq_iff_iff, bne_iff_ne, decide_eq_true_iff]
    constructor <;> intro <;> omega
  -- `i != U` is `i > U` above `U`
  · refine ⟨hexit.congr fun k hk => ?_, hrange⟩
    have hcount : 0 ≤ (inclusiveBound .gt U + -1 - L).tdiv (-1) := by
      rw [Int.tdiv_neg, Int.tdiv_one]
      omega
    have hnear := (add_mul_mem_of_le_tdiv_of_neg (L := L) (U := inclusiveBound .gt U) (S := -1)
      (by decide) (by omega) (k := k) (by omega)).1
    simp only [inclusiveBound, reduceCtorEq, if_true, if_false] at hnear
    simp only [normalTest, typeConversion_of_inRange ht (hrange k hk), Java.condition]
    rw [Option.some.injEq, Bool.eq_iff_iff, bne_iff_ne, decide_eq_true_iff]
    constructor <;> intro <;> omega

/-- A loop whose header ends in `if (i cmp U)` or `if (U cmp i)`, for the linear induction
`i = S * n + L` and the invariant `U` of the control type, that `VisitControl` annotates with the
trip count `TC`: where its kind is `kTripCountInLoop`, or `kTripCountInBody` and its taken-test
holds, the body runs `TC` times, read as unsigned, if the stride is `1` or `-1` or `U + S - L` is
a value of the type, and a loop that can also leave early runs it at most `TC` times; where
`IsFinite` held, the induction takes a value of its type at every execution of the header. -/
theorem tripCount_counts_iterations {a b : Info ι} {inputType : DataType} {cond : IfCondition}
    {trueInLoop falseInLoop : Bool} {tc : TripCount ι} (hsound : facts.Sound env)
    (hstride : stride.Fits env t) (hS : stride.eval env = some S)
    (hlower : lower.Fits env t) (hL : lower.eval env = some L)
    (hupper : upper.Fits env t) (hU : upper.eval env = some U)
    (hab : a = .linear stride lower t ∧ b = .invariant upper ∨
      a = .invariant upper ∧ b = .linear stride lower t)
    (hinput : implicitConversion inputType = t)
    (hcontrol : visitControl facts false (some a) (some b) inputType cond trueInLoop falseInLoop =
      some tc) :
    ∃ v, tc.count.eval env = some v ∧
      ((tc.kind = .tripCountInLoop ∨ tc.kind = .tripCountInBody ∧ tc.takenTest.eval env = some 1) →
        (S = 1 ∨ S = -1 ∨ t.InRange (U + S - L)) →
        ExitsAfter (iterates env a b inputType cond trueInLoop) (asUnsigned t v) ∧
        ∀ passes, (∀ k < passes, iterates env a b inputType cond trueInLoop k = some true) →
          passes ≤ asUnsigned t v) ∧
      ((tc.kind = .tripCountInLoop ∨ tc.kind = .tripCountInBody) →
        ∀ k, (∀ j < k, iterates env a b inputType cond trueInLoop j = some true) →
          t.InRange (S * k + L)) := by
  obtain ⟨cmp, hlinear, htest⟩ := visitControl_normalForm hS hL hU hab hinput hcontrol
  obtain ⟨htype, cmp', hnorm, rfl, hcmp⟩ := visitConditionLinear_normalForm hsound hS hlinear
  have ht : t.isIntOrLongType := by rcases htype with rfl | rfl <;> rfl
  have hLrange := hlower.eval_inRange ht hL
  have hUrange := hupper.eval_inRange ht hU
  -- the loop's test is the normal form's, but for `i != U` read as `i < U` or `i > U`
  have hsame : cmp' = cmp ∨ cmp = .ne ∧ (S = 1 ∧ cmp' = .lt ∨ S = -1 ∧ cmp' = .gt) := by
    rcases hcmp with h | ⟨hne, ⟨h1, h2, -⟩ | ⟨h1, h2, -⟩⟩
    · exact .inl h
    · exact .inr ⟨hne, .inl ⟨h1, h2⟩⟩
    · exact .inr ⟨hne, .inr ⟨h1, h2⟩⟩
  rw [htest]
  refine ⟨_, visitTripCount_count_eval hsound ht hstride hS hlower hL hupper hU hnorm, ?_, ?_⟩
  · intro hkind hfits
    -- the bounds pass the test, and one stride past the bound is a value of the type
    have htaken : Java.condition cmp' t L U = true := by
      rcases hkind with hloop | ⟨-, htakenTest⟩
      · exact isTaken_sound hsound hL hU (visitTripCount_isTaken hloop)
      · rw [visitTripCount_takenTest_eval hsound ht hlower hL hupper hU hnorm] at htakenTest
        split at htakenTest
        · assumption
        · cases htakenTest
    have hpast := isFinite_sound hsound ht hU hUrange hnorm
      (visitTripCount_isFinite (hkind.imp_right And.left))
    have hN := numerator_sign hnorm htaken
    obtain ⟨hexit, -⟩ := exitsAfter_of_normalForm ht hnorm hsame hLrange hpast hN
    rw [asUnsigned_tripCount ht (hfits.imp_right (Or.imp_right (numerator_inRange ht hnorm hN)))
      (tdiv_nonneg_of_sign hN) (tdiv_lt_two_pow ht hLrange hpast)]
    exact ⟨hexit, fun passes hpasses => hexit.le_of_passes hpasses⟩
  · intro hkind k hreached
    have hpast := isFinite_sound hsound ht hU hUrange hnorm (visitTripCount_isFinite hkind)
    by_cases hN : 0 < S ∧ 0 ≤ inclusiveBound cmp' U + S - L ∨ S < 0 ∧ inclusiveBound cmp' U + S - L ≤ 0
    · obtain ⟨hexit, hrange⟩ := exitsAfter_of_normalForm ht hnorm hsame hLrange hpast hN
      exact hrange k (hexit.le_of_passes hreached)
    -- bounds that leave no pass: the first test fails, and `i != U` was only read as `i < U`
    -- where the bounds pass `i <= U`
    · rcases hcmp with rfl | ⟨-, ⟨rfl, rfl, htakenLe⟩ | ⟨rfl, rfl, htakenGe⟩⟩
      · cases k with
        | zero => simpa using hLrange
        | succ k =>
          have hfirst := hreached 0 (Nat.succ_pos k)
          rw [normalTest_zero ht hnorm hLrange hN] at hfirst
          cases hfirst
      · have hle := isTaken_sound (t := t) hsound hL hU htakenLe
        simp only [Java.condition, decide_eq_true_eq] at hle
        simp only [inclusiveBound, if_true] at hN
        omega
      · have hge := isTaken_sound (t := t) hsound hL hU htakenGe
        simp only [Java.condition, decide_eq_true_eq] at hge
        simp only [inclusiveBound, reduceCtorEq, if_true, if_false] at hN
        omega

/-- `for (int i = 0; i < 10; i++)`. -/
def countToTen : Info Unit := .linear (.constant 1 .int32) (.constant 0 .int32) .int32

def ten : Info Unit := .invariant (.constant 10 .int32)

/-- The trip count `VisitControl` gives `countToTen`: the unit stride cancels, the bounds are known,
and `10 - 0` and `/ 1` simplify away. -/
def tenTrips : TripCount Unit :=
  ⟨.tripCountInLoop, .constant 10 .int32, .binary .lt (.constant 0 .int32) (.constant 10 .int32) .int32,
    .int32⟩

theorem visitControl_countToTen :
    visitControl constantFacts false (some countToTen) (some ten) .int32 .lt true false =
      some tenTrips := by
  simp [visitControl, visitCondition, visitConditionLinear, countToTen, ten, constantFacts,
    visitTripCount, isTaken, isFinite, createInvariantOp, createSimplifiedInvariant, tenTrips,
    implicitConversion, makeInvariant, Invariant.type]

theorem tripCount_counts_iterations_countToTen :
    visitControl constantFacts false (some countToTen) (some ten) .int32 .lt true false =
        some tenTrips ∧
      ExitsAfter (iterates (fun _ => 0) countToTen ten .int32 .lt true) 10 := by
  have hfits (value : Int) (h : DataType.int32.InRange value) :
      (Invariant.constant value .int32 : Invariant Unit).Fits (fun _ => 0) .int32 := ⟨rfl, h⟩
  obtain ⟨v, hv, hexact, -⟩ := tripCount_counts_iterations (constantFacts_sound fun _ => 0)
    (hfits 1 (by decide)) rfl (hfits 0 (by decide)) rfl (hfits 10 (by decide)) rfl
    (.inl ⟨rfl, rfl⟩) rfl visitControl_countToTen
  have hten : v = 10 := by
    simp only [tenTrips, Invariant.eval, Option.some.injEq] at hv
    exact hv.symm
  subst hten
  exact ⟨visitControl_countToTen, (hexact (.inl rfl) (.inl rfl)).1⟩

/-- `for (int i = INT_MIN; i <= INT_MAX - 2; i += 2)`. -/
def countByTwo : Info Unit := .linear (.constant 2 .int32) (.constant (-2 ^ 31) .int32) .int32

def nearMax : Info Unit := .invariant (.constant (2 ^ 31 - 3) .int32)

/-- The trip count `VisitControl` gives `countByTwo`: `IsTaken` and `IsFinite` hold, and
`(U + 2 - L) / 2` is built as it stands. -/
def byTwoTrips : TripCount Unit :=
  ⟨.tripCountInLoop,
    .binary .div (.binary .sub (.binary .add (.constant (2 ^ 31 - 3) .int32) (.constant 2 .int32) .int32)
      (.constant (-2 ^ 31) .int32) .int32) (.constant 2 .int32) .int32,
    .binary .le (.constant (-2 ^ 31) .int32) (.constant (2 ^ 31 - 3) .int32) .int32, .int32⟩

theorem visitControl_countByTwo :
    visitControl constantFacts false (some countByTwo) (some nearMax) .int32 .le true false =
      some byTwoTrips := by
  simp [visitControl, visitCondition, visitConditionLinear, countByTwo, nearMax, constantFacts,
    visitTripCount, isTaken, isFinite, createInvariantOp, createSimplifiedInvariant, byTwoTrips,
    implicitConversion, makeInvariant, Invariant.type, maxValueOfIntegralType]

/-- The loop runs `2^31 - 1` times, while the trip count of kind `kTripCountInLoop` it is given is
`0`: the numerator `2^32 - 1` wraps around to `-1`, which the stride `2` truncates to `0`. -/
theorem longStride_tripCount_wraps :
    visitControl constantFacts false (some countByTwo) (some nearMax) .int32 .le true false =
        some byTwoTrips ∧
      byTwoTrips.kind = .tripCountInLoop ∧ byTwoTrips.count.eval (fun _ => 0) = some 0 ∧
      ExitsAfter (iterates (fun _ => 0) countByTwo nearMax .int32 .le true) (2 ^ 31 - 1) ∧
      ¬ ExitsAfter (iterates (fun _ => 0) countByTwo nearMax .int32 .le true) (asUnsigned .int32 0) := by
  have htest : iterates (fun _ => 0) countByTwo nearMax .int32 .le true =
      normalTest .le .int32 2 (-2 ^ 31) (2 ^ 31 - 3) := by
    funext k
    simp [iterates, Info.value, normalTest, countByTwo, nearMax, Invariant.eval, implicitConversion]
  have hexit := (normalTest_exitsAfter (t := .int32) (S := 2) (L := -2 ^ 31) (U := 2 ^ 31 - 3)
    (by decide) (.inl ⟨by decide, .inr rfl⟩)
    (by decide) (by decide) (.inl ⟨by decide, by decide⟩)).1
  have hcount : ((inclusiveBound .le (2 ^ 31 - 3) + 2 - -2 ^ 31).tdiv 2).toNat = 2 ^ 31 - 1 := by
    decide
  rw [hcount] at hexit
  refine ⟨visitControl_countByTwo, rfl, by decide, htest ▸ hexit, ?_⟩
  -- the header's first test passes
  rw [htest]
  intro hzero
  have hfirst := hzero.2
  revert hfirst
  decide

end Counting

end InductionVarAnalysis

end AndroidArt.Optimizing
