/-
Module: AndroidArt.Optimizing.Expression
Purpose: The integral data-flow expressions of HIR (`compiler/optimizing/nodes.h`) that the
  instruction simplifier rewrites and the constant folder evaluates.
Trusted boundary: the HIR graph is a DAG whose shared instructions are repeated here, and
  identity of instructions (`==` on `HInstruction*`) is modelled as equality of trees. Identical
  instructions are equal trees and equal trees have equal values, so a rewrite guarded by
  identity fires in the model wherever it fires in the code, and is sound in the code where it is
  sound in the model.
Main exports: HExpr, HExpr.type, HExpr.WellTyped, HExpr.eval
-/
import AndroidArt.Optimizing.JavaSemantics

namespace AndroidArt.Optimizing

/-- Whether the right input of an `HBinaryOperation` is a distance: the shifts and `HRor`. -/
def BinaryOp.isShift : BinaryOp → Bool
  | .shl | .shr | .ushr | .ror => true
  | _ => false

/-- `HBinaryOperation::IsCommutative` of the integral operations. -/
def BinaryOp.isCommutative : BinaryOp → Bool
  | .add | .mul | .and | .or | .xor | .min | .max => true
  | _ => false

/-- An integral HIR expression. -/
inductive HExpr where
  /-- An instruction the rewrites do not look into, of type `type`; `id` names its value. -/
  | input (type : DataType) (id : Nat)
  /-- `HIntConstant`. -/
  | intConstant (value : BitVec 32)
  /-- `HLongConstant`. -/
  | longConstant (value : BitVec 64)
  /-- An integral `HBinaryOperation` with result type `type`. -/
  | binary (op : BinaryOp) (type : DataType) (left right : HExpr)
  /-- `HNeg`. -/
  | neg (type : DataType) (input : HExpr)
  /-- `HNot`. -/
  | not (type : DataType) (input : HExpr)
  /-- `HBooleanNot`. -/
  | booleanNot (input : HExpr)
  /-- `HTypeConversion` to `resultType`. -/
  | typeConversion (resultType : DataType) (input : HExpr)
  /-- An `HCondition` on integral inputs; its value is a `bool`. -/
  | condition (cond : IfCondition) (left right : HExpr)
  /-- `HCompare` of integral inputs: `-1`, `0` or `1`. -/
  | compare (left right : HExpr)
deriving Repr, DecidableEq, Inhabited

namespace HExpr

/-- `HInstruction::GetType`. -/
def type : HExpr → DataType
  | input t _ => t
  | intConstant _ => .int32
  | longConstant _ => .int64
  | binary _ t _ _ => t
  | neg t _ => t
  | not t _ => t
  | booleanNot _ => .bool
  | typeConversion t _ => t
  | condition .. => .bool
  | compare .. => .int32

/-- `Int64FromConstant` of an `HIntConstant` or `HLongConstant`, sign-extended to 64 bits;
`none` where `IsConstant` is false. -/
def int64FromConstant : HExpr → Option (BitVec 64)
  | intConstant v => some (v.signExtend 64)
  | longConstant v => some v
  | _ => none

/-- `HInstruction::IsConstant` of the integral constants. -/
def isConstant (e : HExpr) : Bool := e.int64FromConstant.isSome

/-- The type checks of the `nodes.h` constructors: arithmetic in `int` or `long` on inputs of
that kind, shift and rotate distances of kind `int`, conversions between the scalar integral
types and never to `bool`, conditions and comparisons of two inputs of one arithmetic kind. -/
def WellTyped : HExpr → Prop
  | input t _ => t.isScalarIntegral
  | intConstant _ => True
  | longConstant _ => True
  | binary op t l r => t.isIntOrLongType ∧ l.type.kind = t ∧
      r.type.kind = (if op.isShift then .int32 else t) ∧ l.WellTyped ∧ r.WellTyped
  | neg t e => t.isIntOrLongType ∧ e.type.kind = t ∧ e.WellTyped
  | not t e => t.isIntOrLongType ∧ e.type.kind = t ∧ e.WellTyped
  | booleanNot e => e.type = .bool ∧ e.WellTyped
  | typeConversion t e => t.isScalarIntegral ∧ t ≠ .bool ∧ e.WellTyped
  | condition _ l r => l.type.kind.isIntOrLongType ∧ r.type.kind = l.type.kind ∧
      l.WellTyped ∧ r.WellTyped
  | compare l r => l.type.kind.isIntOrLongType ∧ r.type.kind = l.type.kind ∧
      l.WellTyped ∧ r.WellTyped

instance decWellTyped : (e : HExpr) → Decidable e.WellTyped
  | input t _ => inferInstanceAs (Decidable (t.isScalarIntegral = true))
  | intConstant _ => inferInstanceAs (Decidable True)
  | longConstant _ => inferInstanceAs (Decidable True)
  | binary _ _ l r =>
    have := decWellTyped l
    have := decWellTyped r
    inferInstanceAs (Decidable (_ ∧ _ ∧ _ ∧ _ ∧ _))
  | neg _ e | not _ e =>
    have := decWellTyped e
    inferInstanceAs (Decidable (_ ∧ _ ∧ _))
  | booleanNot e =>
    have := decWellTyped e
    inferInstanceAs (Decidable (_ ∧ _))
  | typeConversion _ e =>
    have := decWellTyped e
    inferInstanceAs (Decidable (_ ∧ _ ∧ _))
  | condition _ l r | compare l r =>
    have := decWellTyped l
    have := decWellTyped r
    inferInstanceAs (Decidable (_ ∧ _ ∧ _ ∧ _))

/-- The Java value of an expression, where `env` gives the values of the inputs (taken in the
range of their types); `none` where Java throws. -/
def eval (env : Nat → Int) : HExpr → Option Int
  | input t id => some (Java.typeConversion t (env id))
  | intConstant v => some v.toInt
  | longConstant v => some v.toInt
  | binary op t l r => do Java.binaryOp op t (← l.eval env) (← r.eval env)
  | neg t e => (e.eval env).map (Java.neg t)
  | not t e => (e.eval env).map (Java.not t)
  | booleanNot e => (e.eval env).map Java.booleanNot
  | typeConversion t e => (e.eval env).map (Java.typeConversion t)
  | condition c l r => do
      pure ((Java.condition c l.type (← l.eval env) (← r.eval env)).toNat : Int)
  | compare l r => do pure (Java.compare (← l.eval env) (← r.eval env))

section Typing

/-- A well-typed expression has a scalar integral type. -/
theorem WellTyped.scalar {e : HExpr} (h : e.WellTyped) : e.type.isScalarIntegral := by
  cases e with
  | input t _ => exact h
  | binary _ t _ _ | neg t _ | not t _ =>
    have ht : t.isIntOrLongType := h.1
    cases t <;> simp_all [DataType.isIntOrLongType, DataType.isScalarIntegral, type]
  | typeConversion t _ => exact h.1
  | _ => rfl

/-- Every value of a well-typed expression lies in the range of its type. -/
theorem eval_inRange {env : Nat → Int} {e : HExpr} (hwt : e.WellTyped) {v : Int}
    (h : e.eval env = some v) : e.type.InRange v := by
  induction e generalizing v with
  | input t id =>
    cases h
    exact Java.typeConversion_inRange t _
  | intConstant c =>
    cases h
    exact Java.inRange_toInt (t := .int32) rfl c
  | longConstant c =>
    cases h
    exact Java.inRange_toInt (t := .int64) rfl c
  | binary op t l r ihl ihr =>
    obtain ⟨ht, hl, hr, hwl, hwr⟩ := hwt
    simp only [eval, Option.bind_eq_bind, Option.bind_eq_some_iff] at h
    obtain ⟨x, hx, y, hy, hv⟩ := h
    -- the left input is of the operation's kind, the right one of it or an `int` distance
    have hxr : t.InRange x := hl ▸ (ihl hwl hx).kind hwl.scalar
    have hyr : t.InRange y := by
      have hy' := (ihr hwr hy).kind hwr.scalar
      rw [hr] at hy'
      split at hy'
      · exact DataType.InRange.of_int32 ht hy'
      · exact hy'
    exact Java.binaryOp_inRange ht hxr hyr hv
  | neg t e _ | not t e _ =>
    obtain ⟨ht, -, -⟩ := hwt
    simp only [eval, Option.map_eq_some_iff] at h
    obtain ⟨x, -, rfl⟩ := h
    exact Java.wrap_inRange (Java.isUnsignedType_of_isIntOrLongType ht) _
  | booleanNot e _ =>
    simp only [eval, Option.map_eq_some_iff] at h
    obtain ⟨x, -, rfl⟩ := h
    show DataType.bool.InRange (Java.booleanNot x)
    unfold Java.booleanNot
    split <;> decide
  | typeConversion t e _ =>
    simp only [eval, Option.map_eq_some_iff] at h
    obtain ⟨x, -, rfl⟩ := h
    exact Java.typeConversion_inRange t x
  | condition c l r _ _ =>
    simp only [eval, Option.bind_eq_bind, Option.bind_eq_some_iff, Option.pure_def,
      Option.some.injEq] at h
    obtain ⟨x, -, y, -, rfl⟩ := h
    show DataType.bool.InRange _
    cases Java.condition c l.type x y <;> decide
  | compare l r _ _ =>
    simp only [eval, Option.bind_eq_bind, Option.bind_eq_some_iff, Option.pure_def,
      Option.some.injEq] at h
    obtain ⟨x, -, y, -, rfl⟩ := h
    show DataType.int32.InRange (Java.compare x y)
    unfold Java.compare
    split
    · decide
    · split <;> decide

end Typing

end HExpr

end AndroidArt.Optimizing
