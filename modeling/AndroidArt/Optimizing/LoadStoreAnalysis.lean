/-
Module: AndroidArt.Optimizing.LoadStoreAnalysis
Purpose: `HeapLocationCollector::CanArrayElementsAlias` (compiler/optimizing/
  load_store_analysis.cc): whether two array accesses, each of `vector_length` elements from an
  index, may touch a common element.
Trusted boundary: the identity of instructions is equality of trees, as in
  AndroidArt.Optimizing.Expression. The C++ negation of an `int32_t` constant is taken to wrap
  (`-INT32_MIN` is `INT32_MIN`), as it does on the targets, and so is the conversion of the
  `uint64_t` sum `l + (vector_length - 1)` to `int64_t`.
Main exports: canIntegerRangesOverlap, canBinaryOpAndIndexAlias, canBinaryOpsAlias,
  canArrayElementsAlias
-/
import AndroidArt.Optimizing.Expression

namespace AndroidArt.Optimizing

namespace HExpr

/-- `HInstruction::IsBinaryOperation`. -/
def isBinaryOperation : HExpr → Bool
  | binary .. => true
  | _ => false

/-- `HInstruction::IsAdd`. -/
def isAdd : HExpr → Bool
  | binary .add .. => true
  | _ => false

/-- `IsAddOrSub`. -/
def isAddOrSub : HExpr → Bool
  | binary .add .. | binary .sub .. => true
  | _ => false

/-- `HBinaryOperation::GetConstantRight`: the right input if it is a constant, else the left
one if the operation is commutative and that is a constant. -/
def constantRight : HExpr → Option HExpr
  | binary op _ l r =>
    if r.isConstant then some r
    else if op.isCommutative ∧ l.isConstant then some l
    else none
  | _ => none

/-- `HBinaryOperation::GetLeastConstantLeft`: the input that `GetConstantRight` does not
return. -/
def leastConstantLeft : HExpr → Option HExpr
  | e@(binary _ _ l r) =>
    match e.constantRight with
    | none => none
    | some c => if c = l then some r else some l
  | _ => none

end HExpr

namespace LoadStoreAnalysis

open HExpr

/-- `CanIntegerRangesOverlap(l1, h1, l2, h2)` of the inclusive ranges `[l1, h1]` and
`[l2, h2]`. -/
def canIntegerRangesOverlap (l1 h1 l2 h2 : Int) : Bool :=
  decide (max l1 l2 ≤ min h1 h2)

/-- `l + (vector_length - 1)`: the `uint64_t` sum stored into an `int64_t`. -/
def rangeEnd (l : Int) (vectorLength : Nat) : Int :=
  Java.wrap 64 (l + (vectorLength - 1 : Nat))

/-- The constant of `i + CONST` or `i - CONST` as the analysis reads it: the `int32_t` value,
negated for `HSub`. -/
def constantOffset (idx : HExpr) (value : BitVec 32) : Int :=
  if idx.isAdd then value.toInt else Java.wrap 32 (-value.toInt)

/-- `CanBinaryOpAndIndexAlias(idx1, vector_length1, idx2, vector_length2)`: `[i+CONST]`
against `[i]`. -/
def canBinaryOpAndIndexAlias (idx1 : HExpr) (vectorLength1 : Nat) (idx2 : HExpr)
    (vectorLength2 : Nat) : Bool :=
  if !idx1.isAddOrSub then true
  else if idx1.leastConstantLeft ≠ some idx2 then true
  else
    match idx1.constantRight with
    | some (intConstant value) =>
      let l1 := constantOffset idx1 value
      let l2 : Int := 0
      canIntegerRangesOverlap l1 (rangeEnd l1 vectorLength1) l2 (rangeEnd l2 vectorLength2)
    | _ => true

/-- `CanBinaryOpsAlias(idx1, vector_length1, idx2, vector_length2)`: `[i+CONST1]` against
`[i+CONST2]`. -/
def canBinaryOpsAlias (idx1 : HExpr) (vectorLength1 : Nat) (idx2 : HExpr)
    (vectorLength2 : Nat) : Bool :=
  if !idx1.isAddOrSub || !idx2.isAddOrSub then true
  else if idx1.leastConstantLeft ≠ idx2.leastConstantLeft then true
  else
    match idx1.constantRight, idx2.constantRight with
    | some (intConstant value1), some (intConstant value2) =>
      let l1 := constantOffset idx1 value1
      let l2 := constantOffset idx2 value2
      canIntegerRangesOverlap l1 (rangeEnd l1 vectorLength1) l2 (rangeEnd l2 vectorLength2)
    | _, _ => true

/-- `HeapLocationCollector::CanArrayElementsAlias(idx1, vector_length1, idx2,
vector_length2)`. -/
def canArrayElementsAlias (idx1 : HExpr) (vectorLength1 : Nat) (idx2 : HExpr)
    (vectorLength2 : Nat) : Bool :=
  -- `[i]` and `[i]`
  if idx1 = idx2 then true
  else
    match idx1, idx2 with
    -- `[CONST1]` and `[CONST2]`
    | intConstant value1, intConstant value2 =>
      canIntegerRangesOverlap value1.toInt (rangeEnd value1.toInt vectorLength1)
        value2.toInt (rangeEnd value2.toInt vectorLength2)
    | _, _ =>
      -- `[i+CONST]` and `[i]`
      if idx1.isBinaryOperation ∧ idx1.constantRight.isSome ∧
          idx1.leastConstantLeft = some idx2 then
        canBinaryOpAndIndexAlias idx1 vectorLength1 idx2 vectorLength2
      -- `[i]` and `[i+CONST]`
      else if idx2.isBinaryOperation ∧ idx2.constantRight.isSome ∧
          idx2.leastConstantLeft = some idx1 then
        canBinaryOpAndIndexAlias idx2 vectorLength2 idx1 vectorLength1
      -- `[i+CONST1]` and `[i+CONST2]`
      else if idx1.isBinaryOperation ∧ idx1.constantRight.isSome ∧
          idx2.isBinaryOperation ∧ idx2.constantRight.isSome then
        canBinaryOpsAlias idx1 vectorLength1 idx2 vectorLength2
      else true

/-- The elements accessed from indices `v1` and `v2`, `vectorLength1` and `vectorLength2` of
them, have none in common. -/
def ElementsDisjoint (v1 : Int) (vectorLength1 : Nat) (v2 : Int) (vectorLength2 : Nat) : Prop :=
  ∀ x, ¬(v1 ≤ x ∧ x < v1 + vectorLength1 ∧ v2 ≤ x ∧ x < v2 + vectorLength2)

/-- `a[i + 0x80000000]` against the two lanes `a[i + 0x7fffffff]`, `a[i + 0x7fffffff + 1]`,
with `i = -2`.  The first index wraps to `2^31 - 2`, the second is `2^31 - 3`, so both
accesses touch element `2^31 - 2` of an array of `2^31 - 1` elements.  The analysis compares the
constants as if neither sum wrapped and answers that the accesses cannot alias. -/
theorem canArrayElementsAlias_misses_wrapped_overlap :
    canArrayElementsAlias (.binary .add .int32 (.input .int32 0) (.intConstant 0x80000000#32)) 1
        (.binary .add .int32 (.input .int32 0) (.intConstant 0x7FFFFFFF#32)) 2 = false ∧
      (HExpr.binary .add .int32 (.input .int32 0) (.intConstant 0x80000000#32)).eval
        (fun _ => -2) = some (2 ^ 31 - 2) ∧
      (HExpr.binary .add .int32 (.input .int32 0) (.intConstant 0x7FFFFFFF#32)).eval
        (fun _ => -2) = some (2 ^ 31 - 3) ∧
      ¬ElementsDisjoint (2 ^ 31 - 2) 1 (2 ^ 31 - 3) 2 := by
  refine ⟨by decide, by decide, by decide, ?_⟩
  intro hdisjoint
  exact hdisjoint (2 ^ 31 - 2) (by omega)

end LoadStoreAnalysis

end AndroidArt.Optimizing
