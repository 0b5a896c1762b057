/-
Module: AndroidArt.Llvm.HGraphToLlvm
Purpose: The scalar integral part of the LLVM backend of `compiler/mcr_cc/llvm`: how
  `HGraphToLLVM::HandleBinaryOp`, `GetShiftOperation`, `HandleCondition`, `VisitNeg`, `VisitNot`,
  `VisitBooleanNot` and `VisitTypeConversion` turn an HIR instruction into LLVM instructions,
  with the `IRBuilder` helpers they call, and how an HIR value is held in an LLVM register
  (sub-word types widened into `i32`).
Trusted boundary: the inline-assembly `ror` of `Arm64::__Ror` is given the meaning of the AArch64
  `ROR` instruction (rotate by the amount modulo the register width).
Main exports: isSigned, upcastWidth, represent, handleBinaryOp
-/
import AndroidArt.Lib.LlvmInteger
import AndroidArt.Optimizing.JavaSemantics

namespace AndroidArt.Llvm

open AndroidArt.Optimizing
open AndroidArt.Lib.Llvm

/-!
Every HIR value is held in the LLVM type `IRBuilder::getType` gives its `DataType`, which is
`getTypeUpcast`: `i64` for the 64-bit integral types and `i32` for every other integral type,
`bool`, `byte`, `short` and `char` included.  A Java value `x` of type `t` is therefore held as
the `upcastWidth t`-bit pattern of `x`, which for `x` in the range of `t` is its sign or zero
extension.  Floating-point operands take the `is_fp` branches, which emit floating-point
instructions; they are outside this model.
-/

/-- `IRBuilder::IsSigned`: every type that `DataType::IsUnsignedType` rejects, so `bool` is
unsigned. -/
def isSigned (t : DataType) : Bool := !t.isUnsignedType

/-- The width of `IRBuilder::getTypeUpcast` for an integral type. -/
def upcastWidth (t : DataType) : Nat :=
  if t.is64BitType then 64 else 32

/-- The LLVM value that holds the Java value `x` of type `t`. -/
def represent (t : DataType) (x : Int) : IntValue :=
  IntValue.ofInt (upcastWidth t) x

/-- The `ror` of `Arm64::__Ror` with a register amount: rotate right by the amount modulo the
width. -/
def rorRegister (lhs rhs : IntValue) : Option IntValue :=
  IntValue.lift2 (fun {w} x s => some (x.rotateRight (s.toNat % w))) lhs rhs

/-- The `ror` of `Arm64::__Ror` with an immediate amount. -/
def rorImmediate (lhs : IntValue) (imm2 : Nat) : IntValue :=
  ⟨lhs.width, lhs.bits.map fun x => x.rotateRight imm2⟩

/-- `HGraphToLLVM::GetShiftOperation` on the already widened operands.  When the operand types
differ, the narrower one is cast to the wider, sign-extending unless the operation is `UShr`.
`rightConstant` is the value of the distance when it is an `HConstant`. -/
def getShiftOperation (op : BinaryOp) (leftType : DataType) (rightConstant : Option Int)
    (lhs rhs : IntValue) : Option IntValue :=
  let isSigned := op != .ushr
  let (castedLhs, castedRhs) :=
    if lhs.width = rhs.width then (lhs, rhs)
    else if rhs.width < lhs.width then (lhs, rhs.intCast lhs.width isSigned)
    else (lhs.intCast rhs.width isSigned, rhs)
  match op with
  | .shl => castedLhs.shl castedRhs
  | .shr => castedLhs.ashr castedRhs
  | .ushr => castedLhs.lshr castedRhs
  | .ror =>
    match rightConstant with
    | some imm => some (rorImmediate lhs ((imm % 2 ^ 64).toNat &&& (leftType.size * 8 - 1)))
    | none => rorRegister lhs rhs
  | _ => none

/-- `IntrinsicHelper::canonical_MaxOrMin`: compare with `icmp sgt` (or `ugt` for an unsigned
result type) and select. -/
def canonicalMaxOrMin (isMax : Bool) (resultType : DataType) (lhs rhs : IntValue) :
    Option IntValue := do
  let cond ← lhs.icmp (if isSigned resultType then .sgt else .ugt) rhs
  if isMax then cond.select lhs rhs else cond.select rhs lhs

/-- `HGraphToLLVM::HandleBinaryOp` for integral operands: widen each operand to its
`getTypeUpcast` type, then emit the instruction of the operation.  `Add`, `Sub` and `Mul` carry
the `nsw` flag (`CreateAdd(lhs, rhs, "", false, true)`), `Div` is `sdiv`, and `Rem` is `srem`
when either operand type is signed and `urem` otherwise. -/
def handleBinaryOp (op : BinaryOp) (leftType rightType resultType : DataType)
    (rightConstant : Option Int) (lhs rhs : IntValue) : Option IntValue :=
  let lhs := if leftType.isIntegralType then lhs.intCast (upcastWidth leftType)
    (isSigned leftType) else lhs
  let rhs := if rightType.isIntegralType then rhs.intCast (upcastWidth rightType)
    (isSigned rightType) else rhs
  let isSignedOp := isSigned leftType || isSigned rightType
  match op with
  | .add => lhs.addNsw rhs
  | .sub => lhs.subNsw rhs
  | .mul => lhs.mulNsw rhs
  | .div => lhs.sdiv rhs
  | .and => lhs.and rhs
  | .or => lhs.or rhs
  | .rem => if isSignedOp then lhs.srem rhs else lhs.urem rhs
  | .xor => lhs.xor rhs
  | .shl | .shr | .ushr | .ror => getShiftOperation op leftType rightConstant lhs rhs
  | .min => canonicalMaxOrMin false resultType lhs rhs
  | .max => canonicalMaxOrMin true resultType lhs rhs

/-- The `IsSigned(IfCondition)` helper of `hgraph_helper.cc`: the four signed relations are
signed; equality and the unsigned relations are not. -/
def conditionIsSigned : IfCondition → Bool
  | .eq | .ne => false
  | .lt | .le | .gt | .ge => true
  | .b | .be | .a | .ae => false

/-- `HGraphToLLVM::HandleCondition` for integral operands: one `icmp`, cast to the result
type.  The `<=` branch passes `IsSigned(result_type)` where every other branch passes the
signedness of the condition. -/
def handleCondition (cond : IfCondition) (resultType : DataType) (lhs rhs : IntValue) :
    Option IntValue := do
  let isSignedCond := conditionIsSigned cond
  let predicate : IntPredicate :=
    match cond with
    | .eq => .eq
    | .ne => .ne
    | .gt | .a => if isSignedCond then .sgt else .ugt
    | .ge | .ae => if isSignedCond then .sge else .uge
    | .lt | .b => if isSignedCond then .slt else .ult
    | .le | .be => if isSigned resultType then .sle else .ule
  let condition ← lhs.icmp predicate rhs
  some (condition.intCast (upcastWidth resultType) (isSigned resultType))

/-- `HGraphToLLVM::VisitNeg` for an integral input: `sub 0, x`, truncated to `i16` when the
input is a `char`. -/
def visitNeg (inputType : DataType) (value : IntValue) : IntValue :=
  let res := value.neg
  if inputType == .uint16 then res.trunc 16 else res

/-- `HGraphToLLVM::VisitNot`: `xor x, -1`. -/
def visitNot (value : IntValue) : IntValue := value.not

/-- `HGraphToLLVM::VisitBooleanNot`: truncate to `i1`, complement, and zero-extend to the
result type. -/
def visitBooleanNot (resultType : DataType) (value : IntValue) : IntValue :=
  ((value.trunc 1).not).zext (upcastWidth resultType)

/-- `HGraphToLLVM::VisitTypeConversion` between integral types: one `CreateIntCast` to
`getType(result_type)`, signed unless the result type is unsigned. -/
def visitTypeConversion (resultType : DataType) (value : IntValue) : IntValue :=
  value.intCast (upcastWidth resultType) (isSigned resultType)

/-- The translation at inputs of the operand types where Java defines a result: `-1 <= 0` on
`int` becomes `icmp ule` and yields `false`; `(byte) 300` keeps the `i32` value `300` instead of
`44`; `Integer.MAX_VALUE + 1` is `poison` under `add nsw`; `1 << 33` is `poison` because the
distance is not masked; and `Integer.MIN_VALUE / -1` is immediate undefined behaviour of
`sdiv`. -/
theorem scalarTranslation_diverges_from_java :
    Java.condition .le .int32 (-1) 0 = true ∧
      handleCondition .le .bool (represent .int32 (-1)) (represent .int32 0) =
        some (represent .bool 0) ∧
      Java.typeConversion .int8 300 = 44 ∧
      visitTypeConversion .int8 (represent .int32 300) = represent .int32 300 ∧
      represent .int32 300 ≠ represent .int8 44 ∧
      Java.binaryOp .add .int32 2147483647 1 = some (-2147483648) ∧
      handleBinaryOp .add .int32 .int32 .int32 none (represent .int32 2147483647)
        (represent .int32 1) = some (IntValue.poison 32) ∧
      Java.binaryOp .shl .int32 1 33 = some 2 ∧
      handleBinaryOp .shl .int32 .int32 .int32 none (represent .int32 1) (represent .int32 33) =
        some (IntValue.poison 32) ∧
      Java.binaryOp .div .int32 (-2147483648) (-1) = some (-2147483648) ∧
      handleBinaryOp .div .int32 .int32 .int32 none (represent .int32 (-2147483648))
        (represent .int32 (-1)) = none := by
  decide

end AndroidArt.Llvm
