/-
Module: AndroidArt.Optimizing.ConstantFolding
Purpose: Constant folding (`compiler/optimizing/constant_folding.cc`): `TryStaticEvaluation` of
  the integral binary operations, conditions, comparisons and unary operations on `int` and
  `long` constants (their `Evaluate` and `Compute` in `nodes.h`),
  `HTypeConversion::TryStaticEvaluation` on integral and floating-point constants, and the
  rewrites of `InstructionWithAbsorbingInputSimplifier`.
Trusted boundary: as in `AndroidArt.Optimizing.Expression`. Signed integer arithmetic in
  `Compute` wraps around, as the two's-complement instructions it compiles to do; a
  floating-point value cast to an integer type it does not fit is undefined behaviour,
  `Folded.undefined`. Floating-point constants are those whose value is an integer, NaN or an
  infinity; folds of `float` and `double` arithmetic, of null constants, and the `HCompare`
  rewrite for a NaN operand are not modelled.
Main exports: computeIntegral, computeShift, tryStaticEvaluation, tryStaticEvaluation_eval
-/
import AndroidArt.Optimizing.InstructionSimplifier
import AndroidArt.Lib.IntegralFloat

namespace AndroidArt.Optimizing

open AndroidArt.Lib

/-- `kPrimIntMax`. -/
def kPrimIntMax : Int := 0x7fffffff

/-- `kPrimIntMin`. -/
def kPrimIntMin : Int := -0x80000000

/-- `kPrimLongMax`. -/
def kPrimLongMax : Int := 0x7fffffffffffffff

/-- `kPrimLongMin`. -/
def kPrimLongMin : Int := -0x8000000000000000

/-- The unsigned conditions `HBelow`, `HBelowOrEqual`, `HAbove`, `HAboveOrEqual`. -/
def IfCondition.isUnsigned : IfCondition → Bool
  | .b | .be | .a | .ae => true
  | _ => false

namespace ConstantFolding

open HExpr

/-! ### `Compute` and `Evaluate` -/

/-- `Compute` of an integral `HBinaryOperation` other than a shift or rotation, on two values of
a type `T` of `w` bits; `none` where a `DCHECK` stops the compiler (a zero divisor) and for the
shifts and rotations, whose `Compute` takes a distance. -/
def computeIntegral (op : BinaryOp) {w : Nat} (x y : BitVec w) : Option (BitVec w) :=
  match op with
  | .add => some (x + y)
  | .sub => some (x - y)
  | .mul => some (x * y)
  -- `HDiv::ComputeIntegral`: `-x` for `-1`, where `x / y` would overflow
  | .div => if y = 0 then none else some (if y = -1 then -x else x.sdiv y)
  | .rem => if y = 0 then none else some (if y = -1 then 0 else x.srem y)
  | .and => some (x &&& y)
  | .or => some (x ||| y)
  | .xor => some (x ^^^ y)
  | .min => some (if x.sle y then x else y)
  | .max => some (if y.sle x then x else y)
  | .shl | .shr | .ushr | .ror => none

/-- `Compute(value, distance, max_shift_distance)` of `HShl`, `HShr`, `HUShr` and `HRor`, the
distance an `int32_t`; `none` for the other operations. -/
def computeShift (op : BinaryOp) {w : Nat} (value : BitVec w) (distance : BitVec 32)
    (maxShiftDistance : BitVec 64) : Option (BitVec w) :=
  let d := distance.toNat &&& maxShiftDistance.toNat
  match op with
  | .shl => some (value <<< d)
  | .shr => some (value.sshiftRight d)
  | .ushr => some (value >>> d)
  | .ror => some (if d = 0 then value else value >>> d ||| value <<< (w - d))
  | _ => none

/-- `HBinaryOperation::TryStaticEvaluation` of an integral operation: `Evaluate` on two `int`
constants, on a `long` and an `int` constant (defined for the shifts and rotations only), and
on two `long` constants (not defined for them). -/
def binaryTryStaticEvaluation (op : BinaryOp) : HExpr → HExpr → Option HExpr
  | intConstant x, intConstant y =>
    (if op.isShift then computeShift op x y kMaxIntShiftDistance
      else computeIntegral op x y).map intConstant
  | longConstant x, intConstant y => (computeShift op x y kMaxLongShiftDistance).map longConstant
  | longConstant x, longConstant y => (computeIntegral op x y).map longConstant
  | _, _ => none

/-- `HCondition::Compare`: `1`, `-1` or `0` as `x` is above, below or equal to `y`. -/
def conditionCompare {w : Nat} (x y : BitVec w) : BitVec 32 :=
  if y.slt x then 1 else if x.slt y then -1 else 0

/-- `HCompare::Compute`, the same three-way comparison. -/
def compareCompute {w : Nat} (x y : BitVec w) : BitVec 32 :=
  if y.slt x then 1 else if x.slt y then -1 else 0

/-- `Compute` of the conditions, the unsigned ones on `MakeUnsigned` of their operands. -/
def computeCondition (cond : IfCondition) {w : Nat} (x y : BitVec w) : Bool :=
  match cond with
  | .eq => x == y
  | .ne => x != y
  | .lt => x.slt y
  | .le => x.sle y
  | .gt => y.slt x
  | .ge => y.sle x
  | .b => x.ult y
  | .be => x.ule y
  | .a => y.ult x
  | .ae => y.ule x

/-- `MakeConstantCondition`: `GetIntConstant` of the truth value. -/
def makeConstantCondition (value : Bool) : HExpr := intConstant (if value then 1 else 0)

/-- `Evaluate` of a condition: on `int` constants `Compute(x, y)`; on `long` constants the
signed conditions compute `Compute(Compare(x, y), 0)`, the merged `HCompare`. -/
def conditionTryStaticEvaluation (cond : IfCondition) : HExpr → HExpr → Option HExpr
  | intConstant x, intConstant y => some (makeConstantCondition (computeCondition cond x y))
  | longConstant x, longConstant y =>
    if cond.isUnsigned then some (makeConstantCondition (computeCondition cond x y))
    else some (makeConstantCondition (computeCondition cond (conditionCompare x y) 0))
  | _, _ => none

/-- `HCompare::Evaluate` on integral constants. -/
def compareTryStaticEvaluation : HExpr → HExpr → Option HExpr
  | intConstant x, intConstant y => some (intConstant (compareCompute x y))
  | longConstant x, longConstant y => some (intConstant (compareCompute x y))
  | _, _ => none

/-- `HUnaryOperation::TryStaticEvaluation` of `HNeg`, `HNot` (`Compute` is `-x` and `~x`) and
`HBooleanNot` (`!x`, defined on `int` constants only). -/
def unaryTryStaticEvaluation : HExpr → Option HExpr
  | neg _ (intConstant x) => some (intConstant (-x))
  | neg _ (longConstant x) => some (longConstant (-x))
  | HExpr.not _ (intConstant x) => some (intConstant (~~~x))
  | HExpr.not _ (longConstant x) => some (longConstant (~~~x))
  | booleanNot (intConstant x) => some (makeConstantCondition (x = 0))
  | _ => none

/-! ### Conversions -/

/-- The constants `HTypeConversion::TryStaticEvaluation` reads and makes. -/
inductive HConstant where
  | int (value : BitVec 32)
  | long (value : BitVec 64)
  | float (value : FpValue)
  | double (value : FpValue)
deriving Repr, DecidableEq, Inhabited

/-- What a `TryStaticEvaluation` comes to: `nullptr`, a constant, or a C++ operation whose
behaviour is undefined. -/
inductive Folded where
  | notFolded
  | constant (value : HConstant)
  | undefined
deriving Repr, DecidableEq, Inhabited

/-- An integer as a `float` operand, the usual arithmetic conversion: the nearest `float`. -/
def toFloat (z : Int) : FpValue := FpValue.ofInt 24 128 z

/-- An integer as a `double` operand. -/
def toDouble (z : Int) : FpValue := FpValue.ofInt 53 1024 z

/-- `static_cast<int8_t>`, `static_cast<uint8_t>`, `static_cast<int16_t>` and
`static_cast<uint16_t>` of an integer, taken back to `int32_t`: its low `n` bits, extended by
their sign or by zeros. -/
def narrowToInt {w : Nat} (n : Nat) (signed : Bool) (value : BitVec w) : BitVec 32 :=
  if signed then (value.setWidth n).signExtend 32 else (value.setWidth n).setWidth 32

/-- A floating-point value to `int` or `long` of `w` bits: NaN to `0`, a value at least
`maxBound` to `maxValue`, one at most `minBound` to `minValue`, any other through
`static_cast`. -/
def convertFpToSigned (w : Nat) (make : Int → HConstant) (value maxBound minBound : FpValue)
    (maxValue minValue : Int) : Folded :=
  if value.isNaN then .constant (make 0)
  else if value.ge maxBound then .constant (make maxValue)
  else if value.le minBound then .constant (make minValue)
  else
    match value.castToSigned w with
    | some z => .constant (make z)
    | none => .undefined

/-- An `int` constant of an integer value. -/
def intOf (z : Int) : HConstant := .int (BitVec.ofInt 32 z)

/-- A `long` constant of an integer value. -/
def longOf (z : Int) : HConstant := .long (BitVec.ofInt 64 z)

/-- `HTypeConversion::TryStaticEvaluation` of a conversion to `resultType` of a constant. -/
def typeConversionTryStaticEvaluation (resultType : DataType) : HConstant → Folded
  | .int value =>
    match resultType with
    | .int8 => .constant (.int (narrowToInt 8 true value))
    | .uint8 => .constant (.int (narrowToInt 8 false value))
    | .int16 => .constant (.int (narrowToInt 16 true value))
    | .uint16 => .constant (.int (narrowToInt 16 false value))
    | .int64 => .constant (.long (value.signExtend 64))
    | .float32 => .constant (.float (toFloat value.toInt))
    | .float64 => .constant (.double (toDouble value.toInt))
    | _ => .notFolded
  | .long value =>
    match resultType with
    | .int8 => .constant (.int (narrowToInt 8 true value))
    | .uint8 => .constant (.int (narrowToInt 8 false value))
    | .int16 => .constant (.int (narrowToInt 16 true value))
    | .uint16 => .constant (.int (narrowToInt 16 false value))
    | .int32 => .constant (.int (value.setWidth 32))
    | .float32 => .constant (.float (toFloat value.toInt))
    | .float64 => .constant (.double (toDouble value.toInt))
    | _ => .notFolded
  | .float value =>
    match resultType with
    | .int32 =>
      convertFpToSigned 32 intOf value (toFloat kPrimIntMax) (toFloat kPrimIntMin) kPrimIntMax
        kPrimIntMin
    | .int64 =>
      convertFpToSigned 64 longOf value (toFloat kPrimLongMax) (toFloat kPrimLongMin)
        kPrimLongMax kPrimLongMin
    | .float64 => .constant (.double value)
    | _ => .notFolded
  | .double value =>
    match resultType with
    | .int32 =>
      -- `value <= kPrimLongMin`, where the other branches test the minimum of their own type
      if value.isNaN then .constant (intOf 0)
      else if value.ge (toDouble kPrimIntMax) then .constant (intOf kPrimIntMax)
      else if value.le (toDouble kPrimLongMin) then .constant (intOf kPrimIntMin)
      else
        match value.castToSigned 32 with
        | some z => .constant (intOf z)
        | none => .undefined
    | .int64 =>
      convertFpToSigned 64 longOf value (toDouble kPrimLongMax) (toDouble kPrimLongMin)
        kPrimLongMax kPrimLongMin
    | .float32 => .constant (.float (value.round 24 128))
    | _ => .notFolded

/-- The integral constants as `HConstant`s. -/
def toHConstant : HExpr → Option HConstant
  | intConstant v => some (.int v)
  | longConstant v => some (.long v)
  | _ => none

/-- An integral constant made by a fold as an instruction. -/
def Folded.toHExpr : Folded → Option HExpr
  | .constant (.int v) => some (intConstant v)
  | .constant (.long v) => some (longConstant v)
  | _ => none

/-- `TryStaticEvaluation` of an integral instruction: the constant that replaces it, `none`
where it is not folded. -/
def tryStaticEvaluation : HExpr → Option HExpr
  | binary op _ l r => binaryTryStaticEvaluation op l r
  | condition cond l r => conditionTryStaticEvaluation cond l r
  | HExpr.compare l r => compareTryStaticEvaluation l r
  | typeConversion t e => (toHConstant e).bind fun c => (typeConversionTryStaticEvaluation t c).toHExpr
  | e => unaryTryStaticEvaluation e

/-! ### Absorbing inputs -/

/-- `HConstant::IsArithmeticZero` of an integral constant. -/
def isArithmeticZero : HExpr → Bool
  | intConstant v => v == 0
  | longConstant v => v == 0
  | _ => false

/-- `HGraph::GetConstant(type, 0)`. -/
def zeroOf (type : DataType) : HExpr :=
  if type = .int64 then longConstant 0 else intConstant 0

/-- `InstructionWithAbsorbingInputSimplifier` on an integral instruction: the instruction that
replaces it, `none` where it stays. -/
def absorbingInputSimplify : HExpr → Option HExpr
  -- `VisitShift`: `0 << x`, `0 >> x` and `0 >>> x` are `0`
  | binary .shl _ l _ | binary .shr _ l _ | binary .ushr _ l _ =>
    if isArithmeticZero l then some l else none
  -- `VisitAnd`: `x & 0` is `0` (`IsZeroBitPattern`, on integral constants `IsArithmeticZero`)
  | binary .and _ l r =>
    match InstructionSimplifier.getConstantRight .and l r with
    | some c => if isArithmeticZero c then some c else none
    | none => none
  -- `VisitMul`: `x * 0` is `0` in `int` and `long`
  | binary .mul t l r =>
    match InstructionSimplifier.getConstantRight .mul l r with
    | some c => if t.isIntOrLongType && isArithmeticZero c then some c else none
    | none => none
  -- `VisitOr`: `x | -1` is `-1`
  | binary .or _ l r =>
    match InstructionSimplifier.getConstantRight .or l r with
    | some c => if c.int64FromConstant = some (-1) then some c else none
    | none => none
  -- `VisitRem`: `0 % x`, `x % 1`, `x % -1` and `x % x` are `0`; where `0 % x` is replaced
  -- first, its users see that replacement
  | binary .rem t l r =>
    if !t.isIntegralType then none
    else if isArithmeticZero l then some l
    else if (r.int64FromConstant = some 1 ∨ r.int64FromConstant = some (-1)) ∨ l = r then
      some (zeroOf t)
    else none
  -- `VisitSub` and `VisitXor`: `x - x` and `x ^ x` are `0`
  | binary .sub t l r => if t.isIntegralType && l = r then some (zeroOf t) else none
  | binary .xor t l r => if l = r then some (zeroOf t) else none
  -- `VisitAbove`, `VisitAboveOrEqual`, `VisitBelow`, `VisitBelowOrEqual` against an unsigned `0`
  | condition .a l _ => if isArithmeticZero l then some (intConstant 0) else none
  | condition .ae _ r => if isArithmeticZero r then some (intConstant 1) else none
  | condition .b _ r => if isArithmeticZero r then some (intConstant 0) else none
  | condition .be l _ => if isArithmeticZero l then some (intConstant 1) else none
  | _ => none

/-- `HConstantFoldingVisitor::VisitBinaryOperation`: the fold, or else the absorbing-input
rewrites. -/
def visitBinaryOperation (e : HExpr) : Option HExpr :=
  match tryStaticEvaluation e with
  | some c => some c
  | none => absorbingInputSimplify e

/-! ### `Compute` is Java's arithmetic

On two's-complement vectors of the operation's width the C++ operations are Java's: the wrap
of the exact result is the vector operation, `y == -1` is the one divisor where truncating
division overflows, and the masked distance is the distance modulo the width. -/

section Values

variable {t : DataType}

theorem wrap_toInt {w : Nat} (x : BitVec w) : Java.wrap w x.toInt = x.toInt := by
  rw [Java.wrap, BitVec.ofInt_toInt]

theorem toInt_neg_one {w : Nat} {y : BitVec w} (hy0 : y ≠ 0) (hy : y = -1) : y.toInt = -1 := by
  have hw : 0 < w := by
    rcases Nat.eq_zero_or_pos w with rfl | hw
    · exact absurd (Subsingleton.elim y 0) hy0
    · exact hw
  rw [hy]
  simp [BitVec.neg_one_eq_allOnes, BitVec.toInt_allOnes, hw]

theorem toInt_eq_zero_iff {w : Nat} {y : BitVec w} : y.toInt = 0 ↔ y = 0 := by
  rw [← BitVec.toInt_zero, BitVec.toInt_inj]
  exact Iff.rfl

/-- `HDiv::ComputeIntegral` is Java's `/`. -/
theorem computeIntegral_div_toInt {w : Nat} (x y : BitVec w) :
    (computeIntegral .div x y).map BitVec.toInt =
      if y.toInt = 0 then none else some (Java.wrap w (x.toInt.tdiv y.toInt)) := by
  simp only [computeIntegral, toInt_eq_zero_iff]
  split
  · rfl
  · rename_i hy0
    simp only [Option.map_some, Option.some.injEq]
    split
    · -- `-x`: the quotient by `-1`, wrapped
      rename_i hm
      rw [toInt_neg_one hy0 hm, Int.tdiv_neg, Int.tdiv_one, Java.wrap, BitVec.ofInt_neg,
        BitVec.ofInt_toInt]
    · rw [BitVec.toInt_sdiv, Java.wrap, BitVec.toInt_ofInt]

/-- `HRem::ComputeIntegral` is Java's `%`. -/
theorem computeIntegral_rem_toInt {w : Nat} (x y : BitVec w) :
    (computeIntegral .rem x y).map BitVec.toInt =
      if y.toInt = 0 then none else some (Java.wrap w (x.toInt.tmod y.toInt)) := by
  simp only [computeIntegral, toInt_eq_zero_iff]
  split
  · rfl
  · rename_i hy0
    simp only [Option.map_some, Option.some.injEq]
    split
    · rename_i hm
      rw [toInt_neg_one hy0 hm, Int.tmod_neg, Int.tmod_one, ← BitVec.toInt_zero, wrap_toInt]
      rfl
    · rw [← BitVec.toInt_srem, wrap_toInt]

/-- The operations other than shifts and rotations compute Java's value of their operands. -/
theorem computeIntegral_toInt {op : BinaryOp} (hop : op.isShift = false) {w : Nat}
    (hw : Java.bitWidth t = w) (x y : BitVec w) :
    (computeIntegral op x y).map BitVec.toInt = Java.binaryOp op t x.toInt y.toInt := by
  subst hw
  cases op <;> simp only [BinaryOp.isShift, Bool.true_eq_false] at hop
  case div => exact computeIntegral_div_toInt x y
  case rem => exact computeIntegral_rem_toInt x y
  case add =>
    simp only [computeIntegral, Java.binaryOp, Option.map_some, Java.wrap, BitVec.ofInt_add,
      BitVec.ofInt_toInt]
  case sub =>
    simp only [computeIntegral, Java.binaryOp, Option.map_some, Java.wrap, Int.sub_eq_add_neg,
      BitVec.ofInt_add, BitVec.ofInt_neg, BitVec.ofInt_toInt, BitVec.sub_eq_add_neg]
  case mul =>
    simp only [computeIntegral, Java.binaryOp, Option.map_some, Java.wrap, BitVec.ofInt_mul,
      BitVec.ofInt_toInt]
  case and | or | xor =>
    simp only [computeIntegral, Java.binaryOp, Option.map_some, BitVec.ofInt_toInt]
  case min =>
    simp only [computeIntegral, Java.binaryOp, Option.map_some, Option.some.injEq]
    split
    · rename_i h
      rw [BitVec.sle_iff_toInt_le] at h
      omega
    · rename_i h
      rw [BitVec.sle_iff_toInt_le] at h
      omega
  case max =>
    simp only [computeIntegral, Java.binaryOp, Option.map_some, Option.some.injEq]
    split
    · rename_i h
      rw [BitVec.sle_iff_toInt_le] at h
      omega
    · rename_i h
      rw [BitVec.sle_iff_toInt_le] at h
      omega

/-- The distance `distance & max_shift_distance` is Java's distance modulo the width. -/
theorem maskedDistance_eq (ht : t.isIntOrLongType) (y : BitVec 32) :
    y.toNat &&& (BitVec.ofNat 64 (Java.bitWidth t - 1)).toNat =
      (y.toInt % (Java.bitWidth t : Int)).toNat := by
  rcases InstructionSimplifier.bitWidth_eq ht with h | h <;> rw [h]
  · rw [toInt_emod_of_dvd ⟨2 ^ 27, by decide⟩, ← Int.natCast_mod, Int.toNat_natCast]
    exact Nat.and_two_pow_sub_one_eq_mod y.toNat 5
  · rw [toInt_emod_of_dvd ⟨2 ^ 26, by decide⟩, ← Int.natCast_mod, Int.toNat_natCast]
    exact Nat.and_two_pow_sub_one_eq_mod y.toNat 6

/-- `HRor::Compute` rotates: at a distance `d` in `(0, w)` the two shifted halves are the
rotation, and at `0` the value. -/
theorem rorCompute_eq {w d : Nat} (hd : d < w) (x : BitVec w) :
    (if d = 0 then x else x >>> d ||| x <<< (w - d)) = x.rotateRight d := by
  split
  · rename_i h0
    subst h0
    rw [← ushiftRight_or_shiftLeft_eq_rotateRight hd hd (by simp), BitVec.ushiftRight_zero,
      BitVec.shiftLeft_zero, BitVec.or_self]
  · exact ushiftRight_or_shiftLeft_eq_rotateRight hd (by omega) (by rw [Nat.add_sub_cancel' hd.le, Nat.mod_self])

/-- Shifts and rotations compute Java's value of their operands. -/
theorem computeShift_toInt (ht : t.isIntOrLongType) {op : BinaryOp} (hop : op.isShift) {w : Nat}
    (hw : Java.bitWidth t = w) (x : BitVec w) (y : BitVec 32) :
    (computeShift op x y (BitVec.ofNat 64 (Java.bitWidth t - 1))).map BitVec.toInt =
      Java.binaryOp op t x.toInt y.toInt := by
  subst hw
  have hd := maskedDistance_eq ht y
  have hw := InstructionSimplifier.bitWidth_pos ht
  have hlt : (y.toInt % (Java.bitWidth t : Int)).toNat < Java.bitWidth t := by
    have hlo := Int.emod_nonneg y.toInt (show (Java.bitWidth t : Int) ≠ 0 by omega)
    have hhi := Int.emod_lt_of_pos y.toInt (show (0 : Int) < Java.bitWidth t by omega)
    omega
  cases op <;> simp only [BinaryOp.isShift, Bool.false_eq_true] at hop <;>
    simp only [computeShift, Java.binaryOp, Option.map_some, BitVec.ofInt_toInt, hd]
  case ror => rw [rorCompute_eq hlt]

end Values

/-! ### Conditions, comparisons and unary operations -/

section Comparisons

variable {w : Nat}

/-- The three-way comparison is Java's `lcmp`. -/
theorem toInt_compareCompute (x y : BitVec w) :
    (compareCompute x y).toInt = Java.compare x.toInt y.toInt := by
  unfold compareCompute Java.compare
  by_cases hgt : y.slt x = true
  · rw [BitVec.slt_iff_toInt_lt] at hgt
    rw [if_pos (BitVec.slt_iff_toInt_lt.mpr hgt), if_neg (by omega), if_neg (by omega)]
    rfl
  · have hge : x.toInt ≤ y.toInt := by
      rw [BitVec.slt_iff_toInt_lt] at hgt
      omega
    rw [if_neg hgt]
    by_cases hlt : x.toInt < y.toInt
    · rw [if_pos (BitVec.slt_iff_toInt_lt.mpr hlt), if_pos hlt]
      rfl
    · rw [if_neg (fun h => hlt (BitVec.slt_iff_toInt_lt.mp h)), if_neg hlt, if_pos (by omega)]
      rfl

/-- A signed condition reads only whether its operands' values are below or equal. -/
theorem computeCondition_signed {cond : IfCondition} (hc : cond.isUnsigned = false) {w' : Nat}
    {a b : BitVec w} {c d : BitVec w'} (hlt : a.toInt < b.toInt ↔ c.toInt < d.toInt)
    (heq : a.toInt = b.toInt ↔ c.toInt = d.toInt) :
    computeCondition cond a b = computeCondition cond c d := by
  have heq' : a = b ↔ c = d := by
    rw [← BitVec.toInt_inj, ← BitVec.toInt_inj]
    exact heq
  -- every signed condition is decided by the order of the values
  have hle : a.toInt ≤ b.toInt ↔ c.toInt ≤ d.toInt := by
    rw [Int.le_iff_lt_or_eq, Int.le_iff_lt_or_eq, hlt, heq]
  have hgt : b.toInt < a.toInt ↔ d.toInt < c.toInt := by rw [← Int.not_le, ← Int.not_le, hle]
  have hge : b.toInt ≤ a.toInt ↔ d.toInt ≤ c.toInt := by rw [← Int.not_lt, ← Int.not_lt, hlt]
  cases cond <;> simp only [IfCondition.isUnsigned, Bool.true_eq_false] at hc <;>
    simp only [computeCondition, BitVec.slt, BitVec.sle, hlt, hle, hgt, hge]
  case eq => rw [Bool.eq_iff_iff, beq_iff_eq, beq_iff_eq, heq']
  case ne => rw [Bool.eq_iff_iff, bne_iff_ne, bne_iff_ne, ne_eq, ne_eq, heq']

/-- The merged `HCompare` of two `long` values compared with `0` is the condition of the
values. -/
theorem computeCondition_conditionCompare {cond : IfCondition} (hc : cond.isUnsigned = false)
    (x y : BitVec w) :
    computeCondition cond (conditionCompare x y) 0 = computeCondition cond x y := by
  have hcmp : (conditionCompare x y).toInt = Java.compare x.toInt y.toInt := toInt_compareCompute x y
  have h0 : (0 : BitVec 32).toInt = 0 := rfl
  apply computeCondition_signed hc
  · rw [hcmp, h0, Java.compare_neg_iff]
  · rw [hcmp, h0, Java.compare_eq_zero_iff]

/-- On vectors of the operands' kind, `Compute` of a condition is Java's. -/
theorem computeCondition_eq (cond : IfCondition) {t : DataType} (hw : Java.bitWidth t.kind = w)
    (x y : BitVec w) :
    computeCondition cond x y = Java.condition cond t x.toInt y.toInt := by
  subst hw
  cases cond <;>
    simp only [computeCondition, Java.condition, BitVec.ofInt_toInt, BitVec.slt, BitVec.sle,
      BitVec.ult, BitVec.ule]
  case eq => rw [Bool.eq_iff_iff, beq_iff_eq, beq_iff_eq, BitVec.toInt_inj]
  case ne => rw [Bool.eq_iff_iff, bne_iff_ne, bne_iff_ne, ne_eq, ne_eq, BitVec.toInt_inj]

theorem eval_makeConstantCondition (env : Nat → Int) (b : Bool) :
    (makeConstantCondition b).eval env = some (b.toNat : Int) := by
  cases b <;> rfl

theorem toInt_neg {t : DataType} (hw : Java.bitWidth t = w) (x : BitVec w) :
    (-x).toInt = Java.neg t x.toInt := by
  subst hw
  rw [Java.neg, Java.wrap, BitVec.ofInt_neg, BitVec.ofInt_toInt]

theorem toInt_not {t : DataType} (hw : Java.bitWidth t = w) (x : BitVec w) :
    (~~~x).toInt = Java.not t x.toInt := by
  subst hw
  have hnot : ~~~x = -x - 1 := by
    rw [BitVec.neg_eq_not_add]
    simp
  rw [Java.not, Java.wrap, Int.sub_eq_add_neg, BitVec.ofInt_add, BitVec.ofInt_neg,
    BitVec.ofInt_neg, BitVec.ofInt_toInt, hnot, BitVec.sub_eq_add_neg]
  simp

end Comparisons

/-! ### Narrowing and widening -/

section Conversions

/-- Reading a vector's value back into fewer bits keeps its low bits. -/
theorem ofInt_toInt_of_le {w n : Nat} (hn : n ≤ w) (v : BitVec w) :
    BitVec.ofInt n v.toInt = v.setWidth n := by
  apply BitVec.eq_of_toNat_eq
  have hdvd : (2 ^ n : Int) ∣ 2 ^ w := pow_dvd_pow 2 hn
  rw [BitVec.toNat_ofInt, BitVec.toNat_setWidth]
  push_cast
  rw [toInt_emod_of_dvd hdvd, show (2 : Int) ^ n = ((2 ^ n : Nat) : Int) by push_cast; rfl,
    ← Int.natCast_mod, Int.toNat_natCast]

/-- `static_cast` to a narrower type and back to `int32_t` is Java's narrowing conversion. -/
theorem narrowToInt_toInt {w n : Nat} (hn : n < 32) (hnw : n ≤ w) (signed : Bool)
    (v : BitVec w) :
    (narrowToInt n signed v).toInt =
      if signed then (BitVec.ofInt n v.toInt).toInt else (BitVec.ofInt n v.toInt).toNat := by
  rw [ofInt_toInt_of_le hnw]
  cases signed
  · -- zero-extended: the low bits are below `2^31`, so the `int32_t` is non-negative
    have hlt := (v.setWidth n).isLt
    have hpow : 2 ^ n ≤ 2 ^ 31 := Nat.pow_le_pow_right (by decide) (by omega)
    rw [narrowToInt, if_neg Bool.false_ne_true, if_neg Bool.false_ne_true,
      BitVec.toInt_eq_toNat_of_lt, BitVec.toNat_setWidth, Nat.mod_eq_of_lt (by omega)]
    rw [BitVec.toNat_setWidth, Nat.mod_eq_of_lt (by omega)]
    omega
  · rw [narrowToInt, if_pos rfl, if_pos rfl, BitVec.toInt_signExtend_of_le (by omega)]

/-- Widening an `int` to a `long` keeps its value. -/
theorem toInt_ofInt_int64 (v : BitVec 32) : (BitVec.ofInt 64 v.toInt).toInt = v.toInt := by
  have hlo := BitVec.le_toInt v
  have hhi := @BitVec.toInt_lt 32 v
  rw [BitVec.toInt_ofInt]
  exact Int.bmod_eq_of_le (by simp only [Nat.reduceSub] at hlo; omega)
    (by simp only [Nat.reduceSub] at hhi; omega)

end Conversions

/-! ### Every fold of an integral instruction is the constant of its Java value -/

section Folding

theorem isShift_of_computeShift {op : BinaryOp} {w : Nat} {x : BitVec w} {y : BitVec 32}
    {m : BitVec 64} {v : BitVec w} (h : computeShift op x y m = some v) : op.isShift := by
  cases op <;> simp_all [computeShift, BinaryOp.isShift]

theorem not_isShift_of_computeIntegral {op : BinaryOp} {w : Nat} {x y v : BitVec w}
    (h : computeIntegral op x y = some v) : op.isShift = false := by
  cases op <;> simp_all [computeIntegral, BinaryOp.isShift]

/-- `kMaxIntShiftDistance` and `kMaxLongShiftDistance` are the width less one. -/
theorem kMaxIntShiftDistance_eq : kMaxIntShiftDistance = BitVec.ofNat 64 (Java.bitWidth .int32 - 1) :=
  rfl

theorem kMaxLongShiftDistance_eq :
    kMaxLongShiftDistance = BitVec.ofNat 64 (Java.bitWidth .int64 - 1) :=
  rfl

/-- A fold of a well-typed binary operation is the constant of its Java value: the kind of the
left constant is the kind of the operation. -/
theorem binaryTryStaticEvaluation_eval {op : BinaryOp} {t : DataType} {l r c : HExpr}
    (hwt : (binary op t l r).WellTyped) (h : binaryTryStaticEvaluation op l r = some c)
    (env : Nat → Int) : c.eval env = (binary op t l r).eval env := by
  obtain ⟨-, hl, -, -, -⟩ := hwt
  unfold binaryTryStaticEvaluation at h
  split at h
  · -- two `int` constants
    rename_i x y
    obtain rfl : t = .int32 := hl.symm
    obtain ⟨v, hv, rfl⟩ := Option.map_eq_some_iff.mp h
    show some v.toInt = Java.binaryOp op .int32 x.toInt y.toInt
    split at hv
    · rename_i hop
      rw [← computeShift_toInt (t := .int32) (w := 32) rfl hop rfl x y, ← kMaxIntShiftDistance_eq, hv,
        Option.map_some]
    · rw [← computeIntegral_toInt (t := .int32) (w := 32) (not_isShift_of_computeIntegral hv) rfl x y, hv,
        Option.map_some]
  · -- a `long` shifted by an `int` distance
    rename_i x y
    obtain rfl : t = .int64 := hl.symm
    obtain ⟨v, hv, rfl⟩ := Option.map_eq_some_iff.mp h
    show some v.toInt = Java.binaryOp op .int64 x.toInt y.toInt
    rw [← computeShift_toInt (t := .int64) (w := 64) rfl (isShift_of_computeShift hv) rfl x y,
      ← kMaxLongShiftDistance_eq, hv, Option.map_some]
  · -- two `long` constants
    rename_i x y
    obtain rfl : t = .int64 := hl.symm
    obtain ⟨v, hv, rfl⟩ := Option.map_eq_some_iff.mp h
    show some v.toInt = Java.binaryOp op .int64 x.toInt y.toInt
    rw [← computeIntegral_toInt (t := .int64) (w := 64) (not_isShift_of_computeIntegral hv) rfl x y, hv,
      Option.map_some]
  · cases h

theorem conditionTryStaticEvaluation_eval {cond : IfCondition} {l r c : HExpr}
    (h : conditionTryStaticEvaluation cond l r = some c) (env : Nat → Int) :
    c.eval env = (condition cond l r).eval env := by
  unfold conditionTryStaticEvaluation at h
  split at h
  · rename_i x y
    cases h
    rw [eval_makeConstantCondition]
    exact congrArg (fun b : Bool => some (b.toNat : Int)) (computeCondition_eq cond (t := .int32) rfl x y)
  · rename_i x y
    -- the signed conditions of `long` values go through the merged `HCompare`
    split at h <;> cases h
    · rw [eval_makeConstantCondition]
      exact congrArg (fun b : Bool => some (b.toNat : Int))
        (computeCondition_eq cond (t := .int64) rfl x y)
    · rename_i hu
      rw [eval_makeConstantCondition, computeCondition_conditionCompare (by simpa using hu)]
      exact congrArg (fun b : Bool => some (b.toNat : Int))
        (computeCondition_eq cond (t := .int64) rfl x y)
  · cases h

theorem compareTryStaticEvaluation_eval {l r c : HExpr} (h : compareTryStaticEvaluation l r = some c)
    (env : Nat → Int) : c.eval env = (HExpr.compare l r).eval env := by
  unfold compareTryStaticEvaluation at h
  split at h
  · rename_i x y
    cases h
    show some (compareCompute x y).toInt = some (Java.compare x.toInt y.toInt)
    rw [toInt_compareCompute]
  · rename_i x y
    cases h
    show some (compareCompute x y).toInt = some (Java.compare x.toInt y.toInt)
    rw [toInt_compareCompute]
  · cases h

theorem unaryTryStaticEvaluation_eval {e c : HExpr} (hwt : e.WellTyped)
    (h : unaryTryStaticEvaluation e = some c) (env : Nat → Int) : c.eval env = e.eval env := by
  unfold unaryTryStaticEvaluation at h
  split at h <;> cases h
  · rename_i t x
    obtain rfl : t = .int32 := hwt.2.1.symm
    exact congrArg some (toInt_neg (t := .int32) rfl x)
  · rename_i t x
    obtain rfl : t = .int64 := hwt.2.1.symm
    exact congrArg some (toInt_neg (t := .int64) rfl x)
  · rename_i t x
    obtain rfl : t = .int32 := hwt.2.1.symm
    exact congrArg some (toInt_not (t := .int32) rfl x)
  · rename_i t x
    obtain rfl : t = .int64 := hwt.2.1.symm
    exact congrArg some (toInt_not (t := .int64) rfl x)
  · rename_i x
    rw [eval_makeConstantCondition]
    show some _ = some (Java.booleanNot x.toInt)
    by_cases hx : x = 0
    · rw [Java.booleanNot, if_pos (toInt_eq_zero_iff.mpr hx), decide_eq_true hx]
      rfl
    · rw [Java.booleanNot, if_neg (fun h => hx (toInt_eq_zero_iff.mp h)), decide_eq_false hx]
      rfl

/-- A narrowing `static_cast` read back as an `int` is Java's conversion to the narrow type. -/
theorem narrowToInt_eq {w n : Nat} {t : DataType} (hn : n < 32) (hnw : n ≤ w)
    (hbits : Java.bitWidth t = n) {signed : Bool} (hs : t.isUnsignedType = !signed)
    (v : BitVec w) : (narrowToInt n signed v).toInt = Java.typeConversion t v.toInt := by
  rw [narrowToInt_toInt hn hnw, Java.typeConversion, hs, hbits]
  cases signed <;> rfl

theorem typeConversionFold_eval {t : DataType} {e c : HExpr}
    (h : (toHConstant e).bind (fun k => (typeConversionTryStaticEvaluation t k).toHExpr) = some c)
    (env : Nat → Int) : c.eval env = (typeConversion t e).eval env := by
  cases e with
  | intConstant v =>
    show c.eval env = some (Java.typeConversion t v.toInt)
    unfold typeConversionTryStaticEvaluation at h
    cases t <;> simp only [toHConstant, Option.bind_some, Folded.toHExpr, reduceCtorEq,
      Option.some.injEq] at h <;> subst h
    case int8 =>
      exact congrArg some (narrowToInt_eq (n := 8) (t := .int8) (by decide) (by decide) rfl rfl v)
    case uint8 =>
      exact congrArg some (narrowToInt_eq (n := 8) (t := .uint8) (by decide) (by decide) rfl rfl v)
    case int16 =>
      exact congrArg some (narrowToInt_eq (n := 16) (t := .int16) (by decide) (by decide) rfl rfl v)
    case uint16 =>
      exact congrArg some (narrowToInt_eq (n := 16) (t := .uint16) (by decide) (by decide) rfl rfl v)
    case int64 =>
      show some (v.signExtend 64).toInt = some (BitVec.ofInt 64 v.toInt).toInt
      rw [BitVec.toInt_signExtend_of_le (by decide), toInt_ofInt_int64]
  | longConstant v =>
    show c.eval env = some (Java.typeConversion t v.toInt)
    unfold typeConversionTryStaticEvaluation at h
    cases t <;> simp only [toHConstant, Option.bind_some, Folded.toHExpr, reduceCtorEq,
      Option.some.injEq] at h <;> subst h
    case int8 =>
      exact congrArg some (narrowToInt_eq (n := 8) (t := .int8) (by decide) (by decide) rfl rfl v)
    case uint8 =>
      exact congrArg some (narrowToInt_eq (n := 8) (t := .uint8) (by decide) (by decide) rfl rfl v)
    case int16 =>
      exact congrArg some (narrowToInt_eq (n := 16) (t := .int16) (by decide) (by decide) rfl rfl v)
    case uint16 =>
      exact congrArg some (narrowToInt_eq (n := 16) (t := .uint16) (by decide) (by decide) rfl rfl v)
    case int32 =>
      show some (v.setWidth 32).toInt = some (BitVec.ofInt 32 v.toInt).toInt
      rw [ofInt_toInt_of_le (by decide)]
  | _ => simp [toHConstant] at h

/-- Every constant `TryStaticEvaluation` folds a well-typed integral instruction into has the
instruction's Java value. -/
theorem tryStaticEvaluation_eval {e c : HExpr} (hwt : e.WellTyped)
    (h : tryStaticEvaluation e = some c) (env : Nat → Int) : c.eval env = e.eval env := by
  cases e with
  | binary op t l r => exact binaryTryStaticEvaluation_eval hwt h env
  | condition cond l r => exact conditionTryStaticEvaluation_eval h env
  | compare l r => exact compareTryStaticEvaluation_eval h env
  | typeConversion t e => exact typeConversionFold_eval h env
  | _ => exact unaryTryStaticEvaluation_eval hwt h env

end Folding

/-! ### Floating-point constants to `int` and `long`

Java saturates: NaN is `0`, and a value beyond the range is its nearer end.  The code tests NaN,
then the maximum and the minimum of the type, each converted to the operand's format, and casts
what is left.  Rounded to a `float`, `kPrimIntMax` becomes `2^31` and `kPrimLongMax` `2^63`, which
no value below them reaches; the `double` to `int` branch tests `kPrimLongMin` in place of
`kPrimIntMin`, and leaves the integers between the two to the cast. -/

section FloatingPoint

theorem toFloat_kPrimIntMax : toFloat kPrimIntMax = .integer (2 ^ 31) := by decide

theorem toFloat_kPrimIntMin : toFloat kPrimIntMin = .integer (-2 ^ 31) := by decide

theorem toFloat_kPrimLongMax : toFloat kPrimLongMax = .integer (2 ^ 63) := by decide

theorem toFloat_kPrimLongMin : toFloat kPrimLongMin = .integer (-2 ^ 63) := by decide

-- the `double` thresholds are rounded exactly, but the overflow bound `2^1024` is too large to
-- evaluate, so finiteness comes from a smaller power of two
theorem toDouble_kPrimIntMax : toDouble kPrimIntMax = .integer (2 ^ 31 - 1) := by
  have hround : roundToPrecision 53 kPrimIntMax = 2 ^ 31 - 1 := by decide
  rw [toDouble, FpValue.ofInt_of_natAbs_le (k := 31) (by decide) (by rw [hround]; decide), hround]

theorem toDouble_kPrimLongMax : toDouble kPrimLongMax = .integer (2 ^ 63) := by
  have hround : roundToPrecision 53 kPrimLongMax = 2 ^ 63 := by decide
  rw [toDouble, FpValue.ofInt_of_natAbs_le (k := 63) (by decide) (by rw [hround]; decide), hround]

theorem toDouble_kPrimLongMin : toDouble kPrimLongMin = .integer (-2 ^ 63) := by
  have hround : roundToPrecision 53 kPrimLongMin = -2 ^ 63 := by decide
  rw [toDouble, FpValue.ofInt_of_natAbs_le (k := 63) (by decide) (by rw [hround]; decide), hround]

/-- With the lower threshold the minimum of the type and the upper one its maximum or the power
of two above it, the tests and the cast make Java's saturating conversion. -/
theorem convertFpToSigned_eq {w : Nat} {make : Int → HConstant} (v : FpValue)
    {M maxValue minValue : Int} (hM : 2 ^ (w - 1) - 1 ≤ M ∧ M ≤ 2 ^ (w - 1))
    (hmax : maxValue = 2 ^ (w - 1) - 1) (hmin : minValue = -2 ^ (w - 1)) :
    convertFpToSigned w make v (.integer M) (.integer minValue) maxValue minValue =
      .constant (make (Java.fpToIntegral w v)) := by
  subst hmax hmin
  unfold convertFpToSigned
  cases v with
  | nan => rfl
  | infinity negative =>
    cases negative
    · rfl
    · simp [FpValue.isNaN, FpValue.ge, FpValue.le, Java.fpToIntegral]
  | integer z =>
    simp only [FpValue.isNaN, Bool.false_eq_true, if_false, FpValue.ge_integer_iff,
      FpValue.le_integer_iff]
    by_cases hge : M ≤ z
    · rw [if_pos hge, Java.fpToIntegral_of_ge (by omega)]
    · by_cases hle : z ≤ -2 ^ (w - 1)
      · rw [if_neg hge, if_pos hle, Java.fpToIntegral_of_le hle]
      · -- strictly inside the range the cast is defined and keeps the value
        rw [if_neg hge, if_neg hle, FpValue.castToSigned_of_bounds (by omega) (by omega),
          Java.fpToIntegral_of_mem (by omega) (by omega)]

theorem typeConversionTryStaticEvaluation_float_int32 (v : FpValue) :
    typeConversionTryStaticEvaluation .int32 (.float v) =
      .constant (intOf (Java.fpToIntegral 32 v)) := by
  unfold typeConversionTryStaticEvaluation
  rw [toFloat_kPrimIntMax, toFloat_kPrimIntMin]
  exact convertFpToSigned_eq v (by decide) rfl rfl

/-- Outside the integers between the `long` and the `int` minimum, the `double` to `int` fold is
Java's conversion. -/
theorem typeConversionTryStaticEvaluation_double_int32 {v : FpValue}
    (hv : ∀ z, v = .integer z → z ≤ kPrimLongMin ∨ kPrimIntMin ≤ z) :
    typeConversionTryStaticEvaluation .int32 (.double v) =
      .constant (intOf (Java.fpToIntegral 32 v)) := by
  unfold typeConversionTryStaticEvaluation
  simp only [toDouble_kPrimIntMax, toDouble_kPrimLongMin]
  cases v with
  | nan => rfl
  | infinity negative =>
    cases negative
    · rfl
    · simp [FpValue.isNaN, FpValue.ge, FpValue.le, Java.fpToIntegral, kPrimIntMin]
  | integer z =>
    have hz := hv z rfl
    simp only [FpValue.isNaN, Bool.false_eq_true, if_false, FpValue.ge_integer_iff,
      FpValue.le_integer_iff, kPrimIntMax, kPrimIntMin, kPrimLongMin] at hz ⊢
    by_cases hge : 2 ^ 31 - 1 ≤ z
    · rw [if_pos hge, Java.fpToIntegral_of_ge hge]
      rfl
    · by_cases hle : z ≤ -2 ^ 63
      · rw [if_neg hge, if_pos hle, Java.fpToIntegral_of_le (by omega)]
        rfl
      · rw [if_neg hge, if_neg hle, FpValue.castToSigned_of_bounds (by omega) (by omega),
          Java.fpToIntegral_of_mem (by omega) (by omega)]

/-- Strictly between the `long` and the `int` minimum, an integral `double` passes the tests and
reaches `static_cast<int32_t>`, which it does not fit; Java converts it to the `int` minimum. -/
theorem typeConversionTryStaticEvaluation_double_int32_undefined {z : Int}
    (hlo : kPrimLongMin < z) (hhi : z < kPrimIntMin) :
    typeConversionTryStaticEvaluation .int32 (.double (.integer z)) = .undefined ∧
      Java.fpToIntegral 32 (.integer z) = kPrimIntMin := by
  simp only [kPrimIntMin, kPrimLongMin] at hlo hhi
  constructor
  · unfold typeConversionTryStaticEvaluation
    simp only [toDouble_kPrimIntMax, toDouble_kPrimLongMin, FpValue.isNaN, Bool.false_eq_true,
      if_false, FpValue.ge_integer_iff, FpValue.le_integer_iff, FpValue.castToSigned]
    rw [if_neg (by omega), if_neg (by omega), if_neg (by omega)]
  · simp only [Java.fpToIntegral, kPrimIntMin]
    omega

/-- The `double` `-3e9` folds through an undefined cast, where Java gives `Integer.MIN_VALUE`. -/
theorem doubleToIntFold_reaches_undefined_cast :
    typeConversionTryStaticEvaluation .int32 (.double (.integer (-3000000000))) = .undefined ∧
      Java.fpToIntegral 32 (.integer (-3000000000)) = kPrimIntMin :=
  typeConversionTryStaticEvaluation_double_int32_undefined (by decide) (by decide)

end FloatingPoint

/-! ### The absorbing-input rewrites keep the value

Each rewrite replaces an instruction by a constant its Java value always equals: an operand
that absorbs the operation (`0` for `&`, `*` and the shifts of `0`, `-1` for `|`), or the value
of `x - x`, `x ^ x`, `x % x` and `x % ±1`, or an unsigned comparison with `0`.  Where the
instruction throws (a remainder by zero) the rewrite need not agree, and the `HDivZeroCheck`
before it throws first. -/

section Absorbing

variable {env : Nat → Int} {t : DataType}

theorem eval_of_isArithmeticZero {c : HExpr} (h : isArithmeticZero c) (env : Nat → Int) :
    c.eval env = some 0 := by
  cases c with
  | intConstant v =>
    obtain rfl : v = 0 := by simpa [isArithmeticZero] using h
    rfl
  | longConstant v =>
    obtain rfl : v = 0 := by simpa [isArithmeticZero] using h
    rfl
  | _ => simp [isArithmeticZero] at h

theorem eval_zeroOf (t : DataType) (env : Nat → Int) : (zeroOf t).eval env = some 0 := by
  unfold zeroOf
  split <;> rfl

/-- The value `Int64FromConstant` reads is the constant's value. -/
theorem eval_of_int64FromConstant {c : HExpr} {k : BitVec 64} (h : c.int64FromConstant = some k)
    (env : Nat → Int) : c.eval env = some k.toInt := by
  cases c with
  | intConstant v =>
    cases h
    exact congrArg some (BitVec.toInt_signExtend_of_le (by decide)).symm
  | longConstant v =>
    cases h
    rfl
  | _ => simp [int64FromConstant] at h

theorem binaryOp_zero_shift {op : BinaryOp} (hop : op = .shl ∨ op = .shr ∨ op = .ushr)
    (y : Int) : Java.binaryOp op t 0 y = some 0 := by
  rcases hop with rfl | rfl | rfl <;>
    simp [Java.binaryOp, BitVec.zero_shiftLeft, BitVec.zero_sshiftRight, BitVec.zero_ushiftRight]

theorem binaryOp_and_zero (x : Int) : Java.binaryOp .and t x 0 = some 0 := by
  simp [Java.binaryOp]

theorem binaryOp_mul_zero (x : Int) : Java.binaryOp .mul t x 0 = some 0 := by
  simp [Java.binaryOp, Java.wrap]

theorem binaryOp_or_neg_one (hw : 0 < Java.bitWidth t) (x : Int) :
    Java.binaryOp .or t x (-1) = some (-1) := by
  have hones : BitVec.ofInt (Java.bitWidth t) (-1) = BitVec.allOnes _ := by
    rw [BitVec.ofInt_neg, BitVec.ofInt_ofNat, BitVec.neg_one_eq_allOnes]
  simp only [Java.binaryOp, hones, BitVec.or_allOnes, BitVec.toInt_allOnes, if_pos hw]

theorem binaryOp_sub_self (x : Int) : Java.binaryOp .sub t x x = some 0 := by
  simp [Java.binaryOp, Java.wrap]

theorem binaryOp_xor_self (x : Int) : Java.binaryOp .xor t x x = some 0 := by
  simp [Java.binaryOp]

/-- A remainder that is defined is `0` when the dividend is `0`, the divisor `±1`, or the
dividend the divisor. -/
theorem binaryOp_rem_eq_zero {x y v : Int} (h : Java.binaryOp .rem t x y = some v)
    (hz : x = 0 ∨ y = 1 ∨ y = -1 ∨ x = y) : v = 0 := by
  simp only [Java.binaryOp] at h
  split at h
  · cases h
  · cases h
    have hmod : x.tmod y = 0 := by
      rcases hz with rfl | rfl | rfl | rfl
      · exact Int.zero_tmod y
      · exact Int.tmod_one x
      · rw [Int.tmod_neg, Int.tmod_one]
      · exact Int.tmod_self
    rw [hmod]
    simp [Java.wrap]

/-- An operation commutes with its absorbing constant on the left as on the right. -/
theorem eval_absorbed {op : BinaryOp} {l r c : HExpr} {x y v a : Int}
    (hc : InstructionSimplifier.getConstantRight op l r = some c) (hcv : c.eval env = some a)
    (hx : l.eval env = some x) (hy : r.eval env = some y) (hv : Java.binaryOp op t x y = some v)
    (habs : ∀ z, Java.binaryOp op t z a = some a)
    (hcomm : op.isCommutative → ∀ z, Java.binaryOp op t a z = some a) :
    c.eval env = some v := by
  rcases InstructionSimplifier.getConstantRight_cases hc with ⟨rfl, -⟩ | ⟨hcom, rfl, -⟩
  · rw [hy] at hcv
    cases hcv
    rw [habs x] at hv
    rw [hy, ← hv]
  · rw [hx] at hcv
    cases hcv
    rw [hcomm hcom y] at hv
    rw [hx, ← hv]

theorem binaryOp_comm_of_isCommutative {op : BinaryOp} (hop : op.isCommutative) (x y : Int) :
    Java.binaryOp op t x y = Java.binaryOp op t y x := by
  apply Java.binaryOp_comm
  cases op <;> simp_all [BinaryOp.isCommutative]

/-- The rewrites of the binary operations. -/
theorem absorbingInputSimplify_binary_eval {op : BinaryOp} {l r e' : HExpr}
    (hwt : (binary op t l r).WellTyped) (h : absorbingInputSimplify (binary op t l r) = some e')
    {x y v : Int} (hx : l.eval env = some x) (hy : r.eval env = some y)
    (hv : Java.binaryOp op t x y = some v) : e'.eval env = some v := by
  have hw := InstructionSimplifier.bitWidth_pos hwt.1
  unfold absorbingInputSimplify at h
  cases op <;> simp only [reduceCtorEq] at h
  case shl | shr | ushr =>
    split at h <;> cases h
    rename_i hzero
    rw [eval_of_isArithmeticZero hzero env] at hx ⊢
    cases hx
    rw [binaryOp_zero_shift (by simp) y] at hv
    exact hv
  case and =>
    split at h
    · rename_i c hc
      split at h
      · rename_i hzero
        cases h
        refine eval_absorbed hc (eval_of_isArithmeticZero hzero env) hx hy hv
          (fun z => binaryOp_and_zero z) (fun hcom z => ?_)
        rw [binaryOp_comm_of_isCommutative hcom]
        exact binaryOp_and_zero z
      · cases h
    · cases h
  case mul =>
    split at h
    · rename_i c hc
      split at h
      · rename_i hzero
        cases h
        refine eval_absorbed hc (eval_of_isArithmeticZero (Bool.and_eq_true _ _ ▸ hzero).2 env)
          hx hy hv (fun z => binaryOp_mul_zero z) (fun hcom z => ?_)
        rw [binaryOp_comm_of_isCommutative hcom]
        exact binaryOp_mul_zero z
      · cases h
    · cases h
  case or =>
    split at h
    · rename_i c hc
      split at h
      · rename_i hones
        cases h
        refine eval_absorbed hc (eval_of_int64FromConstant hones env) hx hy hv
          (fun z => binaryOp_or_neg_one hw z) (fun hcom z => ?_)
        rw [binaryOp_comm_of_isCommutative hcom]
        exact binaryOp_or_neg_one hw z
      · cases h
    · cases h
  case rem =>
    split at h
    · cases h
    · split at h
      · -- `0 % x`
        cases h
        rename_i hzero
        rw [eval_of_isArithmeticZero hzero env] at hx ⊢
        cases hx
        rw [binaryOp_rem_eq_zero hv (Or.inl rfl)]
      · split at h <;> cases h
        rename_i hcases
        rw [eval_zeroOf, binaryOp_rem_eq_zero hv ?_]
        rcases hcases with (hone | hone) | rfl
        · rw [eval_of_int64FromConstant hone env] at hy
          cases hy
          exact Or.inr (Or.inl rfl)
        · rw [eval_of_int64FromConstant hone env] at hy
          cases hy
          exact Or.inr (Or.inr (Or.inl rfl))
        · rw [hx] at hy
          cases hy
          exact Or.inr (Or.inr (Or.inr rfl))
  case sub =>
    split at h <;> cases h
    rename_i hsame
    obtain rfl := (Bool.and_eq_true _ _ ▸ hsame).2 |> of_decide_eq_true
    rw [hx] at hy
    cases hy
    rw [binaryOp_sub_self] at hv
    rw [eval_zeroOf, hv]
  case xor =>
    split at h <;> cases h
    rename_i hsame
    subst hsame
    rw [hx] at hy
    cases hy
    rw [binaryOp_xor_self] at hv
    rw [eval_zeroOf, hv]

/-- The rewrites of the unsigned comparisons with `0`. -/
theorem absorbingInputSimplify_condition_eval {cond : IfCondition} {l r e' : HExpr}
    (h : absorbingInputSimplify (condition cond l r) = some e') {x y : Int}
    (hx : l.eval env = some x) (hy : r.eval env = some y) :
    e'.eval env = some ((Java.condition cond l.type x y).toNat : Int) := by
  unfold absorbingInputSimplify at h
  cases cond <;> simp only [reduceCtorEq] at h <;>
    split at h <;> cases h <;> rename_i hzero
  · rw [eval_of_isArithmeticZero hzero env] at hy
    cases hy
    simp [Java.condition, eval]
  · rw [eval_of_isArithmeticZero hzero env] at hx
    cases hx
    simp [Java.condition, eval]
  · rw [eval_of_isArithmeticZero hzero env] at hx
    cases hx
    simp [Java.condition, eval]
  · rw [eval_of_isArithmeticZero hzero env] at hy
    cases hy
    simp [Java.condition, eval]

/-- Every absorbing-input rewrite of a well-typed integral instruction keeps its value wherever
it has one. -/
theorem absorbingInputSimplify_eval {e e' : HExpr} (hwt : e.WellTyped)
    (h : absorbingInputSimplify e = some e') {v : Int} (hv : e.eval env = some v) :
    e'.eval env = some v := by
  cases e with
  | binary op t l r =>
    simp only [eval, Option.bind_eq_bind, Option.bind_eq_some_iff] at hv
    obtain ⟨x, hx, y, hy, hv⟩ := hv
    exact absorbingInputSimplify_binary_eval hwt h hx hy hv
  | condition cond l r =>
    simp only [eval, Option.bind_eq_bind, Option.bind_eq_some_iff, Option.pure_def,
      Option.some.injEq] at hv
    obtain ⟨x, hx, y, hy, rfl⟩ := hv
    exact absorbingInputSimplify_condition_eval h hx hy
  | _ =>
    unfold absorbingInputSimplify at h
    simp at h

/-- `HConstantFoldingVisitor::VisitBinaryOperation` keeps the value of every well-typed integral
instruction it replaces. -/
theorem visitBinaryOperation_eval {e e' : HExpr} (hwt : e.WellTyped)
    (h : visitBinaryOperation e = some e') {v : Int} (hv : e.eval env = some v) :
    e'.eval env = some v := by
  unfold visitBinaryOperation at h
  split at h
  · rename_i c hc
    cases h
    rw [tryStaticEvaluation_eval hwt hc env, hv]
  · exact absorbingInputSimplify_eval hwt h hv

end Absorbing

end ConstantFolding

end AndroidArt.Optimizing
