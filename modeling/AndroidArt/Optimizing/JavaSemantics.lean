/-
Module: AndroidArt.Optimizing.JavaSemantics
Purpose: What the scalar integral HIR instructions mean in Java: wrap-around `int` and `long`
  arithmetic, truncating division that throws on a zero divisor and maps `MIN / -1` to `MIN`,
  shift distances masked to the width, signed and unsigned comparisons, and the narrowing and
  widening conversions between integral types, and the saturating conversions of floating-point
  values to `int` and `long`.
Trusted boundary: this module is the specification itself
Main exports: BinaryOp, IfCondition, Java.binaryOp, Java.condition
-/
import AndroidArt.Optimizing.DataType
import AndroidArt.Lib.MachineInt
import AndroidArt.Lib.IntegralFloat
import Mathlib.Data.BitVec

namespace AndroidArt.Optimizing

/-- The integral `HBinaryOperation` subclasses. -/
inductive BinaryOp where
  | add | sub | mul | div | rem | and | or | xor | shl | shr | ushr | ror | min | max
deriving Repr, DecidableEq, Inhabited

/-- `IfCondition`: signed comparisons `lt`..`ge`, unsigned ones `b` (below) .. `ae`. -/
inductive IfCondition where
  | eq | ne | lt | le | gt | ge | b | be | a | ae
deriving Repr, DecidableEq, Inhabited

namespace Java

/-- The width in bits of a primitive type. -/
def bitWidth (t : DataType) : Nat := 8 * t.size

/-- Two's-complement wrap-around of a mathematical integer into `w` bits. -/
def wrap (w : Nat) (x : Int) : Int := (BitVec.ofInt w x).toInt

/-- A binary operation on two Java values of the arithmetic kind `resultType` (`int` or
`long`); `none` where Java throws `ArithmeticException`.  Shift and rotate distances are
masked to the width, which for a power-of-two width is the non-negative remainder. -/
def binaryOp (op : BinaryOp) (resultType : DataType) (x y : Int) : Option Int :=
  let w := bitWidth resultType
  let vx := BitVec.ofInt w x
  let vy := BitVec.ofInt w y
  let distance := (y % (w : Int)).toNat
  match op with
  | .add => some (wrap w (x + y))
  | .sub => some (wrap w (x - y))
  | .mul => some (wrap w (x * y))
  | .div => if y = 0 then none else some (wrap w (x.tdiv y))
  | .rem => if y = 0 then none else some (wrap w (x.tmod y))
  | .and => some (vx &&& vy).toInt
  | .or => some (vx ||| vy).toInt
  | .xor => some (vx ^^^ vy).toInt
  | .shl => some (vx <<< distance).toInt
  | .shr => some (vx.sshiftRight distance).toInt
  | .ushr => some (vx >>> distance).toInt
  | .ror => some (vx.rotateRight distance).toInt
  | .min => some (min x y)
  | .max => some (max x y)

/-- A comparison of two Java values whose kind is that of `operandType`: the signed conditions
compare the values, the unsigned ones their two's-complement bit patterns. -/
def condition (cond : IfCondition) (operandType : DataType) (x y : Int) : Bool :=
  let w := bitWidth operandType.kind
  let ux := (BitVec.ofInt w x).toNat
  let uy := (BitVec.ofInt w y).toNat
  match cond with
  | .eq => x == y
  | .ne => x != y
  | .lt => decide (x < y)
  | .le => decide (x ≤ y)
  | .gt => decide (y < x)
  | .ge => decide (y ≤ x)
  | .b => decide (ux < uy)
  | .be => decide (ux ≤ uy)
  | .a => decide (uy < ux)
  | .ae => decide (uy ≤ ux)

/-- Arithmetic negation in the kind `resultType`. -/
def neg (resultType : DataType) (x : Int) : Int := wrap (bitWidth resultType) (-x)

/-- Bitwise complement in the kind `resultType`. -/
def not (resultType : DataType) (x : Int) : Int := wrap (bitWidth resultType) (-x - 1)

/-- Boolean negation of `0` or `1`. -/
def booleanNot (x : Int) : Int := if x = 0 then 1 else 0

/-- Conversion of an integral value to the integral type `resultType`: the low bits of the
value, read as signed or, for `char`, as unsigned. -/
def typeConversion (resultType : DataType) (x : Int) : Int :=
  if resultType.isUnsignedType then (BitVec.ofInt (bitWidth resultType) x).toNat
  else (BitVec.ofInt (bitWidth resultType) x).toInt

/-- The integral comparison `lcmp` (and `HCompare` on integral inputs): `-1`, `0` or `1` as `x`
is below, equal to or above `y`. -/
def compare (x y : Int) : Int :=
  if x < y then -1 else if x = y then 0 else 1

/-- The conversion of a floating-point value to `int` or `long`, of `w` bits (`f2i`, `f2l`, `d2i`,
`d2l`): NaN to `0`, a value beyond the range of the type to its nearer end, and every other
value rounded toward zero, which leaves an integer as it is. -/
def fpToIntegral (w : Nat) : AndroidArt.Lib.FpValue → Int
  | .nan => 0
  | .infinity negative => if negative then -2 ^ (w - 1) else 2 ^ (w - 1) - 1
  | .integer z => max (-2 ^ (w - 1)) (min z (2 ^ (w - 1) - 1))

/-- `lcmp` is negative exactly below. -/
theorem compare_neg_iff {x y : Int} : compare x y < 0 ↔ x < y := by
  unfold compare
  split_ifs <;> omega

/-- `lcmp` is zero exactly at equality. -/
theorem compare_eq_zero_iff {x y : Int} : compare x y = 0 ↔ x = y := by
  unfold compare
  split_ifs with hlt heq
  · exact iff_of_false (by decide) (by omega)
  · exact iff_of_true rfl heq
  · exact iff_of_false (by decide) heq

section Saturation

variable {w : Nat} {z : Int}

theorem fpToIntegral_of_ge (h : 2 ^ (w - 1) - 1 ≤ z) :
    fpToIntegral w (.integer z) = 2 ^ (w - 1) - 1 := by
  have hpos : (0 : Int) < 2 ^ (w - 1) := pow_pos (by decide) _
  simp only [fpToIntegral]
  omega

theorem fpToIntegral_of_le (h : z ≤ -2 ^ (w - 1)) : fpToIntegral w (.integer z) = -2 ^ (w - 1) := by
  have hpos : (0 : Int) < 2 ^ (w - 1) := pow_pos (by decide) _
  simp only [fpToIntegral]
  omega

/-- An integer in the range of the type converts to itself. -/
theorem fpToIntegral_of_mem (h₁ : -2 ^ (w - 1) ≤ z) (h₂ : z ≤ 2 ^ (w - 1) - 1) :
    fpToIntegral w (.integer z) = z := by
  simp only [fpToIntegral]
  omega

end Saturation

/-! ### Ranges

Every operation of an arithmetic kind yields a value of that kind: the results are read back
from `bitWidth`-bit vectors, and `min` and `max` pick one of their operands. -/

section Range

variable {t : DataType} {x y v : Int}

theorem isUnsignedType_of_isIntOrLongType (ht : t.isIntOrLongType) : t.isUnsignedType = false := by
  cases t <;> simp_all [DataType.isIntOrLongType, DataType.isUnsignedType]

/-- The two's-complement value of a vector of a signed type's width lies in its range. -/
theorem inRange_toInt (ht : t.isUnsignedType = false) (b : BitVec (bitWidth t)) :
    t.InRange b.toInt := by
  simp only [DataType.InRange, ht, Bool.false_eq_true, if_false]
  exact ⟨BitVec.le_toInt b, BitVec.toInt_lt⟩

/-- A value in the range of a signed type survives a round trip through its bit vectors. -/
theorem toInt_ofInt_of_inRange (ht : t.isUnsignedType = false) (hpos : 0 < t.size)
    (h : t.InRange x) : (BitVec.ofInt (bitWidth t) x).toInt = x := by
  simp only [DataType.InRange, ht, Bool.false_eq_true, if_false] at h
  rw [BitVec.toInt_ofInt]
  exact AndroidArt.Lib.toSigned_of_range (n := bitWidth t) (by unfold bitWidth; omega) h.1 h.2

/-- Wrap-around keeps the residue modulo every divisor of `2^w`. -/
theorem wrap_emod_of_dvd {w : Nat} {m : Int} (hm : m ∣ 2 ^ w) (z : Int) : wrap w z % m = z % m := by
  unfold wrap
  rw [BitVec.toInt_ofInt]
  exact AndroidArt.Lib.toSigned_emod_of_dvd hm z

/-- A value that fits in `w` bits survives the wrap-around. -/
theorem wrap_of_range {w : Nat} {z : Int} (hw : 0 < w) (hlo : -2 ^ (w - 1) ≤ z)
    (hhi : z < 2 ^ (w - 1)) : wrap w z = z := by
  unfold wrap
  rw [BitVec.toInt_ofInt]
  exact AndroidArt.Lib.toSigned_of_range hw hlo hhi

theorem wrap_zero (w : Nat) : wrap w 0 = 0 := by
  unfold wrap
  rw [BitVec.toInt_ofInt, Int.zero_bmod]

/-- Wrapping the factors of a product does not change the product's wrap-around. -/
theorem wrap_mul_wrap (w : Nat) (x y : Int) : wrap w (wrap w x * wrap w y) = wrap w (x * y) := by
  unfold wrap
  simp only [BitVec.toInt_ofInt]
  rw [Int.bmod_mul_bmod, Int.mul_bmod_bmod]

/-- Wrapping either operand of a sum or a difference does not change its wrap-around. -/
theorem wrap_add_wrap (w : Nat) (x y : Int) : wrap w (x + wrap w y) = wrap w (x + y) := by
  unfold wrap
  simp only [BitVec.toInt_ofInt]
  exact Int.add_bmod_bmod

theorem wrap_wrap_add (w : Nat) (x y : Int) : wrap w (wrap w x + y) = wrap w (x + y) := by
  unfold wrap
  simp only [BitVec.toInt_ofInt]
  exact Int.bmod_add_bmod

theorem wrap_sub_wrap (w : Nat) (x y : Int) : wrap w (x - wrap w y) = wrap w (x - y) := by
  unfold wrap
  simp only [BitVec.toInt_ofInt]
  exact Int.sub_bmod_bmod

theorem wrap_wrap_sub (w : Nat) (x y : Int) : wrap w (wrap w x - y) = wrap w (x - y) := by
  unfold wrap
  simp only [BitVec.toInt_ofInt]
  exact Int.bmod_sub_bmod

theorem wrap_neg_wrap (w : Nat) (x : Int) : wrap w (-wrap w x) = wrap w (-x) := by
  unfold wrap
  simp only [BitVec.toInt_ofInt]
  exact Int.bmod_neg_bmod

/-- A conversion keeps the residue modulo every divisor of `2^bits` of its result type. -/
theorem typeConversion_emod {w : Nat} (hw : w ∣ 2 ^ bitWidth t) (z : Int) :
    typeConversion t z % w = z % w := by
  unfold typeConversion
  split
  · exact AndroidArt.Lib.toNat_ofInt_emod hw z
  · exact wrap_emod_of_dvd (by exact_mod_cast hw) z

/-- The commutative operations. -/
theorem binaryOp_comm {op : BinaryOp}
    (hop : op = .add ∨ op = .mul ∨ op = .and ∨ op = .or ∨ op = .xor ∨ op = .min ∨ op = .max) :
    binaryOp op t x y = binaryOp op t y x := by
  rcases hop with rfl | rfl | rfl | rfl | rfl | rfl | rfl <;> simp only [binaryOp]
  · rw [Int.add_comm]
  · rw [Int.mul_comm]
  · rw [BitVec.and_comm]
  · rw [BitVec.or_comm]
  · rw [BitVec.xor_comm]
  · rw [Int.min_comm]
  · rw [Int.max_comm]

theorem wrap_inRange (ht : t.isUnsignedType = false) (z : Int) :
    t.InRange (wrap (bitWidth t) z) :=
  inRange_toInt ht _

theorem binaryOp_inRange {op : BinaryOp} (ht : t.isIntOrLongType) (hx : t.InRange x)
    (hy : t.InRange y) (h : binaryOp op t x y = some v) : t.InRange v := by
  have hs := isUnsignedType_of_isIntOrLongType ht
  cases op <;> simp only [binaryOp] at h
  case div | rem =>
    split at h
    · contradiction
    · cases h
      exact wrap_inRange hs _
  case min | max =>
    cases h
    simp only [DataType.InRange, hs, Bool.false_eq_true, if_false] at hx hy ⊢
    omega
  -- every other result is read back from a vector of the kind's width
  all_goals
    cases h
    exact inRange_toInt hs _

theorem typeConversion_inRange (t : DataType) (z : Int) :
    t.InRange (typeConversion t z) := by
  unfold typeConversion
  cases hu : t.isUnsignedType
  · exact inRange_toInt hu _
  · simp only [DataType.InRange, hu, if_true]
    have hlt := (BitVec.ofInt (bitWidth t) z).isLt
    exact ⟨Int.natCast_nonneg _, by unfold bitWidth at hlt; exact_mod_cast hlt⟩

end Range

end Java

end AndroidArt.Optimizing
