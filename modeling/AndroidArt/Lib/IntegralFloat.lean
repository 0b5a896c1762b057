/-
Module: AndroidArt.Lib.IntegralFloat
Purpose: The IEEE 754 binary floating-point values that are integers, NaN or an infinity: the
  values on which a conversion to an integer type does not round.
Trusted boundary: none
Main exports: FpValue, roundNatToPrecision, roundToPrecision, FpValue.ofInt
-/
import Mathlib

namespace AndroidArt.Lib

/-- A floating-point value whose value is an integer, NaN or an infinity.  Both zeros are the
integer `0`. -/
inductive FpValue where
  | nan
  | infinity (negative : Bool)
  | integer (value : Int)
deriving Repr, DecidableEq, Inhabited

/-- `n` rounded to the nearest number with `p` significant bits, ties to even. -/
def roundNatToPrecision (p n : Nat) : Nat :=
  -- the bits of `n` below its `p` leading ones
  let s := n.log2 + 1 - p
  if s = 0 then n
  else
    let q := n / 2 ^ s
    let r := n % 2 ^ s
    let half := 2 ^ (s - 1)
    (if half < r ∨ (r = half ∧ q % 2 = 1) then q + 1 else q) * 2 ^ s

/-- An integer rounded to `p` significant bits, symmetrically about zero. -/
def roundToPrecision (p : Nat) (z : Int) : Int :=
  if z < 0 then -(roundNatToPrecision p z.natAbs : Int) else (roundNatToPrecision p z.natAbs : Int)

namespace FpValue

/-- The value nearest to `z` in the format of precision `p` whose finite values lie below
`2^emax`: what rounds to `2^emax` or beyond overflows to an infinity. -/
def ofInt (p emax : Nat) (z : Int) : FpValue :=
  let r := roundToPrecision p z
  if 2 ^ emax ≤ r.natAbs then infinity (decide (r < 0)) else integer r

/-- Conversion into the format of precision `p` and largest exponent `emax`. -/
def round (p emax : Nat) : FpValue → FpValue
  | integer z => ofInt p emax z
  | v => v

/-- `std::isnan`. -/
def isNaN : FpValue → Bool
  | nan => true
  | _ => false

/-- IEEE's `x >= y`: false where either is NaN. -/
def ge : FpValue → FpValue → Bool
  | nan, _ | _, nan => false
  | infinity false, _ => true
  | infinity true, y => y == infinity true
  | integer _, infinity negative => negative
  | integer a, integer b => decide (b ≤ a)

/-- IEEE's `x <= y`. -/
def le (x y : FpValue) : Bool := ge y x

/-- C++'s conversion of a floating-point value to a signed integer type of `w` bits
(`static_cast<int32_t>`, `static_cast<int64_t>`): the value where it is finite and fits, `none`
where the behaviour is undefined. -/
def castToSigned (w : Nat) : FpValue → Option Int
  | integer z => if -2 ^ (w - 1) ≤ z ∧ z < 2 ^ (w - 1) then some z else none
  | _ => none

/-- A value whose rounding stays below `2^emax` converts to the rounded integer. -/
theorem ofInt_of_natAbs_lt {p emax : Nat} {z : Int}
    (h : (roundToPrecision p z).natAbs < 2 ^ emax) :
    ofInt p emax z = integer (roundToPrecision p z) := by
  unfold ofInt
  rw [if_neg (Nat.not_le_of_lt h)]

/-- The same with the bound a power of two below `2^emax`, so that `2^emax` itself, which can
be too large to evaluate, need not be computed. -/
theorem ofInt_of_natAbs_le {p emax k : Nat} {z : Int} (hk : k < emax)
    (h : (roundToPrecision p z).natAbs ≤ 2 ^ k) :
    ofInt p emax z = integer (roundToPrecision p z) :=
  ofInt_of_natAbs_lt (Nat.lt_of_le_of_lt h (Nat.pow_lt_pow_right (by decide) hk))

theorem ge_integer_iff {a b : Int} : (integer a).ge (integer b) = true ↔ b ≤ a := by
  simp [ge]

theorem le_integer_iff {a b : Int} : (integer a).le (integer b) = true ↔ a ≤ b := by
  simp [le, ge]

/-- Between the bounds of a signed type the C++ conversion is defined and exact. -/
theorem castToSigned_of_bounds {w : Nat} {z : Int} (hlo : -2 ^ (w - 1) ≤ z)
    (hhi : z < 2 ^ (w - 1)) : (integer z).castToSigned w = some z := by
  simp [castToSigned, hlo, hhi]

end FpValue

end AndroidArt.Lib
