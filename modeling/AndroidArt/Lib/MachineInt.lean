/-
Module: AndroidArt.Lib.MachineInt
Purpose: The conversions of C++ between mathematical integers and fixed-width machine integers,
  on `Nat` and `Int`: `static_cast<uintN_t>` keeps the residue modulo `2^N`, and
  `static_cast<intN_t>` the two's-complement residue in `[-2^(N-1), 2^(N-1))`.
Trusted boundary: conversions to a signed type are taken to wrap, as every compiler for the
  targets does; the language leaves them implementation-defined.
Main exports: toUnsigned, toSigned, toSigned_emod_of_dvd, toInt_emod_of_dvd
-/
import Mathlib.Algebra.Order.Ring.Int
import Mathlib.Tactic.Positivity

namespace AndroidArt.Lib

/-- `static_cast<uintN_t>(x)`: the residue of `x` modulo `2^n`. -/
def toUnsigned (n : Nat) (x : Int) : Nat := (x % 2 ^ n).toNat

/-- `static_cast<intN_t>(x)`: the two's-complement value of the low `n` bits of `x`. -/
def toSigned (n : Nat) (x : Int) : Int := Int.bmod x (2 ^ n)

section

variable {n : Nat} {x : Int}

/-- Converting to unsigned and back gives the residue modulo `2^n`. -/
theorem toUnsigned_emod (n : Nat) (x : Int) : (toUnsigned n x : Int) = x % 2 ^ n := by
  have hnn : 0 ≤ x % 2 ^ n := Int.emod_nonneg x (by positivity)
  unfold toUnsigned
  rw [Int.toNat_of_nonneg hnn]

theorem toUnsigned_lt (n : Nat) (x : Int) : toUnsigned n x < 2 ^ n := by
  have hlt : x % 2 ^ n < 2 ^ n := Int.emod_lt_of_pos x (by positivity)
  have hcast : ((toUnsigned n x : Nat) : Int) < ((2 ^ n : Nat) : Int) := by
    rw [toUnsigned_emod]
    exact_mod_cast hlt
  exact_mod_cast hcast

/-- A value that fits is kept. -/
theorem toUnsigned_of_lt (h0 : 0 ≤ x) (h : x < 2 ^ n) : (toUnsigned n x : Int) = x := by
  rw [toUnsigned_emod, Int.emod_eq_of_lt h0 h]

/-- A natural number that fits is kept. -/
theorem toUnsigned_natCast {m : Nat} (h : m < 2 ^ n) : toUnsigned n m = m := by
  have hcast : (m : Int) < 2 ^ n := by exact_mod_cast h
  have hkeep := toUnsigned_of_lt (Int.natCast_nonneg m) hcast
  exact_mod_cast hkeep

/-- The modulus of an `n`-bit signed conversion is twice the bound of its range. -/
theorem two_pow_eq_two_mul (hn : 0 < n) : (((2 ^ n : Nat) : Int)) = 2 * 2 ^ (n - 1) := by
  push_cast
  rw [← pow_succ']
  congr 1
  omega

/-- A value in the signed range is kept. -/
theorem toSigned_of_range (hn : 0 < n) (hlo : -2 ^ (n - 1) ≤ x) (hhi : x < 2 ^ (n - 1)) :
    toSigned n x = x := by
  unfold toSigned
  rw [Int.bmod_def, two_pow_eq_two_mul hn]
  rcases le_or_gt 0 x with hx | hx
  · rw [Int.emod_eq_of_lt hx (by omega)]
    split_ifs <;> omega
  · have hwrap : x % (2 * 2 ^ (n - 1)) = x + 2 * 2 ^ (n - 1) := by
      rw [← Int.add_emod_right, Int.emod_eq_of_lt (by omega) (by omega)]
    rw [hwrap]
    split_ifs <;> omega

/-- The result of a signed conversion lies in the signed range. -/
theorem toSigned_mem_range (hn : 0 < n) (x : Int) :
    -2 ^ (n - 1) ≤ toSigned n x ∧ toSigned n x < 2 ^ (n - 1) := by
  have hpos : 0 < 2 ^ n := Nat.two_pow_pos n
  have hlo := Int.le_bmod (x := x) hpos
  have hhi := Int.bmod_lt (x := x) hpos
  unfold toSigned
  rw [two_pow_eq_two_mul hn] at hlo hhi
  omega

/-- The signed and the unsigned conversion agree modulo `2^n`. -/
theorem toSigned_emod (n : Nat) (x : Int) : toSigned n x % 2 ^ n = x % 2 ^ n := by
  unfold toSigned
  exact_mod_cast Int.bmod_emod

/-- The signed conversion keeps the residue modulo every divisor of `2^n`. -/
theorem toSigned_emod_of_dvd {m : Int} (hm : m ∣ 2 ^ n) (x : Int) :
    toSigned n x % m = x % m := by
  rw [← Int.emod_emod_of_dvd (toSigned n x) hm, toSigned_emod, Int.emod_emod_of_dvd x hm]

/-- The signed and the unsigned reading of an `n`-bit vector agree modulo every divisor of
`2^n`. -/
theorem toInt_emod_of_dvd {m : Int} (hm : m ∣ 2 ^ n) (v : BitVec n) :
    v.toInt % m = (v.toNat : Int) % m := by
  rw [BitVec.toInt_eq_toNat_bmod]
  exact toSigned_emod_of_dvd hm _

/-- An `n`-bit vector made from `z` has the residue of `z` modulo every divisor of `2^n`. -/
theorem toNat_ofInt_emod {w : Nat} (hw : w ∣ 2 ^ n) (z : Int) :
    ((BitVec.ofInt n z).toNat : Int) % w = z % w := by
  have hdvd : (w : Int) ∣ ((2 ^ n : Nat) : Int) := Int.natCast_dvd_natCast.mpr hw
  rw [BitVec.toNat_ofInt, Int.toNat_of_nonneg (Int.emod_nonneg _ (by positivity))]
  exact Int.emod_emod_of_dvd z hdvd

/-- A value in `[0, 2^n)` whose signed conversion is not negative is kept by it. -/
theorem toSigned_eq_self_of_nonneg (hn : 0 < n) (h0 : 0 ≤ x) (hlt : x < 2 ^ n)
    (hs : 0 ≤ toSigned n x) : toSigned n x = x := by
  have hrange := toSigned_mem_range hn x
  have hpow : (2 : Int) ^ n = 2 * 2 ^ (n - 1) := by
    have := two_pow_eq_two_mul hn
    push_cast at this
    exact this
  have hself : toSigned n x % 2 ^ n = toSigned n x :=
    Int.emod_eq_of_lt hs (by omega)
  rw [← hself, toSigned_emod, Int.emod_eq_of_lt h0 hlt]

end

end AndroidArt.Lib
