/-
Module: AndroidArt.Lib.BitField
Purpose: Fields packed into a natural number by shifts, or-ing and masking, read back as
  arithmetic: a mask `(1 << n) - 1` is a residue modulo `2^n`, a field above the bits of a
  smaller value is added to it, a shifted mask selects the shifted field, and a bitwise operation
  with a value whose low bits are neutral keeps the low bits of the other.
Trusted boundary: none
Main exports: and_low_mask, shiftRight_and_low_mask, or_shiftLeft_of_lt, and_shiftLeft
-/
import Mathlib.Data.Nat.Bitwise

namespace AndroidArt.Lib

/-- The mask `(1 << n) - 1` of the low `n` bits keeps the residue modulo `2^n`. -/
theorem and_low_mask (x n : Nat) : x &&& ((1 <<< n) - 1) = x % 2 ^ n := by
  rw [Nat.one_shiftLeft, Nat.and_two_pow_sub_one_eq_mod]

/-- The field of width `n` at offset `k`. -/
theorem shiftRight_and_low_mask (x k n : Nat) :
    (x >>> k) &&& ((1 <<< n) - 1) = x / 2 ^ k % 2 ^ n := by
  rw [and_low_mask, Nat.shiftRight_eq_div_pow]

/-- Or-ing a field above the bits of a smaller value adds it. -/
theorem or_shiftLeft_of_lt {a : Nat} (b : Nat) {k : Nat} (ha : a < 2 ^ k) :
    a ||| b <<< k = a + b * 2 ^ k := by
  rw [Nat.lor_comm, ← Nat.shiftLeft_add_eq_or_of_lt ha, Nat.shiftLeft_eq, Nat.add_comm]

/-- Or-ing a constant whose low `k` bits are zero into a value below `2^k` adds it. -/
theorem or_eq_add_of_lt {x c k : Nat} (hx : x < 2 ^ k) (hc : c % 2 ^ k = 0) : x ||| c = x + c := by
  obtain ⟨m, rfl⟩ : ∃ m, c = m * 2 ^ k :=
    ⟨c / 2 ^ k, (Nat.div_mul_cancel (Nat.dvd_of_mod_eq_zero hc)).symm⟩
  rw [← Nat.shiftLeft_eq, or_shiftLeft_of_lt m hx, Nat.shiftLeft_eq]

/-- A field shifted above a value below `2^k` adds to it. -/
theorem shiftLeft_or_of_lt (x : Nat) {b k : Nat} (hb : b < 2 ^ k) : x <<< k ||| b = x * 2 ^ k + b := by
  rw [Nat.lor_comm, or_shiftLeft_of_lt x hb, Nat.add_comm]

/-- Two adjacent fields, `k` bits apart, shifted together. -/
theorem shiftLeft_or_shiftLeft (a : Nat) {b k : Nat} (hb : b < 2 ^ k) (n : Nat) :
    a <<< (k + n) ||| b <<< n = (a * 2 ^ k + b) <<< n := by
  rw [Nat.shiftLeft_add, ← Nat.shiftLeft_or_distrib, shiftLeft_or_of_lt a hb]

/-- Under `&&&` with a value whose low `n` bits are ones, the low bits of the other survive. -/
theorem and_mod_two_pow_of_ones {a b n : Nat} (hb : b % 2 ^ n = 2 ^ n - 1) :
    (a &&& b) % 2 ^ n = a % 2 ^ n := by
  rw [Nat.and_mod_two_pow, hb, Nat.and_two_pow_sub_one_eq_mod, Nat.mod_mod]

/-- Under `|||` with a value whose low `n` bits are zero, the low bits of the other survive. -/
theorem or_mod_two_pow_of_zero {a b n : Nat} (hb : b % 2 ^ n = 0) :
    (a ||| b) % 2 ^ n = a % 2 ^ n := by
  rw [Nat.or_mod_two_pow, hb, Nat.or_zero]

/-- Under `^^^` with a value whose low `n` bits are zero, the low bits of the other survive. -/
theorem xor_mod_two_pow_of_zero {a b n : Nat} (hb : b % 2 ^ n = 0) :
    (a ^^^ b) % 2 ^ n = a % 2 ^ n := by
  rw [Nat.xor_mod_two_pow, hb, Nat.xor_zero]

/-- A shifted mask selects the shifted field. -/
theorem and_shiftLeft (a b k : Nat) : a &&& (b <<< k) = ((a >>> k) &&& b) <<< k := by
  apply Nat.eq_of_testBit_eq
  intro i
  simp only [Nat.testBit_and, Nat.testBit_shiftLeft, Nat.testBit_shiftRight]
  by_cases h : k ≤ i
  · simp [h, Nat.add_sub_cancel' h]
  · simp [h]

end AndroidArt.Lib
