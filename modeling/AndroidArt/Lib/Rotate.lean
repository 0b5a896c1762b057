/-
Module: AndroidArt.Lib.Rotate
Purpose: A rotation of a bit vector is the union of its two shifted halves.
Trusted boundary: none
Main exports: ushiftRight_and_shiftLeft_sub_eq_zero, xor_eq_or_of_and_eq_zero, rotateRight_zero,
  ushiftRight_or_shiftLeft_eq_rotateRight
-/
import Mathlib.Data.BitVec

namespace AndroidArt.Lib

section Rotate

variable {w : Nat} {x : BitVec w} {r s : Nat}

/-- The two halves of a rotation have no bit in common. -/
theorem ushiftRight_and_shiftLeft_sub_eq_zero (x : BitVec w) (r : Nat) :
    x >>> r &&& x <<< (w - r) = 0#w := by
  apply BitVec.eq_of_getLsbD_eq
  intro i hi
  simp only [BitVec.getLsbD_and, BitVec.getLsbD_ushiftRight, BitVec.getLsbD_shiftLeft,
    BitVec.getLsbD_zero]
  by_cases hlow : i < w - r
  · simp [hlow]
  · -- a bit of the left half comes from beyond the top of `x`
    have hout : x.getLsbD (r + i) = false := BitVec.getLsbD_of_ge x (r + i) (by omega)
    simp [hout]

/-- Disjoint bit vectors have the same exclusive or as or. -/
theorem xor_eq_or_of_and_eq_zero (y z : BitVec w) (h : y &&& z = 0#w) : y ^^^ z = y ||| z := by
  apply BitVec.eq_of_getLsbD_eq
  intro i hi
  have hbit : (y.getLsbD i && z.getLsbD i) = false := by
    rw [← BitVec.getLsbD_and, h, BitVec.getLsbD_zero]
  simp only [BitVec.getLsbD_xor, BitVec.getLsbD_or]
  cases hy : y.getLsbD i <;> cases hz : z.getLsbD i <;> simp_all

/-- Distances below the width whose sum is a multiple of it are both zero or add up to it. -/
theorem zero_or_add_eq_of_mod (hr : r < w) (hs : s < w) (hsum : (r + s) % w = 0) :
    (r = 0 ∧ s = 0) ∨ (0 < r ∧ s = w - r) := by
  rcases Nat.eq_zero_or_pos r with h0 | hpos
  · left
    subst h0
    rw [Nat.zero_add, Nat.mod_eq_of_lt hs] at hsum
    exact ⟨rfl, hsum⟩
  · right
    -- the sum lies in `(0, 2w)`, so the only multiple of `w` it can be is `w`
    have hge : w ≤ r + s := by
      by_contra hlt
      rw [Nat.mod_eq_of_lt (by omega)] at hsum
      omega
    rw [Nat.mod_eq_sub_mod hge, Nat.mod_eq_of_lt (by omega)] at hsum
    exact ⟨hpos, by omega⟩

/-- A rotation by zero is the identity: its left half is shifted out entirely. -/
theorem rotateRight_zero (x : BitVec w) : x.rotateRight 0 = x := by
  rw [BitVec.rotateRight_def, Nat.zero_mod, BitVec.ushiftRight_zero, Nat.sub_zero,
    BitVec.shiftLeft_eq_zero (Nat.le_refl w), BitVec.or_zero]

/-- Shifts whose distances add up to the width, or are both zero, or together into a rotation. -/
theorem ushiftRight_or_shiftLeft_eq_rotateRight (hr : r < w) (hs : s < w)
    (hsum : (r + s) % w = 0) : x >>> r ||| x <<< s = x.rotateRight r := by
  rw [BitVec.rotateRight_def, Nat.mod_eq_of_lt hr]
  rcases zero_or_add_eq_of_mod hr hs hsum with ⟨rfl, rfl⟩ | ⟨_, rfl⟩
  · -- no rotation: both shifts are the identity, the rotation's left half is empty
    simp
  · rfl

/-- With a non-zero distance the halves are disjoint, and adding them rotates too. -/
theorem ushiftRight_add_shiftLeft_eq_rotateRight (hr0 : 0 < r) (hr : r < w) (hs : s < w)
    (hsum : (r + s) % w = 0) : x >>> r + x <<< s = x.rotateRight r := by
  have hs' : s = w - r := by
    rcases zero_or_add_eq_of_mod hr hs hsum with ⟨h, _⟩ | ⟨_, h⟩
    · omega
    · exact h
  rw [BitVec.add_eq_or_of_and_eq_zero _ _ (hs' ▸ ushiftRight_and_shiftLeft_sub_eq_zero x r)]
  exact ushiftRight_or_shiftLeft_eq_rotateRight hr hs hsum

/-- With a non-zero distance the halves are disjoint, and their exclusive or rotates too. -/
theorem ushiftRight_xor_shiftLeft_eq_rotateRight (hr0 : 0 < r) (hr : r < w) (hs : s < w)
    (hsum : (r + s) % w = 0) : x >>> r ^^^ x <<< s = x.rotateRight r := by
  have hs' : s = w - r := by
    rcases zero_or_add_eq_of_mod hr hs hsum with ⟨h, _⟩ | ⟨_, h⟩
    · omega
    · exact h
  rw [xor_eq_or_of_and_eq_zero _ _ (hs' ▸ ushiftRight_and_shiftLeft_sub_eq_zero x r)]
  exact ushiftRight_or_shiftLeft_eq_rotateRight hr hs hsum

end Rotate

end AndroidArt.Lib
