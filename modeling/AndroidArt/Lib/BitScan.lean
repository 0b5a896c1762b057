/-
Module: AndroidArt.Lib.BitScan
Purpose: Scanning the set bits of a machine word. The loop that reports the count of trailing
  zeros and clears that bit, until the word is zero, reports each set bit once, from the least to
  the most significant (`drainBits`); the masks `(1 << s) - 1` and `~((1 << s) - 1)` keep the
  bits below, and from, position `s`.
Trusted boundary: none
Main exports: drainBits, mem_drainBits, pairwise_drainBits, and_one_shiftLeft_ne_zero
-/
import Mathlib

namespace AndroidArt.Lib

variable {w : Nat}

section ClearBit

variable {x : BitVec w} {c : Nat}

theorem toNat_one_shiftLeft (hc : c < w) : (1#w <<< c).toNat = 2 ^ c := by
  rw [← BitVec.twoPow_eq, BitVec.toNat_twoPow_of_lt hc]

theorem getLsbD_one_shiftLeft (hc : c < w) (i : Nat) : (1#w <<< c).getLsbD i = decide (i = c) := by
  rw [← BitVec.twoPow_eq, BitVec.getLsbD_twoPow]
  by_cases hic : i = c
  · simp [hic, hc]
  · simp [hic, decide_eq_false (Ne.symm hic)]

/-- `x ^= 1 << c` on a set bit `c` clears that bit and keeps the others. -/
theorem getLsbD_clearBit (h : x.getLsbD c = true) (i : Nat) :
    (x ^^^ (1#w <<< c)).getLsbD i = (x.getLsbD i && i != c) := by
  rw [BitVec.getLsbD_xor, getLsbD_one_shiftLeft (BitVec.lt_of_getLsbD h)]
  by_cases hic : i = c
  · subst hic
    simp [h]
  · simp [hic]

/-- Clearing a set bit lowers the word: the measure of the loop that drains a word. -/
theorem toNat_clearBit_lt (h : x.getLsbD c = true) : (x ^^^ (1#w <<< c)).toNat < x.toNat := by
  have hc : c < w := BitVec.lt_of_getLsbD h
  -- the cleared word and the bit are disjoint, and together they make up the word
  have hdisj : (x ^^^ (1#w <<< c)) &&& (1#w <<< c) = 0#w := by
    apply BitVec.eq_of_getLsbD_eq
    intro i _
    rw [BitVec.getLsbD_and, getLsbD_clearBit h, getLsbD_one_shiftLeft hc]
    by_cases hic : i = c <;> simp [hic]
  have hsum : x = (x ^^^ (1#w <<< c)) + (1#w <<< c) := by
    rw [BitVec.add_eq_or_of_and_eq_zero _ _ hdisj]
    apply BitVec.eq_of_getLsbD_eq
    intro i _
    rw [BitVec.getLsbD_or, getLsbD_clearBit h, getLsbD_one_shiftLeft hc]
    by_cases hic : i = c
    · subst hic
      simp [h]
    · simp [hic]
  have hvalue := congrArg BitVec.toNat hsum
  rw [BitVec.toNat_add_of_and_eq_zero hdisj, toNat_one_shiftLeft hc] at hvalue
  have hpos := Nat.two_pow_pos c
  omega

/-- `(x & (1 << c)) != 0` tests bit `c`. -/
theorem and_one_shiftLeft_ne_zero (hc : c < w) : ((x &&& (1#w <<< c)) != 0#w) = x.getLsbD c := by
  have hbit (i : Nat) : (x &&& (1#w <<< c)).getLsbD i = (x.getLsbD c && decide (i = c)) := by
    rw [BitVec.getLsbD_and, getLsbD_one_shiftLeft hc]
    by_cases hic : i = c
    · subst hic
      simp
    · simp [hic]
  cases hx : x.getLsbD c
  · -- a clear bit leaves no bit of the mask
    have hzero : x &&& (1#w <<< c) = 0#w := by
      apply BitVec.eq_of_getLsbD_eq
      intro i _
      rw [hbit, hx, Bool.false_and, BitVec.getLsbD_zero]
    simp [hzero]
  · have hne : x &&& (1#w <<< c) ≠ 0#w := by
      intro hzero
      have hset := hbit c
      rw [hzero, hx, BitVec.getLsbD_zero] at hset
      simp at hset
    simp [hne]

end ClearBit

/-- The loop `do { shift = CTZ(x); visit(shift); x ^= 1 << shift; } while (x != 0)`, entered on a
word that may be zero: the positions of the set bits it reports, in the order it reports them. -/
def drainBits (x : BitVec w) : List Nat :=
  if hx : x = 0#w then []
  else x.ctz.toNat :: drainBits (x ^^^ (1#w <<< x.ctz.toNat))
termination_by x.toNat
decreasing_by exact toNat_clearBit_lt (BitVec.getLsbD_true_ctz_of_ne_zero hx)

/-- The loop reports exactly the set bits of the word. -/
theorem mem_drainBits {x : BitVec w} {i : Nat} : i ∈ drainBits x ↔ x.getLsbD i = true := by
  induction x using drainBits.induct generalizing i with
  | case1 => simp [drainBits]
  | case2 x hx ih =>
    have hctz := BitVec.getLsbD_true_ctz_of_ne_zero hx
    rw [drainBits, dif_neg hx, List.mem_cons, ih, getLsbD_clearBit hctz]
    by_cases hic : i = x.ctz.toNat
    · subst hic
      simp [hctz]
    · simp [hic]

/-- The loop reports the set bits from the least to the most significant. -/
theorem pairwise_drainBits (x : BitVec w) : (drainBits x).Pairwise (· < ·) := by
  induction x using drainBits.induct with
  | case1 => simp [drainBits]
  | case2 x hx ih =>
    have hctz := BitVec.getLsbD_true_ctz_of_ne_zero hx
    rw [drainBits, dif_neg hx, List.pairwise_cons]
    refine ⟨fun i hi => ?_, ih⟩
    rw [mem_drainBits, getLsbD_clearBit hctz, Bool.and_eq_true, bne_iff_ne] at hi
    -- the bits below the trailing-zero count are clear
    have hle : x.ctz.toNat ≤ i := by
      by_contra hlt
      rw [BitVec.getLsbD_false_of_lt_ctz (Nat.lt_of_not_le hlt)] at hi
      exact Bool.false_ne_true hi.1
    omega

section Masks

variable {s : Nat}

/-- The mask `(1 << s) - 1` keeps the bits below `s`. -/
theorem getLsbD_lowMask (hs : s < w) (i : Nat) :
    ((1#w <<< s) - 1#w).getLsbD i = decide (i < s) := by
  have hone : 1#w ≤ 1#w <<< s := by
    rw [BitVec.le_def, toNat_one_shiftLeft hs, BitVec.toNat_one (by omega)]
    exact Nat.one_le_two_pow
  rw [BitVec.getLsbD, BitVec.toNat_sub_of_le hone, toNat_one_shiftLeft hs,
    BitVec.toNat_one (by omega), Nat.testBit_two_pow_sub_one]

theorem getLsbD_and_lowMask (hs : s < w) (x : BitVec w) (i : Nat) :
    (x &&& ((1#w <<< s) - 1#w)).getLsbD i = (x.getLsbD i && decide (i < s)) := by
  rw [BitVec.getLsbD_and, getLsbD_lowMask hs]

theorem getLsbD_and_not_lowMask (hs : s < w) (x : BitVec w) (i : Nat) :
    (x &&& ~~~((1#w <<< s) - 1#w)).getLsbD i = (x.getLsbD i && decide (s ≤ i)) := by
  rw [BitVec.getLsbD_and, BitVec.getLsbD_not, getLsbD_lowMask hs]
  by_cases hi : i < w
  · by_cases his : i < s
    · simp [hi, his]
    · simp [hi, his, Nat.le_of_not_lt his]
  · -- past the width there is no bit to keep
    simp [hi, BitVec.getLsbD_of_ge x i (Nat.le_of_not_lt hi)]

end Masks

end AndroidArt.Lib
