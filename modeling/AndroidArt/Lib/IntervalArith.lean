/-
Module: AndroidArt.Lib.IntervalArith
Purpose: Bounds on `x * y` and on the truncated quotient `x.tdiv y` of integers drawn from
  intervals `[a, a']` and `[b, b']`, by the signs of the intervals: which pair of endpoints
  bounds the result from below and which from above.
Trusted boundary: none
Main exports: tdiv_le_tdiv_of_le_of_le, the `mul_*_of_*` and `tdiv_*_of_*` sign cases
-/
import Mathlib.Algebra.Order.Ring.Int

namespace AndroidArt.Lib

namespace IntervalArith

variable {a a' b b' x y : Int}

/-! ### Products -/

theorem le_mul_of_nonneg_of_nonneg (hx : a ≤ x) (hy : b ≤ y) (ha : 0 ≤ a) (hb : 0 ≤ b) :
    a * b ≤ x * y :=
  Int.mul_le_mul hx hy hb (le_trans ha hx)

theorem mul_le_of_nonneg_of_nonneg (hx : x ≤ a') (hy : y ≤ b') (hx0 : 0 ≤ x) (hy0 : 0 ≤ y) :
    x * y ≤ a' * b' :=
  Int.mul_le_mul hx hy hy0 (le_trans hx0 hx)

theorem le_mul_of_nonneg_of_nonpos (hx : x ≤ a') (hy : b ≤ y) (hx0 : 0 ≤ x) (hb : b ≤ 0) :
    a' * b ≤ x * y :=
  calc a' * b ≤ x * b := mul_le_mul_of_nonpos_right hx hb
    _ ≤ x * y := mul_le_mul_of_nonneg_left hy hx0

theorem mul_le_of_nonneg_of_nonpos (hx : a ≤ x) (hy : y ≤ b') (ha : 0 ≤ a) (hb' : b' ≤ 0) :
    x * y ≤ a * b' :=
  calc x * y ≤ a * y := mul_le_mul_of_nonpos_right hx (le_trans hy hb')
    _ ≤ a * b' := mul_le_mul_of_nonneg_left hy ha

theorem le_mul_of_nonpos_of_nonneg (hx : a ≤ x) (hy : y ≤ b') (hx0 : x ≤ 0) (hb' : 0 ≤ b') :
    a * b' ≤ x * y :=
  calc a * b' ≤ x * b' := mul_le_mul_of_nonneg_right hx hb'
    _ ≤ x * y := mul_le_mul_of_nonpos_left hy hx0

theorem mul_le_of_nonpos_of_nonneg (hx : x ≤ a') (hy : b ≤ y) (ha' : a' ≤ 0) (hb : 0 ≤ b) :
    x * y ≤ a' * b :=
  calc x * y ≤ x * b := mul_le_mul_of_nonpos_left hy (le_trans hx ha')
    _ ≤ a' * b := mul_le_mul_of_nonneg_right hx hb

theorem le_mul_of_nonpos_of_nonpos (hx : x ≤ a') (hy : y ≤ b') (ha' : a' ≤ 0) (hb' : b' ≤ 0) :
    a' * b' ≤ x * y :=
  calc a' * b' ≤ x * b' := mul_le_mul_of_nonpos_right hx hb'
    _ ≤ x * y := mul_le_mul_of_nonpos_left hy (le_trans hx ha')

theorem mul_le_of_nonpos_of_nonpos (hx : a ≤ x) (hy : b ≤ y) (hx0 : x ≤ 0) (hy0 : y ≤ 0) :
    x * y ≤ a * b :=
  calc x * y ≤ a * y := mul_le_mul_of_nonpos_right hx hy0
    _ ≤ a * b := mul_le_mul_of_nonpos_left hy (le_trans hx hx0)

/-! ### Truncated quotients

Every sign case reduces, by negating the dividend or the divisor, to a nonnegative dividend and
a positive divisor, where the quotient grows with the dividend and shrinks with the divisor. -/

/-- The truncated quotient of a nonnegative dividend by a positive divisor grows with the
dividend and shrinks with the divisor. -/
theorem tdiv_le_tdiv_of_le_of_le (ha : 0 ≤ a) (hab : a ≤ a') (hb : 0 < b) (hbb : b ≤ b') :
    a.tdiv b' ≤ a'.tdiv b := by
  have hdivisor : a.tdiv b' ≤ a.tdiv b := by
    rw [Int.tdiv_eq_ediv_of_nonneg ha, Int.tdiv_eq_ediv_of_nonneg ha]
    apply Int.le_ediv_of_mul_le hb
    have hq : 0 ≤ a / b' := Int.ediv_nonneg ha (by omega)
    calc a / b' * b ≤ a / b' * b' := mul_le_mul_of_nonneg_left hbb hq
      _ ≤ a := Int.ediv_mul_le a (by omega)
  exact le_trans hdivisor (Int.tdiv_le_tdiv hb hab)

/-- A negative divisor reverses the order of the quotients. -/
theorem tdiv_le_tdiv_of_neg {c : Int} (hc : c < 0) (h : a ≤ a') : a'.tdiv c ≤ a.tdiv c := by
  have hle : a.tdiv (-c) ≤ a'.tdiv (-c) := Int.tdiv_le_tdiv (by omega) h
  rw [Int.tdiv_neg, Int.tdiv_neg] at hle
  omega

theorem le_tdiv_of_nonneg_of_nonneg (hx : a ≤ x) (hy : y ≤ b') (ha : 0 ≤ a) (hy0 : 0 < y) :
    a.tdiv b' ≤ x.tdiv y :=
  tdiv_le_tdiv_of_le_of_le ha hx hy0 hy

theorem tdiv_le_of_nonneg_of_nonneg (hx : x ≤ a') (hy : b ≤ y) (hx0 : 0 ≤ x) (hb : 0 < b) :
    x.tdiv y ≤ a'.tdiv b :=
  tdiv_le_tdiv_of_le_of_le hx0 hx hb hy

theorem le_tdiv_of_nonneg_of_neg (hx : x ≤ a') (hy : y ≤ b') (hx0 : 0 ≤ x) (hb' : b' < 0) :
    a'.tdiv b' ≤ x.tdiv y := by
  have hle := tdiv_le_tdiv_of_le_of_le hx0 hx (Int.neg_pos_of_neg hb') (Int.neg_le_neg hy)
  rw [Int.tdiv_neg, Int.tdiv_neg] at hle
  omega

theorem tdiv_le_of_nonneg_of_neg (hx : a ≤ x) (hy : b ≤ y) (ha : 0 ≤ a) (hy0 : y < 0) :
    x.tdiv y ≤ a.tdiv b := by
  have hle := tdiv_le_tdiv_of_le_of_le ha hx (Int.neg_pos_of_neg hy0) (Int.neg_le_neg hy)
  rw [Int.tdiv_neg, Int.tdiv_neg] at hle
  omega

theorem le_tdiv_of_nonpos_of_pos (hx : a ≤ x) (hy : b ≤ y) (hx0 : x ≤ 0) (hb : 0 < b) :
    a.tdiv b ≤ x.tdiv y := by
  have hle := tdiv_le_tdiv_of_le_of_le (Int.neg_nonneg_of_nonpos hx0) (Int.neg_le_neg hx) hb hy
  rw [Int.neg_tdiv, Int.neg_tdiv] at hle
  omega

theorem tdiv_le_of_nonpos_of_pos (hx : x ≤ a') (hy : y ≤ b') (ha' : a' ≤ 0) (hy0 : 0 < y) :
    x.tdiv y ≤ a'.tdiv b' := by
  have hle := tdiv_le_tdiv_of_le_of_le (Int.neg_nonneg_of_nonpos ha') (Int.neg_le_neg hx) hy0 hy
  rw [Int.neg_tdiv, Int.neg_tdiv] at hle
  omega

theorem le_tdiv_of_nonpos_of_neg (hx : x ≤ a') (hy : b ≤ y) (ha' : a' ≤ 0) (hy0 : y < 0) :
    a'.tdiv b ≤ x.tdiv y := by
  have hle := tdiv_le_tdiv_of_le_of_le (Int.neg_nonneg_of_nonpos ha') (Int.neg_le_neg hx)
    (Int.neg_pos_of_neg hy0) (Int.neg_le_neg hy)
  rw [Int.neg_tdiv_neg, Int.neg_tdiv_neg] at hle
  exact hle

theorem tdiv_le_of_nonpos_of_neg (hx : a ≤ x) (hy : y ≤ b') (hx0 : x ≤ 0) (hb' : b' < 0) :
    x.tdiv y ≤ a.tdiv b' := by
  have hle := tdiv_le_tdiv_of_le_of_le (Int.neg_nonneg_of_nonpos hx0) (Int.neg_le_neg hx)
    (Int.neg_pos_of_neg hb') (Int.neg_le_neg hy)
  rw [Int.neg_tdiv_neg, Int.neg_tdiv_neg] at hle
  exact hle

end IntervalArith

end AndroidArt.Lib
