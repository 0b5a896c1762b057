/-
Module: AndroidArt.Lib.BinaryFloat
Purpose: The non-negative values of a binary floating-point format and the IEEE 754 operations on
  them, each computed exactly and rounded once to nearest, ties to even: conversion of a natural
  number, sum, product, quotient, the comparison `<`, and the truncating conversion to an
  unsigned integer type.
Trusted boundary: none
Main exports: FloatFormat, FloatFormat.binary64, BinaryFloat, floorLog2Div
-/
import Mathlib

namespace AndroidArt.Lib

/-- A binary format: `prec` significant bits, finite values below `2 ^ maxExp`, and `2 ^ minExp`
the least subnormal. -/
structure FloatFormat where
  prec : Nat
  minExp : Int
  maxExp : Int

namespace FloatFormat

/-- IEEE 754 binary64, the C++ `double`. -/
def binary64 : FloatFormat := ⟨53, -1074, 1024⟩

end FloatFormat

/-- A non-negative floating-point value: NaN, +∞, or `m · 2^e`.  Zero is `finite 0 e` for any
`e`. -/
inductive BinaryFloat where
  | nan
  | inf
  | finite (m : Nat) (e : Int)
deriving Repr, DecidableEq, Inhabited

/-- `⌊log₂ (n / d)⌋` for positive `n` and `d`.  With `k = ⌊log₂ n⌋ - ⌊log₂ d⌋` the quotient lies
strictly between `2^(k-1)` and `2^(k+1)`, and it is at least `2^k` exactly when `d · 2^k ≤ n`. -/
def floorLog2Div (n d : Nat) : Int :=
  let k : Int := (n.log2 : Int) - d.log2
  if 0 ≤ k then (if d * 2 ^ k.toNat ≤ n then k else k - 1)
  else (if d ≤ n * 2 ^ (-k).toNat then k else k - 1)

/-- `n / d` rounded to the nearest natural number, ties to even. -/
def roundDiv (n d : Nat) : Nat :=
  let q := n / d
  let r := n % d
  if d < 2 * r ∨ (2 * r = d ∧ q % 2 = 1) then q + 1 else q

namespace FloatFormat

variable (fmt : FloatFormat)

/-- The exponent of the last place of a value whose leading bit is `2^l`: `prec` significant
bits, but never below the subnormal unit. -/
def lastPlace (l : Int) : Int := max fmt.minExp (l - (fmt.prec - 1 : Nat))

/-- `n / d · 2^e`, for `d > 0`, rounded to the nearest value of the format, ties to even. -/
def roundScaled (n d : Nat) (e : Int) : BinaryFloat :=
  if n = 0 then .finite 0 0
  else
    let t := fmt.lastPlace (floorLog2Div n d + e)
    -- the scaled quotient `n / d · 2^(e - t)`, as a quotient of natural numbers
    let m := roundDiv (n * 2 ^ (e - t).toNat) (d * 2 ^ (t - e).toNat)
    -- `m · 2^t ≥ 2^maxExp`, read off the leading bit of `m`
    if m ≠ 0 ∧ fmt.maxExp ≤ t + (m.log2 : Int) then .inf else .finite m t

end FloatFormat

namespace BinaryFloat

variable (fmt : FloatFormat)

/-- The conversion of an unsigned integer. -/
def ofNat (n : Nat) : BinaryFloat := fmt.roundScaled n 1 0

/-- IEEE addition of non-negative values. -/
def add : BinaryFloat → BinaryFloat → BinaryFloat
  | nan, _ | _, nan => nan
  | inf, _ | _, inf => inf
  | finite m₁ e₁, finite m₂ e₂ =>
    let e := min e₁ e₂
    fmt.roundScaled (m₁ * 2 ^ (e₁ - e).toNat + m₂ * 2 ^ (e₂ - e).toNat) 1 e

/-- IEEE multiplication of non-negative values: `∞ · 0` is NaN. -/
def mul : BinaryFloat → BinaryFloat → BinaryFloat
  | nan, _ | _, nan => nan
  | inf, finite 0 _ | finite 0 _, inf => nan
  | inf, _ | _, inf => inf
  | finite m₁ e₁, finite m₂ e₂ => fmt.roundScaled (m₁ * m₂) 1 (e₁ + e₂)

/-- IEEE division of non-negative values: `0 / 0` and `∞ / ∞` are NaN, a positive value over
zero is +∞. -/
def div : BinaryFloat → BinaryFloat → BinaryFloat
  | nan, _ | _, nan => nan
  | inf, inf => nan
  | inf, _ => inf
  | finite _ _, inf => finite 0 0
  | finite m₁ e₁, finite m₂ e₂ =>
    if m₂ = 0 then (if m₁ = 0 then nan else inf) else fmt.roundScaled m₁ m₂ (e₁ - e₂)

/-- IEEE `x < y`: false whenever NaN takes part. -/
def lt : BinaryFloat → BinaryFloat → Bool
  | nan, _ | _, nan => false
  | inf, _ => false
  | finite _ _, inf => true
  | finite m₁ e₁, finite m₂ e₂ =>
    let e := min e₁ e₂
    decide (m₁ * 2 ^ (e₁ - e).toNat < m₂ * 2 ^ (e₂ - e).toNat)

/-- The C++ conversion to an unsigned integer type of `w` bits: the value truncated toward zero,
and `none`, undefined behaviour, for NaN, +∞ and values from `2^w` on. -/
def truncate (w : Nat) : BinaryFloat → Option Nat
  | finite m e =>
    let v := if 0 ≤ e then m * 2 ^ e.toNat else m / 2 ^ (-e).toNat
    if v < 2 ^ w then some v else none
  | _ => none

end BinaryFloat

end AndroidArt.Lib
