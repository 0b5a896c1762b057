/-
Module: AndroidArt.Optimizing.InductionVarRange
Purpose: The symbolic values of induction-variable range analysis
  (compiler/optimizing/induction_var_range.cc).
Trusted boundary: the `int32_t` fields are integers: the code stores a sum, difference, product
  or quotient into one only after a check that it fits, which the theorems show. The signed
  `int64_t` products of `SafeMul` are taken to wrap around.
Main exports: Value, addValue, subValue, mulValue
-/
import AndroidArt.Lib.IntervalArith
import AndroidArt.Optimizing.JavaSemantics
import Mathlib.Tactic.Ring

namespace AndroidArt.Optimizing

namespace InductionVarRange

/-- `CanLongValueFitIntoInt(c)`: `c` is an `int32_t` value. -/
def canLongValueFitIntoInt (c : Int) : Bool :=
  decide (-2 ^ 31 ≤ c ∧ c ≤ 2 ^ 31 - 1)

/-- `IsSafeAdd(c1, c2)`, computed in `int64_t`. -/
def isSafeAdd (c1 c2 : Int) : Bool := canLongValueFitIntoInt (c1 + c2)

/-- `IsSafeSub(c1, c2)`. -/
def isSafeSub (c1 c2 : Int) : Bool := canLongValueFitIntoInt (c1 - c2)

/-- `IsSafeMul(c1, c2)`. -/
def isSafeMul (c1 c2 : Int) : Bool := canLongValueFitIntoInt (c1 * c2)

/-- `IsSafeDiv(c1, c2)`: the `int64_t` quotient truncates toward zero. -/
def isSafeDiv (c1 c2 : Int) : Bool := c2 != 0 && canLongValueFitIntoInt (c1.tdiv c2)

/-- `InductionVarRange::Value`: `aConstant * instruction + bConstant` when `isKnown`. -/
structure Value (ι : Type) where
  instruction : Option ι
  aConstant : Int
  bConstant : Int
  isKnown : Bool
deriving Repr, DecidableEq

namespace Value

variable {ι : Type}

/-- `Value()`. -/
def unknown : Value ι := ⟨none, 0, 0, false⟩

/-- `Value(i, a, b)`: the instruction is kept only with a non-zero coefficient. -/
def make (i : Option ι) (a b : Int) : Value ι :=
  ⟨if a ≠ 0 then i else none, a, b, true⟩

/-- `Value(b)`. -/
def ofConstant (b : Int) : Value ι := make none 0 b

/-- The integer a value denotes, where `env` values the instructions. -/
def denote (env : ι → Int) (v : Value ι) : Int :=
  v.aConstant * (v.instruction.map env).getD 0 + v.bConstant

/-- Both constants are `int32_t` values. -/
def Fits (v : Value ι) : Prop :=
  canLongValueFitIntoInt v.aConstant = true ∧ canLongValueFitIntoInt v.bConstant = true

/-- A known value bounds `z` from below when `isMin`, from above otherwise. -/
def Bounds (env : ι → Int) (isMin : Bool) (v : Value ι) (z : Int) : Prop :=
  v.isKnown = true → if isMin then v.denote env ≤ z else z ≤ v.denote env

end Value

open Value

variable {ι κ : Type}

/-- `IsConstantValue(v)`. -/
def isConstantValue (v : Value ι) : Bool := v.isKnown && v.aConstant == 0

section Arithmetic

variable [DecidableEq ι]

/-- `AddValue(v1, v2)`. -/
def addValue (v1 v2 : Value ι) : Value ι :=
  if v1.isKnown ∧ v2.isKnown ∧ isSafeAdd v1.bConstant v2.bConstant then
    let b := v1.bConstant + v2.bConstant
    if v1.aConstant = 0 then make v2.instruction v2.aConstant b
    else if v2.aConstant = 0 then make v1.instruction v1.aConstant b
    else if v1.instruction = v2.instruction ∧ isSafeAdd v1.aConstant v2.aConstant then
      make v1.instruction (v1.aConstant + v2.aConstant) b
    else unknown
  else unknown

/-- `SubValue(v1, v2)`. -/
def subValue (v1 v2 : Value ι) : Value ι :=
  if v1.isKnown ∧ v2.isKnown ∧ isSafeSub v1.bConstant v2.bConstant then
    let b := v1.bConstant - v2.bConstant
    if v1.aConstant = 0 ∧ isSafeSub 0 v2.aConstant then make v2.instruction (-v2.aConstant) b
    else if v2.aConstant = 0 then make v1.instruction v1.aConstant b
    else if v1.instruction = v2.instruction ∧ isSafeSub v1.aConstant v2.aConstant then
      make v1.instruction (v1.aConstant - v2.aConstant) b
    else unknown
  else unknown

/-- `MulValue(v1, v2)`: one of the two must be a constant. -/
def mulValue (v1 v2 : Value ι) : Value ι :=
  if v1.isKnown ∧ v2.isKnown then
    if v1.aConstant = 0 then
      if isSafeMul v1.bConstant v2.aConstant ∧ isSafeMul v1.bConstant v2.bConstant then
        make v2.instruction (v1.bConstant * v2.aConstant) (v1.bConstant * v2.bConstant)
      else unknown
    else if v2.aConstant = 0 then
      if isSafeMul v1.aConstant v2.bConstant ∧ isSafeMul v1.bConstant v2.bConstant then
        make v1.instruction (v1.aConstant * v2.bConstant) (v1.bConstant * v2.bConstant)
      else unknown
    else unknown
  else unknown

/-- `DivValue(v1, v2)`: both must be constants. -/
def divValue (v1 v2 : Value ι) : Value ι :=
  if v1.isKnown ∧ v2.isKnown ∧ v1.aConstant = 0 ∧ v2.aConstant = 0 then
    if isSafeDiv v1.bConstant v2.bConstant then ofConstant (v1.bConstant.tdiv v2.bConstant)
    else unknown
  else unknown

/-- `MergeVal(v1, v2, is_min)`: the smaller or the larger of two values that differ in their
constant only. -/
def mergeVal (v1 v2 : Value ι) (isMin : Bool) : Value ι :=
  if v1.isKnown ∧ v2.isKnown then
    if v1.instruction = v2.instruction ∧ v1.aConstant = v2.aConstant then
      make v1.instruction v1.aConstant
        (if isMin then min v1.bConstant v2.bConstant else max v1.bConstant v2.bConstant)
    else unknown
  else unknown

end Arithmetic

section Ranges

/-- The second test of the interval part of `GetMul`: a negative range `[v1Min, v1Max]`
against a positive or a negative range `[v2Min, v2Max]`. -/
def mulNegativeRange (v1Min v1Max v2Min v2Max : Value ι) (isMin : Bool) : Value ι :=
  if isConstantValue v1Max ∧ v1Max.bConstant ≤ 0 then
    if isConstantValue v2Min ∧ v2Min.bConstant ≥ 0 then
      if isMin then mulValue v1Min v2Max else mulValue v1Max v2Min
    else if isConstantValue v2Max ∧ v2Max.bConstant ≤ 0 then
      if isMin then mulValue v1Max v2Max else mulValue v1Min v2Min
    else unknown
  else unknown

/-- The interval part of `GetMul`: a positive range `[v1Min, v1Max]` against a positive or a
negative range; where neither applies, the code falls through to the test for a negative
range. -/
def mulRanges (v1Min v1Max v2Min v2Max : Value ι) (isMin : Bool) : Value ι :=
  if isConstantValue v1Min ∧ v1Min.bConstant ≥ 0 then
    if isConstantValue v2Min ∧ v2Min.bConstant ≥ 0 then
      if isMin then mulValue v1Min v2Min else mulValue v1Max v2Max
    else if isConstantValue v2Max ∧ v2Max.bConstant ≤ 0 then
      if isMin then mulValue v1Max v2Min else mulValue v1Min v2Max
    else mulNegativeRange v1Min v1Max v2Min v2Max isMin
  else mulNegativeRange v1Min v1Max v2Min v2Max isMin

/-- The second test of the interval part of `GetDiv`: a negative range `[v1Min, v1Max]`
divided by a positive or a negative range `[v2Min, v2Max]`. -/
def divNegativeRange (v1Min v1Max v2Min v2Max : Value ι) (isMin : Bool) : Value ι :=
  if isConstantValue v1Max ∧ v1Max.bConstant ≤ 0 then
    if isConstantValue v2Min ∧ v2Min.bConstant ≥ 0 then
      if isMin then divValue v1Min v2Min else divValue v1Max v2Max
    else if isConstantValue v2Max ∧ v2Max.bConstant ≤ 0 then
      if isMin then divValue v1Max v2Min else divValue v1Min v2Max
    else unknown
  else unknown

/-- The interval part of `GetDiv`: a positive range `[v1Min, v1Max]` divided by a positive or
a negative range, else the test for a negative range. -/
def divRanges (v1Min v1Max v2Min v2Max : Value ι) (isMin : Bool) : Value ι :=
  if isConstantValue v1Min ∧ v1Min.bConstant ≥ 0 then
    if isConstantValue v2Min ∧ v2Min.bConstant ≥ 0 then
      if isMin then divValue v1Min v2Max else divValue v1Max v2Min
    else if isConstantValue v2Max ∧ v2Max.bConstant ≤ 0 then
      if isMin then divValue v1Max v2Max else divValue v1Min v2Min
    else divNegativeRange v1Min v1Max v2Min v2Max isMin
  else divNegativeRange v1Min v1Max v2Min v2Max isMin

/-- `MulRangeAndConstant(value, info, trip, in_body, is_min)`, with `getVal info isMin` for
`GetVal(info, trip, in_body, is_min)`: a negative constant swaps the bound it asks for. -/
def mulRangeAndConstant (getVal : κ → Bool → Value ι) (value : Int) (info : κ)
    (isMin : Bool) : Value ι :=
  if canLongValueFitIntoInt value then
    mulValue (getVal info (isMin == decide (value ≥ 0))) (ofConstant value)
  else unknown

/-- `DivRangeAndConstant(value, info, trip, in_body, is_min)`. -/
def divRangeAndConstant (getVal : κ → Bool → Value ι) (value : Int) (info : κ)
    (isMin : Bool) : Value ι :=
  if canLongValueFitIntoInt value then
    divValue (getVal info (isMin == decide (value ≥ 0))) (ofConstant value)
  else unknown

/-- `GetMul(info1, info2, trip, in_body, is_min)`, with `isConstant info` for
`IsConstant(info, kExact, &value)`. -/
def getMul (isConstant : κ → Option Int) (getVal : κ → Bool → Value ι) (info1 info2 : κ)
    (isMin : Bool) : Value ι :=
  -- Constant times range.
  match isConstant info1, isConstant info2 with
  | some value, _ => mulRangeAndConstant getVal value info2 isMin
  | none, some value => mulRangeAndConstant getVal value info1 isMin
  -- Interval ranges.
  | none, none =>
    mulRanges (getVal info1 true) (getVal info1 false) (getVal info2 true) (getVal info2 false)
      isMin

/-- `GetDiv(info1, info2, trip, in_body, is_min)`. -/
def getDiv (isConstant : κ → Option Int) (getVal : κ → Bool → Value ι) (info1 info2 : κ)
    (isMin : Bool) : Value ι :=
  -- Range divided by constant.
  match isConstant info2 with
  | some value => divRangeAndConstant getVal value info1 isMin
  -- Interval ranges.
  | none =>
    divRanges (getVal info1 true) (getVal info1 false) (getVal info2 true) (getVal info2 false)
      isMin

end Ranges

/-! ### Powers in `int64_t` -/

/-- `std::numeric_limits<int64_t>::max()`. -/
def int64Max : Int := 2 ^ 63 - 1

/-- `SafeMul(a, b, overflow)`: the `int64_t` product, with the flag set where positive `a`
and `b` have a product above `INT64_MAX`. -/
def safeMul (a b : Int) (overflow : Bool) : Int × Bool :=
  (Java.wrap 64 (a * b), if 0 < a ∧ 0 < b ∧ a > int64Max.tdiv b then true else overflow)

/-- The loop of `IntPow` from `b`, `e`, `pow` and the flag: multiply `pow` by `b` for each set
bit of `e`, squaring `b` while bits remain. -/
def intPowLoop (b : Int) (e : Nat) (pow : Int) (overflow : Bool) : Int × Bool :=
  if he : e = 0 then (pow, overflow)
  else
    let step := if e % 2 = 1 then safeMul pow b overflow else (pow, overflow)
    let squared := if e / 2 ≠ 0 then safeMul b b step.2 else (b, step.2)
    intPowLoop squared.1 (e / 2) step.1 squared.2
termination_by e
decreasing_by omega

/-- `IntPow(b, e, overflow)` for a positive exponent, whose `int64_t` shifts are those of a
natural number. -/
def intPow (b : Int) (e : Nat) (overflow : Bool) : Int × Bool := intPowLoop b e 1 overflow

/-! ### The symbolic arithmetic is exact -/

namespace Value

variable {env : ι → Int}

@[simp] theorem isKnown_unknown : (unknown : Value ι).isKnown = false := rfl

@[simp] theorem isKnown_make (i : Option ι) (a b : Int) : (make i a b).isKnown = true := rfl

@[simp] theorem aConstant_make (i : Option ι) (a b : Int) : (make i a b).aConstant = a := rfl

@[simp] theorem bConstant_make (i : Option ι) (a b : Int) : (make i a b).bConstant = b := rfl

/-- `Value(i, a, b)` denotes `a * i + b`, whether or not it keeps `i`. -/
@[simp] theorem denote_make (i : Option ι) (a b : Int) :
    (make i a b).denote env = a * (i.map env).getD 0 + b := by
  unfold make denote
  split
  · rfl
  · rename_i ha
    rw [Classical.not_not.mp ha, Int.zero_mul, Int.zero_mul]

@[simp] theorem denote_ofConstant (b : Int) : (ofConstant b : Value ι).denote env = b := by
  simp [ofConstant]

theorem fits_make {i : Option ι} {a b : Int} (ha : canLongValueFitIntoInt a = true)
    (hb : canLongValueFitIntoInt b = true) : (make i a b).Fits :=
  ⟨ha, hb⟩

theorem Bounds.lower {v : Value ι} {z : Int} (h : v.Bounds env true z) (hk : v.isKnown = true) :
    v.denote env ≤ z :=
  h hk

theorem Bounds.upper {v : Value ι} {z : Int} (h : v.Bounds env false z) (hk : v.isKnown = true) :
    z ≤ v.denote env :=
  h hk

@[simp] theorem bounds_unknown (isMin : Bool) (z : Int) : (unknown : Value ι).Bounds env isMin z := by
  intro hk
  cases hk

end Value

variable {env : ι → Int}

/-- A constant value denotes its constant. -/
theorem denote_of_isConstantValue (env : ι → Int) {v : Value ι}
    (h : isConstantValue v = true) :
    v.denote env = v.bConstant := by
  simp only [isConstantValue, Bool.and_eq_true, beq_iff_eq] at h
  simp [denote, h.2]

section Arithmetic

variable {v1 v2 : Value ι}

theorem addValue_spec [DecidableEq ι] (env : ι → Int) (hk : (addValue v1 v2).isKnown = true) :
    (addValue v1 v2).denote env = v1.denote env + v2.denote env ∧
      (v1.Fits → v2.Fits → (addValue v1 v2).Fits) := by
  unfold addValue at hk ⊢
  by_cases hknown : v1.isKnown = true ∧ v2.isKnown = true ∧
      isSafeAdd v1.bConstant v2.bConstant = true
  swap
  · rw [if_neg hknown] at hk
    cases hk
  rw [if_pos hknown] at hk ⊢
  dsimp only at hk ⊢
  have hsafe := hknown.2.2
  by_cases ha1 : v1.aConstant = 0
  · -- `v1` is the constant `b1`
    rw [if_pos ha1]
    refine ⟨?_, fun _ h2 => fits_make h2.1 hsafe⟩
    rw [denote_make]
    unfold denote
    rw [ha1]
    omega
  rw [if_neg ha1] at hk ⊢
  by_cases ha2 : v2.aConstant = 0
  · rw [if_pos ha2]
    refine ⟨?_, fun h1 _ => fits_make h1.1 hsafe⟩
    rw [denote_make]
    unfold denote
    rw [ha2]
    omega
  rw [if_neg ha2] at hk ⊢
  by_cases hsame : v1.instruction = v2.instruction ∧ isSafeAdd v1.aConstant v2.aConstant = true
  · -- one instruction: the coefficients add
    rw [if_pos hsame]
    refine ⟨?_, fun _ _ => fits_make hsame.2 hsafe⟩
    rw [denote_make]
    unfold denote
    rw [← hsame.1, Int.add_mul]
    omega
  rw [if_neg hsame] at hk
  cases hk

theorem subValue_spec [DecidableEq ι] (env : ι → Int) (hk : (subValue v1 v2).isKnown = true) :
    (subValue v1 v2).denote env = v1.denote env - v2.denote env ∧
      (v1.Fits → v2.Fits → (subValue v1 v2).Fits) := by
  unfold subValue at hk ⊢
  by_cases hknown : v1.isKnown = true ∧ v2.isKnown = true ∧
      isSafeSub v1.bConstant v2.bConstant = true
  swap
  · rw [if_neg hknown] at hk
    cases hk
  rw [if_pos hknown] at hk ⊢
  dsimp only at hk ⊢
  have hsafe := hknown.2.2
  by_cases hneg : v1.aConstant = 0 ∧ isSafeSub 0 v2.aConstant = true
  · -- `v1` is the constant `b1`, and `-a2` fits
    rw [if_pos hneg]
    have hfit : canLongValueFitIntoInt (-v2.aConstant) = true := by
      simpa [isSafeSub] using hneg.2
    refine ⟨?_, fun _ _ => fits_make hfit hsafe⟩
    rw [denote_make]
    unfold denote
    rw [hneg.1, Int.neg_mul]
    omega
  rw [if_neg hneg] at hk ⊢
  by_cases ha2 : v2.aConstant = 0
  · rw [if_pos ha2]
    refine ⟨?_, fun h1 _ => fits_make h1.1 hsafe⟩
    rw [denote_make]
    unfold denote
    rw [ha2]
    omega
  rw [if_neg ha2] at hk ⊢
  by_cases hsame : v1.instruction = v2.instruction ∧ isSafeSub v1.aConstant v2.aConstant = true
  · rw [if_pos hsame]
    refine ⟨?_, fun _ _ => fits_make hsame.2 hsafe⟩
    rw [denote_make]
    unfold denote
    rw [← hsame.1, Int.sub_mul]
    omega
  rw [if_neg hsame] at hk
  cases hk

theorem mulValue_spec (env : ι → Int) (hk : (mulValue v1 v2).isKnown = true) :
    v1.isKnown = true ∧ v2.isKnown = true ∧
      (mulValue v1 v2).denote env = v1.denote env * v2.denote env ∧
      (mulValue v1 v2).Fits := by
  unfold mulValue at hk ⊢
  by_cases hknown : v1.isKnown = true ∧ v2.isKnown = true
  swap
  · rw [if_neg hknown] at hk
    cases hk
  rw [if_pos hknown] at hk ⊢
  refine ⟨hknown.1, hknown.2, ?_⟩
  by_cases ha1 : v1.aConstant = 0
  · -- `v1` is the constant `b1`: it scales both constants of `v2`
    rw [if_pos ha1] at hk ⊢
    by_cases hsafe : isSafeMul v1.bConstant v2.aConstant = true ∧
        isSafeMul v1.bConstant v2.bConstant = true
    · rw [if_pos hsafe]
      refine ⟨?_, fits_make hsafe.1 hsafe.2⟩
      rw [denote_make]
      unfold denote
      rw [ha1]
      ring
    · rw [if_neg hsafe] at hk
      cases hk
  rw [if_neg ha1] at hk ⊢
  by_cases ha2 : v2.aConstant = 0
  · rw [if_pos ha2] at hk ⊢
    by_cases hsafe : isSafeMul v1.aConstant v2.bConstant = true ∧
        isSafeMul v1.bConstant v2.bConstant = true
    · rw [if_pos hsafe]
      refine ⟨?_, fits_make hsafe.1 hsafe.2⟩
      rw [denote_make]
      unfold denote
      rw [ha2]
      ring
    · rw [if_neg hsafe] at hk
      cases hk
  rw [if_neg ha2] at hk
  cases hk

theorem divValue_spec (env : ι → Int) (hk : (divValue v1 v2).isKnown = true) :
    isConstantValue v1 = true ∧ isConstantValue v2 = true ∧ v2.bConstant ≠ 0 ∧
      (divValue v1 v2).denote env = (v1.denote env).tdiv (v2.denote env) ∧
      (divValue v1 v2).Fits := by
  unfold divValue at hk ⊢
  by_cases hknown : v1.isKnown = true ∧ v2.isKnown = true ∧ v1.aConstant = 0 ∧
      v2.aConstant = 0
  swap
  · rw [if_neg hknown] at hk
    cases hk
  rw [if_pos hknown] at hk ⊢
  obtain ⟨hk1, hk2, ha1, ha2⟩ := hknown
  have hc1 : isConstantValue v1 = true := by simp [isConstantValue, hk1, ha1]
  have hc2 : isConstantValue v2 = true := by simp [isConstantValue, hk2, ha2]
  by_cases hsafe : isSafeDiv v1.bConstant v2.bConstant = true
  swap
  · rw [if_neg hsafe] at hk
    cases hk
  rw [if_pos hsafe]
  simp only [isSafeDiv, Bool.and_eq_true, bne_iff_ne, ne_eq] at hsafe
  refine ⟨hc1, hc2, hsafe.1, ?_, fits_make (by decide) hsafe.2⟩
  rw [denote_ofConstant, denote_of_isConstantValue env hc1, denote_of_isConstantValue env hc2]

theorem mergeVal_spec [DecidableEq ι] (env : ι → Int) {isMin : Bool} (hk : (mergeVal v1 v2 isMin).isKnown = true) :
    (mergeVal v1 v2 isMin).denote env =
        (if isMin then min (v1.denote env) (v2.denote env)
          else max (v1.denote env) (v2.denote env)) ∧
      (v1.Fits → v2.Fits → (mergeVal v1 v2 isMin).Fits) := by
  unfold mergeVal at hk ⊢
  by_cases hknown : v1.isKnown = true ∧ v2.isKnown = true
  swap
  · rw [if_neg hknown] at hk
    cases hk
  rw [if_pos hknown] at hk ⊢
  by_cases hsame : v1.instruction = v2.instruction ∧ v1.aConstant = v2.aConstant
  swap
  · rw [if_neg hsame] at hk
    cases hk
  rw [if_pos hsame]
  -- the smaller or the larger constant is one of the two
  have hfit : v1.Fits → v2.Fits →
      canLongValueFitIntoInt
        (if isMin then min v1.bConstant v2.bConstant
          else max v1.bConstant v2.bConstant) = true := by
    intro h1 h2
    cases isMin
    · rcases max_choice v1.bConstant v2.bConstant with h | h <;> simp [h, h1.2, h2.2]
    · rcases min_choice v1.bConstant v2.bConstant with h | h <;> simp [h, h1.2, h2.2]
  refine ⟨?_, fun h1 h2 => fits_make h1.1 (hfit h1 h2)⟩
  rw [denote_make]
  unfold denote
  rw [← hsame.1, ← hsame.2]
  cases isMin <;> simp only [Bool.false_eq_true, if_false, if_true] <;> omega

end Arithmetic

/-! ### The range rules are sound

`GetMul` and `GetDiv` bound a product or a quotient from the bounds `GetVal` gives their
operands.  `GetValSound` is what the induction over the induction information assumes of those
recursive calls; each rule then picks, by the signs of the bounds, the pair of bounds that is
extreme, and `IntervalArith` says that it is. -/

/-- `isConstant` and `getVal` are sound for the values `Holds info` admits: an exact constant
is the only value, and a known bound bounds every value. -/
structure GetValSound (env : ι → Int) (Holds : κ → Int → Prop) (isConstant : κ → Option Int)
    (getVal : κ → Bool → Value ι) : Prop where
  isConstant_eq : ∀ {info c x}, isConstant info = some c → Holds info x → x = c
  getVal_bounds : ∀ {info x} (isMin : Bool), Holds info x → (getVal info isMin).Bounds env isMin x

section Sound

variable {v w : Value ι} {z : Int}

theorem lower_of_isConstantValue (hc : isConstantValue v = true) (h : v.Bounds env true z) :
    v.bConstant ≤ z := by
  have hk : v.isKnown = true := by
    simp only [isConstantValue, Bool.and_eq_true] at hc
    exact hc.1
  rw [← denote_of_isConstantValue env hc]
  exact h.lower hk

theorem upper_of_isConstantValue (hc : isConstantValue v = true) (h : v.Bounds env false z) :
    z ≤ v.bConstant := by
  have hk : v.isKnown = true := by
    simp only [isConstantValue, Bool.and_eq_true] at hc
    exact hc.1
  rw [← denote_of_isConstantValue env hc]
  exact h.upper hk

/-- A product bounds `z` where the product of the two values does. -/
theorem bounds_mulValue (isMin : Bool)
    (h : v.isKnown = true → w.isKnown = true →
      if isMin then v.denote env * w.denote env ≤ z else z ≤ v.denote env * w.denote env) :
    (mulValue v w).Bounds env isMin z := by
  intro hk
  obtain ⟨hv, hw, hdenote, -⟩ := mulValue_spec env hk
  rw [hdenote]
  exact h hv hw

/-- A quotient bounds `z` where the quotient of the two constants does. -/
theorem bounds_divValue (isMin : Bool)
    (h : isConstantValue v = true → isConstantValue w = true → w.bConstant ≠ 0 →
      if isMin then v.bConstant.tdiv w.bConstant ≤ z else z ≤ v.bConstant.tdiv w.bConstant) :
    (divValue v w).Bounds env isMin z := by
  intro hk
  obtain ⟨hv, hw, hne, hdenote, -⟩ := divValue_spec env hk
  rw [hdenote, denote_of_isConstantValue env hv, denote_of_isConstantValue env hw]
  exact h hv hw hne

end Sound

section Intervals

open AndroidArt.Lib.IntervalArith

variable {v1Min v1Max v2Min v2Max : Value ι} {x y : Int}
  (hx1 : v1Min.Bounds env true x) (hx2 : v1Max.Bounds env false x)
  (hy1 : v2Min.Bounds env true y) (hy2 : v2Max.Bounds env false y)
include hx1 hx2 hy1 hy2

theorem mulNegativeRange_sound (isMin : Bool) :
    (mulNegativeRange v1Min v1Max v2Min v2Max isMin).Bounds env isMin (x * y) := by
  unfold mulNegativeRange
  split
  swap
  · exact bounds_unknown isMin _
  rename_i hneg1
  have hx0 := upper_of_isConstantValue hneg1.1 hx2
  split
  · -- negative times positive
    rename_i hpos2
    have hy0 := lower_of_isConstantValue hpos2.1 hy1
    cases isMin
    · rw [if_neg Bool.false_ne_true]
      apply bounds_mulValue
      intro _ _
      rw [denote_of_isConstantValue env hneg1.1, denote_of_isConstantValue env hpos2.1]
      exact mul_le_of_nonpos_of_nonneg hx0 hy0 hneg1.2 hpos2.2
    · rw [if_pos rfl]
      apply bounds_mulValue
      intro hv hw
      have hx := hx1.lower hv
      have hy := hy2.upper hw
      exact le_mul_of_nonpos_of_nonneg hx hy (by omega) (by omega)
  split
  · -- negative times negative
    rename_i _ hneg2
    have hy0 := upper_of_isConstantValue hneg2.1 hy2
    cases isMin
    · rw [if_neg Bool.false_ne_true]
      apply bounds_mulValue
      intro hv hw
      have hx := hx1.lower hv
      have hy := hy1.lower hw
      exact mul_le_of_nonpos_of_nonpos hx hy (by omega) (by omega)
    · rw [if_pos rfl]
      apply bounds_mulValue
      intro _ _
      rw [denote_of_isConstantValue env hneg1.1, denote_of_isConstantValue env hneg2.1]
      exact le_mul_of_nonpos_of_nonpos hx0 hy0 hneg1.2 hneg2.2
  exact bounds_unknown isMin _

theorem mulRanges_sound (isMin : Bool) :
    (mulRanges v1Min v1Max v2Min v2Max isMin).Bounds env isMin (x * y) := by
  unfold mulRanges
  split
  swap
  · exact mulNegativeRange_sound hx1 hx2 hy1 hy2 isMin
  rename_i hpos1
  have hx0 := lower_of_isConstantValue hpos1.1 hx1
  split
  · -- positive times positive
    rename_i hpos2
    have hy0 := lower_of_isConstantValue hpos2.1 hy1
    cases isMin
    · rw [if_neg Bool.false_ne_true]
      apply bounds_mulValue
      intro hv hw
      have hx := hx2.upper hv
      have hy := hy2.upper hw
      exact mul_le_of_nonneg_of_nonneg hx hy (by omega) (by omega)
    · rw [if_pos rfl]
      apply bounds_mulValue
      intro _ _
      rw [denote_of_isConstantValue env hpos1.1, denote_of_isConstantValue env hpos2.1]
      exact le_mul_of_nonneg_of_nonneg hx0 hy0 hpos1.2 hpos2.2
  split
  · -- positive times negative
    rename_i _ hneg2
    have hy0 := upper_of_isConstantValue hneg2.1 hy2
    cases isMin
    · rw [if_neg Bool.false_ne_true]
      apply bounds_mulValue
      intro _ _
      rw [denote_of_isConstantValue env hpos1.1, denote_of_isConstantValue env hneg2.1]
      exact mul_le_of_nonneg_of_nonpos hx0 hy0 hpos1.2 hneg2.2
    · rw [if_pos rfl]
      apply bounds_mulValue
      intro hv hw
      have hx := hx2.upper hv
      have hy := hy1.lower hw
      exact le_mul_of_nonneg_of_nonpos hx hy (by omega) (by omega)
  exact mulNegativeRange_sound hx1 hx2 hy1 hy2 isMin

theorem divNegativeRange_sound (hy0 : y ≠ 0) (isMin : Bool) :
    (divNegativeRange v1Min v1Max v2Min v2Max isMin).Bounds env isMin (x.tdiv y) := by
  unfold divNegativeRange
  split
  swap
  · exact bounds_unknown isMin _
  rename_i hneg1
  have hx0 := upper_of_isConstantValue hneg1.1 hx2
  split
  · -- negative divided by positive
    rename_i hpos2
    have hyb := lower_of_isConstantValue hpos2.1 hy1
    cases isMin
    · rw [if_neg Bool.false_ne_true]
      apply bounds_divValue
      intro hv hw _
      have hx := upper_of_isConstantValue hv hx2
      have hy := upper_of_isConstantValue hw hy2
      exact tdiv_le_of_nonpos_of_pos hx hy hneg1.2 (by omega)
    · rw [if_pos rfl]
      apply bounds_divValue
      intro hv hw hne
      have hx := lower_of_isConstantValue hv hx1
      have hy := lower_of_isConstantValue hw hy1
      exact le_tdiv_of_nonpos_of_pos hx hy (by omega) (by omega)
  split
  · -- negative divided by negative
    rename_i _ hneg2
    have hyb := upper_of_isConstantValue hneg2.1 hy2
    cases isMin
    · rw [if_neg Bool.false_ne_true]
      apply bounds_divValue
      intro hv hw hne
      have hx := lower_of_isConstantValue hv hx1
      have hy := upper_of_isConstantValue hw hy2
      exact tdiv_le_of_nonpos_of_neg hx hy (by omega) (by omega)
    · rw [if_pos rfl]
      apply bounds_divValue
      intro hv hw _
      have hx := upper_of_isConstantValue hv hx2
      have hy := lower_of_isConstantValue hw hy1
      exact le_tdiv_of_nonpos_of_neg hx hy hneg1.2 (by omega)
  exact bounds_unknown isMin _

theorem divRanges_sound (hy0 : y ≠ 0) (isMin : Bool) :
    (divRanges v1Min v1Max v2Min v2Max isMin).Bounds env isMin (x.tdiv y) := by
  unfold divRanges
  split
  swap
  · exact divNegativeRange_sound hx1 hx2 hy1 hy2 hy0 isMin
  rename_i hpos1
  have hx0 := lower_of_isConstantValue hpos1.1 hx1
  split
  · -- positive divided by positive
    rename_i hpos2
    have hyb := lower_of_isConstantValue hpos2.1 hy1
    cases isMin
    · rw [if_neg Bool.false_ne_true]
      apply bounds_divValue
      intro hv hw hne
      have hx := upper_of_isConstantValue hv hx2
      have hy := lower_of_isConstantValue hw hy1
      exact tdiv_le_of_nonneg_of_nonneg hx hy (by omega) (by omega)
    · rw [if_pos rfl]
      apply bounds_divValue
      intro hv hw _
      have hx := lower_of_isConstantValue hv hx1
      have hy := upper_of_isConstantValue hw hy2
      exact le_tdiv_of_nonneg_of_nonneg hx hy hpos1.2 (by omega)
  split
  · -- positive divided by negative
    rename_i _ hneg2
    have hyb := upper_of_isConstantValue hneg2.1 hy2
    cases isMin
    · rw [if_neg Bool.false_ne_true]
      apply bounds_divValue
      intro hv hw _
      have hx := lower_of_isConstantValue hv hx1
      have hy := lower_of_isConstantValue hw hy1
      exact tdiv_le_of_nonneg_of_neg hx hy hpos1.2 (by omega)
    · rw [if_pos rfl]
      apply bounds_divValue
      intro hv hw hne
      have hx := upper_of_isConstantValue hv hx2
      have hy := upper_of_isConstantValue hw hy2
      exact le_tdiv_of_nonneg_of_neg hx hy (by omega) (by omega)
  exact divNegativeRange_sound hx1 hx2 hy1 hy2 hy0 isMin

end Intervals

/-- `[-3, -1] * [-5, -2]`: two negative ranges, whose least product is that of the two upper
bounds. -/
example : mulRanges (ofConstant (-3) : Value Nat) (ofConstant (-1)) (ofConstant (-5))
    (ofConstant (-2)) true = ofConstant 2 := by
  decide

section Rules

variable {Holds : κ → Int → Prop} {isConstant : κ → Option Int} {getVal : κ → Bool → Value ι}
  {info info1 info2 : κ} {x y : Int}

/-- A range times a constant: a negative constant turns the lower bound of the range into the
upper bound of the product. -/
theorem mulRangeAndConstant_sound (hsound : GetValSound env Holds isConstant getVal)
    (hx : Holds info x) (value : Int) (isMin : Bool) :
    (mulRangeAndConstant getVal value info isMin).Bounds env isMin (x * value) := by
  unfold mulRangeAndConstant
  split
  swap
  · exact bounds_unknown isMin _
  apply bounds_mulValue
  intro hv _
  have hbound := hsound.getVal_bounds (isMin == decide (value ≥ 0)) hx
  rw [denote_ofConstant]
  rcases le_or_gt 0 value with hc | hc
  · have hsign : decide (value ≥ 0) = true := decide_eq_true hc
    rw [hsign, beq_true] at hbound hv ⊢
    cases isMin
    · exact mul_le_mul_of_nonneg_right (hbound.upper hv) hc
    · exact mul_le_mul_of_nonneg_right (hbound.lower hv) hc
  · have hsign : decide (value ≥ 0) = false := decide_eq_false (by omega)
    rw [hsign, beq_false] at hbound hv ⊢
    cases isMin
    · exact mul_le_mul_of_nonpos_right (hbound.lower hv) hc.le
    · exact mul_le_mul_of_nonpos_right (hbound.upper hv) hc.le

/-- A range divided by a constant, where the truncated quotient is monotone in the dividend. -/
theorem divRangeAndConstant_sound (hsound : GetValSound env Holds isConstant getVal)
    (hx : Holds info x) (value : Int) (isMin : Bool) :
    (divRangeAndConstant getVal value info isMin).Bounds env isMin (x.tdiv value) := by
  unfold divRangeAndConstant
  split
  swap
  · exact bounds_unknown isMin _
  apply bounds_divValue
  intro hv hw hne
  have hbound := hsound.getVal_bounds (isMin == decide (value ≥ 0)) hx
  have hc : (ofConstant value : Value ι).bConstant = value := rfl
  rw [hc] at hne ⊢
  rcases lt_or_gt_of_ne hne with hneg | hpos
  · have hsign : decide (value ≥ 0) = false := decide_eq_false (by omega)
    rw [hsign, beq_false] at hbound hv ⊢
    cases isMin
    · have hlow := lower_of_isConstantValue hv hbound
      exact Lib.IntervalArith.tdiv_le_tdiv_of_neg hneg hlow
    · have hup := upper_of_isConstantValue hv hbound
      exact Lib.IntervalArith.tdiv_le_tdiv_of_neg hneg hup
  · have hsign : decide (value ≥ 0) = true := decide_eq_true hpos.le
    rw [hsign, beq_true] at hbound hv ⊢
    cases isMin
    · have hup := upper_of_isConstantValue hv hbound
      exact Int.tdiv_le_tdiv hpos hup
    · have hlow := lower_of_isConstantValue hv hbound
      exact Int.tdiv_le_tdiv hpos hlow

/-- `GetMul` is sound where `GetVal` and `IsConstant` are: the step of the induction over the
induction information for a multiplication. -/
theorem getMul_sound (hsound : GetValSound env Holds isConstant getVal) (hx : Holds info1 x)
    (hy : Holds info2 y) (isMin : Bool) :
    (getMul isConstant getVal info1 info2 isMin).Bounds env isMin (x * y) := by
  unfold getMul
  cases h1 : isConstant info1 with
  | some value =>
    -- a constant times a range
    rw [hsound.isConstant_eq h1 hx, Int.mul_comm]
    exact mulRangeAndConstant_sound hsound hy value isMin
  | none =>
    cases h2 : isConstant info2 with
    | some value =>
      rw [hsound.isConstant_eq h2 hy]
      exact mulRangeAndConstant_sound hsound hx value isMin
    | none =>
      exact mulRanges_sound (hsound.getVal_bounds true hx) (hsound.getVal_bounds false hx)
        (hsound.getVal_bounds true hy) (hsound.getVal_bounds false hy) isMin

/-- `GetDiv` is sound where `GetVal` and `IsConstant` are, for a divisor that is not zero. -/
theorem getDiv_sound (hsound : GetValSound env Holds isConstant getVal) (hx : Holds info1 x)
    (hy : Holds info2 y) (hy0 : y ≠ 0) (isMin : Bool) :
    (getDiv isConstant getVal info1 info2 isMin).Bounds env isMin (x.tdiv y) := by
  unfold getDiv
  cases h2 : isConstant info2 with
  | some value =>
    -- a range divided by a constant
    rw [hsound.isConstant_eq h2 hy]
    exact divRangeAndConstant_sound hsound hx value isMin
  | none =>
    exact divRanges_sound (hsound.getVal_bounds true hx) (hsound.getVal_bounds false hx)
      (hsound.getVal_bounds true hy) (hsound.getVal_bounds false hy) hy0 isMin

end Rules

/-! ### `IntPow` computes the power and detects its overflow

The loop keeps the wraps of two positive integers, the running product and the running square.
Each step multiplies the product by the square for a set bit and squares the square while bits
remain; the flag collects every product above `INT64_MAX`.  Every such product is at most the
power itself, so the flag ends set exactly when the power overflows. -/

section Power

variable {x y : Int} {overflow : Bool}

theorem wrap64_of_pos {z : Int} (h1 : 1 ≤ z) (h2 : z ≤ int64Max) : Java.wrap 64 z = z := by
  unfold int64Max at h2
  exact Java.wrap_of_range (by norm_num) (by norm_num; omega) (by norm_num; omega)

/-- `SafeMul` of the wraps of two positive integers: the wrap of their product, the flag set
where the product exceeds `INT64_MAX`, as long as the flag is clear only for factors that fit. -/
theorem safeMul_wrap (hx : 1 ≤ x) (hy : 1 ≤ y)
    (hfits : overflow = false → x ≤ int64Max ∧ y ≤ int64Max) :
    safeMul (Java.wrap 64 x) (Java.wrap 64 y) overflow =
      (Java.wrap 64 (x * y), overflow || decide (int64Max < x * y)) := by
  unfold safeMul
  rw [Java.wrap_mul_wrap]
  cases overflow
  · obtain ⟨hxM, hyM⟩ := hfits rfl
    rw [wrap64_of_pos hx hxM, wrap64_of_pos hy hyM, Bool.false_or]
    -- `a > max / b` is `a * b > max` for a positive `b`
    have hdiv : int64Max.tdiv y < x ↔ int64Max < x * y := by
      rw [Int.tdiv_eq_ediv_of_nonneg (by unfold int64Max; norm_num),
        Int.ediv_lt_iff_lt_mul (by omega)]
    by_cases hover : int64Max < x * y
    · rw [if_pos ⟨by omega, by omega, hdiv.mpr hover⟩, decide_eq_true hover]
    · rw [if_neg (fun h => hover (hdiv.mp h.2.2)), decide_eq_false hover]
  · rw [Bool.true_or, ite_self]

/-- One conditional multiplication of the loop. -/
theorem ite_safeMul_wrap (c : Prop) [Decidable c] (hx : 1 ≤ x) (hy : 1 ≤ y)
    (hfits : overflow = false → x ≤ int64Max ∧ y ≤ int64Max) :
    (if c then safeMul (Java.wrap 64 x) (Java.wrap 64 y) overflow
      else (Java.wrap 64 x, overflow)) =
      (Java.wrap 64 (if c then x * y else x),
        overflow || decide (int64Max < if c then x * y else x)) := by
  by_cases hc : c
  · simp only [if_pos hc]
    exact safeMul_wrap hx hy hfits
  · simp only [if_neg hc]
    cases overflow
    · have hxM := (hfits rfl).1
      rw [Bool.false_or, decide_eq_false (by omega)]
    · rw [Bool.true_or]

/-- Flags of products that are at most the last one add nothing to the last one's. -/
theorem or_decide_absorb {p q r : Prop} [Decidable p] [Decidable q] [Decidable r]
    (hp : p → r) (hq : q → r) (b : Bool) :
    (b || decide p || decide q || decide r) = (b || decide r) := by
  by_cases hr : r
  · simp [hr]
  · have hnp : ¬p := fun h => hr (hp h)
    have hnq : ¬q := fun h => hr (hq h)
    simp [hr, hnp, hnq]

/-- The run of the `IntPow` loop from the wraps of `b` and `pow`: the wrap of `pow * b ^ e`,
and the flag set where it was set or that product exceeds `INT64_MAX`.  The induction follows
the halving of `e`. -/
theorem intPowLoop_spec (e : Nat) (b pow : Int) (overflow : Bool) (hb : 1 ≤ b) (hpow : 1 ≤ pow)
    (hfits : overflow = false → b ≤ int64Max ∧ pow ≤ int64Max) :
    intPowLoop (Java.wrap 64 b) e (Java.wrap 64 pow) overflow =
      (Java.wrap 64 (pow * b ^ e), overflow || decide (int64Max < pow * b ^ e)) := by
  induction e using Nat.strong_induction_on generalizing b pow overflow with
  | _ e ih =>
    rw [intPowLoop]
    by_cases he : e = 0
    · -- the loop has ended
      subst he
      rw [dif_pos rfl, pow_zero, Int.mul_one]
      cases overflow
      · rw [Bool.false_or, decide_eq_false (by have := (hfits rfl).2; omega)]
      · rw [Bool.true_or]
    rw [dif_neg he]
    dsimp only
    -- multiply for the low bit, then square while bits remain
    rw [ite_safeMul_wrap (e % 2 = 1) hpow hb (fun h => ⟨(hfits h).2, (hfits h).1⟩)]
    set product := if e % 2 = 1 then pow * b else pow with hproduct
    have hproduct1 : 1 ≤ product := by
      rw [hproduct]
      split
      · exact one_le_mul_of_one_le_of_one_le hpow hb
      · exact hpow
    rw [ite_safeMul_wrap (e / 2 ≠ 0) hb hb (fun h => by
      simp only [Bool.or_eq_false_iff, decide_eq_false_iff_not, Int.not_lt] at h
      exact ⟨(hfits h.1).1, (hfits h.1).1⟩)]
    set square := if e / 2 ≠ 0 then b * b else b with hsquare
    have hsquare1 : 1 ≤ square := by
      rw [hsquare]
      split
      · exact one_le_mul_of_one_le_of_one_le hb hb
      · exact hb
    rw [ih (e / 2) (by omega) square product _ hsquare1 hproduct1 (fun h => by
      simp only [Bool.or_eq_false_iff, decide_eq_false_iff_not, Int.not_lt] at h
      exact ⟨h.2, h.1.2⟩)]
    -- the two loops compute one power
    have hpower : product * square ^ (e / 2) = pow * b ^ e := by
      rw [hproduct, hsquare]
      rcases Nat.mod_two_eq_zero_or_one e with hbit | hbit
      · have hhalf : e / 2 ≠ 0 := by omega
        rw [if_neg (by omega), if_pos hhalf, ← pow_two, ← pow_mul]
        congr 2
        omega
      · rw [if_pos hbit]
        by_cases hhalf : e / 2 ≠ 0
        · rw [if_pos hhalf, ← pow_two, ← pow_mul, Int.mul_assoc, ← pow_succ']
          congr 2
          omega
        · -- `e = 1`
          have hhalf0 : e / 2 = 0 := by omega
          have he1 : e = 1 := by omega
          rw [if_neg hhalf, hhalf0, pow_zero, Int.mul_one, he1, pow_one]
    have hsquare_pos : 1 ≤ square ^ (e / 2) := one_le_pow₀ hsquare1
    rw [hpower]
    congr 1
    apply or_decide_absorb
    · -- the running product is at most the power
      intro hlt
      calc int64Max < product := hlt
        _ = product * 1 := (Int.mul_one product).symm
        _ ≤ product * square ^ (e / 2) := Int.mul_le_mul_of_nonneg_left hsquare_pos (by omega)
        _ = pow * b ^ e := hpower
    · -- so is the running square
      intro hlt
      have hle : square ≤ product * square ^ (e / 2) := by
        by_cases hhalf : e / 2 ≠ 0
        · calc square ≤ square ^ (e / 2) := le_self_pow₀ hsquare1 hhalf
            _ = 1 * square ^ (e / 2) := (Int.one_mul _).symm
            _ ≤ product * square ^ (e / 2) :=
              Int.mul_le_mul_of_nonneg_right hproduct1 (by omega)
        · -- `e = 1`: the square is `b` and the product `pow * b`
          have hhalf0 : e / 2 = 0 := by omega
          rw [hsquare, hproduct, if_neg hhalf, if_pos (by omega), hhalf0, pow_zero, Int.mul_one]
          calc b = 1 * b := (Int.one_mul b).symm
            _ ≤ pow * b := Int.mul_le_mul_of_nonneg_right hpow (by omega)
      rw [← hpower]
      omega

/-- `IntPow(b, e)` from a clear flag, for a positive `int64_t` base: the wrap of `b ^ e`, with
the flag set exactly when `b ^ e` exceeds `INT64_MAX`. -/
theorem intPow_spec {b : Int} (hb : 0 < b) (hbM : b ≤ int64Max) (e : Nat) :
    intPow b e false = (Java.wrap 64 (b ^ e), decide (int64Max < b ^ e)) := by
  have hone : (1 : Int) ≤ int64Max := by
    unfold int64Max
    norm_num
  have hloop := intPowLoop_spec e b 1 false (by omega) (le_refl 1) (fun _ => ⟨hbM, hone⟩)
  rw [wrap64_of_pos (by omega) hbM, wrap64_of_pos (le_refl 1) hone, Int.one_mul,
    Bool.false_or] at hloop
  exact hloop

end Power

/-! ### The arithmetic of induction-variable ranges -/

end InductionVarRange

end AndroidArt.Optimizing
