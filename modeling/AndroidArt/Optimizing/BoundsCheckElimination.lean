/-
Module: AndroidArt.Optimizing.BoundsCheckElimination
Purpose: The value bounds and value ranges of bounds-check elimination
  (compiler/optimizing/bounds_check_elimination.cc).
Trusted boundary: `MonotonicValueRange::Narrow` stores the `int64_t` value of
  `last_num_in_sequence` into an `int32_t`; the model keeps the `int64_t` value, which lies
  between the initial constant and `upper` and so is kept by the conversion.
Main exports: Instruction, ValueBound, ValueBound.add, ValueBound.narrowLowerBound
-/
import AndroidArt.Optimizing.JavaSemantics

namespace AndroidArt.Optimizing

namespace BoundsCheckElimination

/-- `std::numeric_limits<int32_t>::min()`. -/
def int32Min : Int := -2 ^ 31

/-- `std::numeric_limits<int32_t>::max()`. -/
def int32Max : Int := 2 ^ 31 - 1

/-- The instructions a bound names, as far as bounds-check elimination looks into them. -/
inductive Instruction where
  /-- `HIntConstant`. -/
  | intConstant (value : Int)
  /-- `HArrayLength` of an array. -/
  | arrayLength (array : Instruction)
  /-- `HNullCheck` of a reference. -/
  | nullCheck (input : Instruction)
  /-- `HNewArray` with its length input; as a bound it stands for that length. -/
  | newArray (length : Instruction)
  /-- Any other instruction: a parameter, a phi, a load, an arithmetic operation. -/
  | other (id : Nat)
deriving Repr, DecidableEq

namespace Instruction

/-- `HuntForDeclaration`: under array lengths and null checks to the array reference, and under
new arrays to their length. -/
def huntForDeclaration : Instruction → Instruction
  | arrayLength array => huntForDeclaration array
  | nullCheck input => huntForDeclaration input
  | newArray length => huntForDeclaration length
  | i => i

/-- The value of an instruction, where `env` values the declarations: an array reference's value
is its length. -/
def value (env : Instruction → Int) (i : Instruction) : Int :=
  match i.huntForDeclaration with
  | intConstant v => v
  | declaration => env declaration

end Instruction

/-! ### Value bounds -/

/-- A `ValueBound`: `instruction + constant`, or `constant` alone for a null instruction. -/
structure ValueBound where
  instruction : Option Instruction
  constant : Int
deriving Repr, DecidableEq

namespace ValueBound

/-- `WouldAddOverflowOrUnderflow(left, right)`. -/
def wouldAddOverflowOrUnderflow (left right : Int) : Bool :=
  if right = 0 then false
  else if right > 0 ∧ left ≤ int32Max - right then false
  else if right < 0 ∧ left ≥ int32Min - right then false
  else true

/-- `ValueBound(instruction, constant)`: a constant instruction is folded into the constant when
their sum is an `int32_t`. -/
def create (instruction : Option Instruction) (constant : Int) : ValueBound :=
  match instruction with
  | some (.intConstant instrConst) =>
    if wouldAddOverflowOrUnderflow instrConst constant then ⟨instruction, constant⟩
    else ⟨none, instrConst + constant⟩
  | _ => ⟨instruction, constant⟩

/-- `IsRelatedToArrayLength`: the instruction is an array length or a new array. -/
def isRelatedToArrayLength (b : ValueBound) : Bool :=
  match b.instruction with
  | some (.arrayLength _) | some (.newArray _) => true
  | _ => false

/-- `IsConstant`. -/
def isConstant (b : ValueBound) : Bool := b.instruction.isNone

/-- `ValueBound::Min()`. -/
def min : ValueBound := create none int32Min

/-- `ValueBound::Max()`. -/
def max : ValueBound := create none int32Max

/-- `ValueBound::Equal(instruction1, instruction2)`: the same instruction, or two with the same
declaration. -/
def equal (instruction1 instruction2 : Option Instruction) : Bool :=
  if instruction1 = instruction2 then true
  else
    match instruction1, instruction2 with
    | some i1, some i2 => i1.huntForDeclaration = i2.huntForDeclaration
    | _, _ => false

/-- `GreaterThanOrEqualTo(bound)`: certainly `this >= bound`. -/
def greaterThanOrEqualTo (b bound : ValueBound) : Bool :=
  if equal b.instruction bound.instruction then decide (b.constant ≥ bound.constant) else false

/-- `LessThanOrEqualTo(bound)`: certainly `this <= bound`. -/
def lessThanOrEqualTo (b bound : ValueBound) : Bool :=
  if equal b.instruction bound.instruction then decide (b.constant ≤ bound.constant) else false

/-- `GreaterThan(bound)`: certainly `this > bound`. -/
def greaterThan (b bound : ValueBound) : Bool :=
  if equal b.instruction bound.instruction then decide (b.constant > bound.constant) else false

/-- `LessThan(bound)`: certainly `this < bound`. -/
def lessThan (b bound : ValueBound) : Bool :=
  if equal b.instruction bound.instruction then decide (b.constant < bound.constant) else false

/-- `NarrowLowerBound(bound1, bound2)`: the greater of two comparable bounds, else a constant
one. -/
def narrowLowerBound (bound1 bound2 : ValueBound) : ValueBound :=
  if bound1.greaterThanOrEqualTo bound2 then bound1
  else if bound2.greaterThanOrEqualTo bound1 then bound2
  else if bound1.isConstant then bound1 else bound2

/-- `NarrowUpperBound(bound1, bound2)`: the lesser of two comparable bounds, else one related to
an array length. -/
def narrowUpperBound (bound1 bound2 : ValueBound) : ValueBound :=
  if bound1.lessThanOrEqualTo bound2 then bound1
  else if bound2.lessThanOrEqualTo bound1 then bound2
  else if bound1.isRelatedToArrayLength then bound1 else bound2

/-- `Add(c, &overflow, &underflow)`: the bound `c` higher, with the two flags.  Only a constant,
or an array length plus a constant that stays non-positive, is moved up; only a constant or an
array length is moved down. -/
def add (b : ValueBound) (c : Int) : ValueBound × Bool × Bool :=
  if c = 0 then (b, false, false)
  else if c > 0 then
    if b.constant > int32Max - c then (max, true, false)
    else
      let newConstant := b.constant + c
      if b.isConstant ∨ (b.isRelatedToArrayLength ∧ newConstant ≤ 0) then
        (create b.instruction newConstant, false, false)
      -- be conservative
      else (max, true, false)
  else
    if b.constant < int32Min - c then (min, false, true)
    else
      let newConstant := b.constant + c
      if b.isConstant ∨ b.isRelatedToArrayLength then
        (create b.instruction newConstant, false, false)
      -- be conservative
      else (min, false, true)

/-- The value of a bound: its instruction's value plus its constant. -/
def value (env : Instruction → Int) (b : ValueBound) : Int :=
  (b.instruction.map (Instruction.value env)).getD 0 + b.constant

/-- The valuations bounds-check elimination assumes of a bound: an array length, or the length
of a new array, lies in `[0, 2^31 - 1]`. -/
def LengthInRange (env : Instruction → Int) (b : ValueBound) : Prop :=
  b.isRelatedToArrayLength = true →
    ∀ i, b.instruction = some i → 0 ≤ i.value env ∧ i.value env ≤ int32Max

end ValueBound

/-! ### Value ranges -/

/-- A `ValueRange` of two inclusive bounds, or a `MonotonicValueRange`: the range of a loop-header
phi that starts at `initial` and moves by `increment` on each back edge, with `bound` a bound of
`initial` on the side it moves away from. -/
inductive ValueRange where
  | range (lower upper : ValueBound)
  | monotonic (initial : Instruction) (increment : Int) (bound : ValueBound)
deriving Repr, DecidableEq

namespace ValueRange

/-- `GetLower()`: a monotonic range is given the full range, in case it is used as a plain
one. -/
def lower : ValueRange → ValueBound
  | range lower _ => lower
  | monotonic .. => ValueBound.min

/-- `GetUpper()`. -/
def upper : ValueRange → ValueBound
  | range _ upper => upper
  | monotonic .. => ValueBound.max

/-- `IsMonotonicValueRange()`. -/
def isMonotonicValueRange : ValueRange → Bool
  | range .. => false
  | monotonic .. => true

/-- `MonotonicValueRange::Narrow(range)`: a plain range where the comparison in the loop header
keeps the sequence from wrapping around, else the monotonic range itself. -/
def narrowMonotonic (initial : Instruction) (increment : Int) (bound : ValueBound)
    (other : ValueRange) : ValueRange :=
  if increment > 0 then
    -- monotonically increasing
    let lower := ValueBound.narrowLowerBound bound other.lower
    if !lower.isConstant ∨ lower.constant = int32Min then monotonic initial increment bound
    else
      -- the largest value of the upper bound, with array lengths taken up to `int32Max`
      let maxArrayLen := int32Max
      let upperBound := other.upper
      let upper :=
        if upperBound.isConstant then upperBound.constant
        else if upperBound.isRelatedToArrayLength ∧ upperBound.constant ≤ 0 then
          maxArrayLen + upperBound.constant
        else int32Max
      -- the last value of the sequence that is at most `upper`, computed in `int64_t`
      let lastNumInSequence :=
        match initial with
        | .intConstant initialConstant =>
          if upper ≤ initialConstant then upper
          else initialConstant + (upper - initialConstant).tdiv increment * increment
        | _ => upper
      if lastNumInSequence ≤ int32Max - increment then range lower other.upper
      else monotonic initial increment bound
  else
    -- monotonically decreasing
    let upper := ValueBound.narrowUpperBound bound other.upper
    if (!upper.isConstant ∨ upper.constant = int32Max) ∧ !upper.isRelatedToArrayLength then
      monotonic initial increment bound
    else if other.lower.isConstant ∧ other.lower.constant ≥ int32Min - increment then
      range other.lower upper
    else monotonic initial increment bound

/-- `Narrow(range)`, the virtual call: the intersection of two plain ranges, bound by bound; a
monotonic range narrows itself.  A null `range` is `none`. -/
def narrow (r : ValueRange) : Option ValueRange → ValueRange
  | none => r
  | some other =>
    match r with
    | range lower upper =>
      if other.isMonotonicValueRange then r
      else range (ValueBound.narrowLowerBound lower other.lower)
        (ValueBound.narrowUpperBound upper other.upper)
    | monotonic initial increment bound => narrowMonotonic initial increment bound other

/-- `ValueRange::Add(constant)`: the range shifted by `constant`, or null.  The flags of the
lower bound's `Add` are overwritten by those of the upper bound's before the overflow test. -/
def add (r : ValueRange) (constant : Int) : Option ValueRange :=
  let (lower, _, underflow) := r.lower.add constant
  if underflow then none
  else
    let (upper, overflow, _) := r.upper.add constant
    if overflow then none else some (range lower upper)

/-- The `int32_t` values between the range's bounds. -/
def Contains (env : Instruction → Int) (r : ValueRange) (x : Int) : Prop :=
  int32Min ≤ x ∧ x ≤ int32Max ∧ r.lower.value env ≤ x ∧ x ≤ r.upper.value env

instance (env : Instruction → Int) (r : ValueRange) (x : Int) : Decidable (r.Contains env x) :=
  inferInstanceAs (Decidable (_ ∧ _ ∧ _ ∧ _))

/-- The range `[p, 100]` of a value at least an instruction `p` and at most 100, shifted up by
one.  The lower bound `p + 1` is given up as an overflow, to `Max()`, and `Add` does not test
that flag: it returns `[Max(), 101]`.  With `p = 0`, the value 50 lies in the range and 51 does
not lie in the shifted one. -/
theorem valueRange_add_ignores_lower_overflow :
    (range ⟨some (.other 0), 0⟩ ⟨none, 100⟩).add 1 =
        some (range ValueBound.max ⟨none, 101⟩) ∧
      (range ⟨some (.other 0), 0⟩ ⟨none, 100⟩).Contains (fun _ => 0) 50 ∧
      ¬(range ValueBound.max ⟨none, 101⟩).Contains (fun _ => 0) (50 + 1) := by
  refine ⟨by decide, by decide, by decide⟩

end ValueRange

/-! ### Loop-header phis -/

/-- The values of a loop-header phi `phi = initial` on entry and `phi = phi + increment` on the
back edge, an `int32_t` addition that wraps around. -/
def phiValue (initial increment : Int) : Nat → Int
  | 0 => initial
  | n + 1 => Java.wrap 32 (phiValue initial increment n + increment)

/-! ### What the bounds and ranges mean -/

section Soundness

variable {env : Instruction → Int}

namespace ValueBound

/-- `ValueBound(instruction, constant)` denotes `instruction + constant`, folded or not. -/
@[simp] theorem value_create (instruction : Option Instruction) (constant : Int) :
    (create instruction constant).value env =
      (instruction.map (Instruction.value env)).getD 0 + constant := by
  unfold create
  split
  · split
    · rfl
    · simp [value, Instruction.value, Instruction.huntForDeclaration]
  · rfl

/-- Instructions that `Equal` finds equal have one value. -/
theorem equal_value (env : Instruction → Int) {i1 i2 : Option Instruction}
    (h : equal i1 i2 = true) :
    (i1.map (Instruction.value env)).getD 0 = (i2.map (Instruction.value env)).getD 0 := by
  unfold equal at h
  split at h
  · rename_i heq
    rw [heq]
  · split at h
    · rename_i a b _
      have hhunt : a.huntForDeclaration = b.huntForDeclaration := of_decide_eq_true h
      simp [Instruction.value, hhunt]
    · cases h

/-- Two bounds on one instruction differ by their constants. -/
theorem value_sub_value (env : Instruction → Int) {b bound : ValueBound}
    (h : equal b.instruction bound.instruction = true) :
    b.value env - bound.value env = b.constant - bound.constant := by
  have hsame := equal_value env h
  unfold value
  omega

/-- The instruction part of a constant bound is nothing. -/
theorem instructionValue_of_isConstant (env : Instruction → Int) {b : ValueBound}
    (h : b.isConstant = true) :
    (b.instruction.map (Instruction.value env)).getD 0 = 0 := by
  simp only [isConstant, Option.isNone_iff_eq_none] at h
  simp [h]

/-- The instruction part of a bound related to an array length is a length. -/
theorem instructionValue_of_isRelatedToArrayLength {b : ValueBound} (hlength : b.LengthInRange env)
    (h : b.isRelatedToArrayLength = true) :
    0 ≤ (b.instruction.map (Instruction.value env)).getD 0 ∧
      (b.instruction.map (Instruction.value env)).getD 0 ≤ int32Max := by
  cases hi : b.instruction with
  | none => simp [isRelatedToArrayLength, hi] at h
  | some i => simpa using hlength h i hi

/-- Moving a bound's constant by `c` moves its value by `c`. -/
theorem value_create_add (b : ValueBound) (c : Int) :
    (create b.instruction (b.constant + c)).value env = b.value env + c := by
  rw [value_create, value]
  omega

/-- `Add(c)` that reports neither overflow nor underflow moves the bound's value by exactly `c`,
and the result is an `int32_t`. -/
theorem value_add {b b' : ValueBound} {c : Int} (hlength : b.LengthInRange env)
    (hconstant : int32Min ≤ b.constant ∧ b.constant ≤ int32Max)
    (hvalue : int32Min ≤ b.value env ∧ b.value env ≤ int32Max)
    (h : b.add c = (b', false, false)) :
    b'.value env = b.value env + c ∧ int32Min ≤ b'.value env ∧ b'.value env ≤ int32Max := by
  unfold add at h
  split at h
  · -- `c = 0`: the bound itself
    rename_i hzero
    cases h
    subst hzero
    simpa using hvalue
  · split at h
    · split at h
      · cases h
      · dsimp only at h
        split at h
        · -- moved up: a constant, or an array length plus a constant that stays non-positive
          rename_i hpos hover hmove
          cases h
          rw [value_create_add]
          refine ⟨rfl, ?_⟩
          rcases hmove with hconst | ⟨hrel, hnonpos⟩
          · have h0 := instructionValue_of_isConstant env hconst
            unfold value at hvalue ⊢
            omega
          · have hlen := instructionValue_of_isRelatedToArrayLength hlength hrel
            unfold value at hvalue ⊢
            omega
        · cases h
    · split at h
      · cases h
      · dsimp only at h
        split at h
        · -- moved down: a constant or an array length
          rename_i hpos hunder hmove
          cases h
          rw [value_create_add]
          refine ⟨rfl, ?_⟩
          rcases hmove with hconst | hrel
          · have h0 := instructionValue_of_isConstant env hconst
            unfold value at hvalue ⊢
            omega
          · have hlen := instructionValue_of_isRelatedToArrayLength hlength hrel
            unfold value at hvalue ⊢
            omega
        · cases h

/-- `NarrowLowerBound` returns one of its bounds. -/
theorem narrowLowerBound_eq_or (bound1 bound2 : ValueBound) :
    narrowLowerBound bound1 bound2 = bound1 ∨ narrowLowerBound bound1 bound2 = bound2 := by
  unfold narrowLowerBound
  split_ifs <;> simp

/-- `NarrowUpperBound` returns one of its bounds. -/
theorem narrowUpperBound_eq_or (bound1 bound2 : ValueBound) :
    narrowUpperBound bound1 bound2 = bound1 ∨ narrowUpperBound bound1 bound2 = bound2 := by
  unfold narrowUpperBound
  split_ifs <;> simp

/-- A value above two lower bounds is above the one `NarrowLowerBound` keeps. -/
theorem value_narrowLowerBound_le {bound1 bound2 : ValueBound} {x : Int}
    (h1 : bound1.value env ≤ x) (h2 : bound2.value env ≤ x) :
    (narrowLowerBound bound1 bound2).value env ≤ x := by
  rcases narrowLowerBound_eq_or bound1 bound2 with h | h <;> rw [h] <;> assumption

/-- A value below two upper bounds is below the one `NarrowUpperBound` keeps. -/
theorem le_value_narrowUpperBound {bound1 bound2 : ValueBound} {x : Int}
    (h1 : x ≤ bound1.value env) (h2 : x ≤ bound2.value env) :
    x ≤ (narrowUpperBound bound1 bound2).value env := by
  rcases narrowUpperBound_eq_or bound1 bound2 with h | h <;> rw [h] <;> assumption

end ValueBound

namespace ValueRange

/-- `Narrow` of two plain ranges keeps every value of both. -/
theorem contains_narrow {lower upper : ValueBound} {other : ValueRange} {x : Int}
    (hother : other.isMonotonicValueRange = false) (h1 : (range lower upper).Contains env x)
    (h2 : other.Contains env x) : ((range lower upper).narrow (some other)).Contains env x := by
  obtain ⟨hmin, hmax, hlower, hupper⟩ := h1
  obtain ⟨-, -, hlower', hupper'⟩ := h2
  simp only [narrow, hother, Bool.false_eq_true, if_false]
  exact ⟨hmin, hmax, ValueBound.value_narrowLowerBound_le hlower hlower',
    ValueBound.le_value_narrowUpperBound hupper hupper'⟩

end ValueRange

/-! ### Narrowing a monotonic range

`MonotonicValueRange::Narrow` turns the range of a loop-header phi into a plain range when the
test in the loop header stops the sequence before its next step could wrap around.  Each step
that starts from a value passing the test stays in `int32_t`, so the values that pass are
`initial + k * increment` and keep to the side of `initial` that `bound` bounds. -/

/-- An `int32_t` value survives the wrap-around. -/
theorem wrap32_of_range {z : Int} (hlo : int32Min ≤ z) (hhi : z ≤ int32Max) :
    Java.wrap 32 z = z := by
  unfold int32Min int32Max at *
  have hhi' : z < 2 ^ 31 := by omega
  exact Java.wrap_of_range (by decide) hlo hhi'

/-- The run of the phi: as long as each step from `initial + k * increment` stays in `int32_t`,
the phi has moved `n` increments from `initial`. -/
theorem phiValue_eq_add_mul {initial increment : Int} {n : Nat}
    (hstep : ∀ k < n, phiValue initial increment k = initial + k * increment →
      int32Min ≤ initial + k * increment + increment ∧
        initial + k * increment + increment ≤ int32Max) :
    phiValue initial increment n = initial + n * increment := by
  induction n with
  | zero => simp [phiValue]
  | succ n ih =>
    have hn : phiValue initial increment n = initial + n * increment :=
      ih fun k hk => hstep k (by omega)
    obtain ⟨hlo, hhi⟩ := hstep n (by omega) hn
    rw [phiValue, hn, wrap32_of_range hlo hhi]
    push_cast
    rw [Int.add_mul, Int.one_mul, Int.add_assoc]

@[simp] theorem Instruction.value_intConstant (v : Int) :
    (Instruction.intConstant v).value env = v :=
  rfl

/-- An `int32_t` value at most a bound is at most the largest value `Narrow` assumes of the
bound, with array lengths up to `int32Max`. -/
theorem le_maxUpper {b : ValueBound} {x : Int} (hlength : b.LengthInRange env)
    (hx : x ≤ b.value env) (hmax : x ≤ int32Max) :
    x ≤ if b.isConstant then b.constant
      else if b.isRelatedToArrayLength ∧ b.constant ≤ 0 then int32Max + b.constant
      else int32Max := by
  unfold ValueBound.value at hx
  split
  · rename_i hconst
    have h0 := ValueBound.instructionValue_of_isConstant env hconst
    omega
  · split
    · rename_i hrel
      have hlen := ValueBound.instructionValue_of_isRelatedToArrayLength hlength hrel.1
      omega
    · exact hmax

/-- A value `initial + k * increment` at most `upper` is at most the last such value, the one the
truncating division finds. -/
theorem le_lastNumInSequence {initial upper increment : Int} {k : Nat} (hinc : 0 < increment)
    (hlt : initial < upper) (hk : initial + k * increment ≤ upper) :
    initial + k * increment ≤ initial + (upper - initial).tdiv increment * increment := by
  have hq : (k : Int) ≤ (upper - initial).tdiv increment := by
    rw [Int.tdiv_eq_ediv_of_nonneg (by omega)]
    exact (Int.le_ediv_iff_mul_le hinc).mpr (by omega)
  have hmul := Int.mul_le_mul_of_nonneg_right hq hinc.le
  omega

namespace ValueRange

variable {initial : Instruction} {increment : Int} {bound : ValueBound} {other : ValueRange}
  {lower upper : ValueBound}

@[simp] theorem lower_range (lower upper : ValueBound) : (range lower upper).lower = lower := rfl

@[simp] theorem upper_range (lower upper : ValueBound) : (range lower upper).upper = upper := rfl

/-- `Narrow` gives up on one test by returning the monotonic range itself. -/
theorem eq_range_of_ite_monotonic {p : Prop} [Decidable p] {r : ValueRange}
    (h : (if p then monotonic initial increment bound else r) = range lower upper) :
    ¬p ∧ r = range lower upper := by
  split at h
  · cases h
  · rename_i hp
    exact ⟨hp, h⟩

theorem eq_range_of_ite_range {p : Prop} [Decidable p] {r : ValueRange}
    (h : (if p then r else monotonic initial increment bound) = range lower upper) :
    p ∧ r = range lower upper := by
  split at h
  · rename_i hp
    exact ⟨hp, h⟩
  · cases h

/-- Increasing: the range `[NarrowLowerBound(bound, lower), upper]` holds every value the phi
takes while passing the test. -/
theorem contains_phiValue_of_narrowMonotonic_pos (hinc : 0 < increment)
    (hbound : bound.value env ≤ initial.value env) (hlength : other.upper.LengthInRange env)
    (hnarrow : narrowMonotonic initial increment bound other = range lower upper) {n : Nat}
    (hpassed : ∀ k ≤ n, other.Contains env (phiValue (initial.value env) increment k)) :
    (range lower upper).Contains env (phiValue (initial.value env) increment n) := by
  unfold narrowMonotonic at hnarrow
  rw [if_pos hinc] at hnarrow
  dsimp only at hnarrow
  obtain ⟨-, hnarrow⟩ := eq_range_of_ite_monotonic hnarrow
  obtain ⟨hlast, hnarrow⟩ := eq_range_of_ite_range hnarrow
  cases hnarrow
  generalize hU : (if other.upper.isConstant then other.upper.constant
      else if other.upper.isRelatedToArrayLength ∧ other.upper.constant ≤ 0 then
        int32Max + other.upper.constant
      else int32Max) = U at hlast
  -- a step from a value that passes the test does not overflow
  have hseq : phiValue (initial.value env) increment n = initial.value env + n * increment := by
    apply phiValue_eq_add_mul
    intro k hk hk_eq
    obtain ⟨hmin, hmax, -, hupper⟩ := hpassed k (by omega)
    rw [hk_eq] at hmin hmax hupper
    have hkU := hU ▸ le_maxUpper hlength hupper hmax
    refine ⟨by omega, ?_⟩
    split at hlast
    · -- a constant initial value: the last value of the sequence that is at most `U`
      rw [Instruction.value_intConstant] at hkU ⊢
      split at hlast
      · omega
      · have hle := le_lastNumInSequence hinc (by omega) hkU
        omega
    · omega
  obtain ⟨hmin, hmax, hlower, hupper⟩ := hpassed n le_rfl
  refine ⟨hmin, hmax, ?_, hupper⟩
  rw [lower_range]
  rcases ValueBound.narrowLowerBound_eq_or bound other.lower with h | h
  · have hmul : 0 ≤ (n : Int) * increment := Int.mul_nonneg (Int.natCast_nonneg n) hinc.le
    rw [h, hseq]
    omega
  · rw [h]
    exact hlower

/-- Decreasing: the range `[lower, NarrowUpperBound(bound, upper)]` holds every value the phi
takes while passing the test. -/
theorem contains_phiValue_of_narrowMonotonic_nonpos (hinc : increment ≤ 0)
    (hbound : initial.value env ≤ bound.value env)
    (hnarrow : narrowMonotonic initial increment bound other = range lower upper) {n : Nat}
    (hpassed : ∀ k ≤ n, other.Contains env (phiValue (initial.value env) increment k)) :
    (range lower upper).Contains env (phiValue (initial.value env) increment n) := by
  unfold narrowMonotonic at hnarrow
  rw [if_neg (by omega)] at hnarrow
  dsimp only at hnarrow
  obtain ⟨-, hnarrow⟩ := eq_range_of_ite_monotonic hnarrow
  obtain ⟨hconstant, hnarrow⟩ := eq_range_of_ite_range hnarrow
  cases hnarrow
  -- a step from a value that passes the test does not underflow
  have hseq : phiValue (initial.value env) increment n = initial.value env + n * increment := by
    apply phiValue_eq_add_mul
    intro k hk hk_eq
    obtain ⟨hmin, hmax, hlower, -⟩ := hpassed k (by omega)
    have h0 := ValueBound.instructionValue_of_isConstant env hconstant.1
    unfold ValueBound.value at hlower
    rw [hk_eq] at hmin hmax hlower
    constructor <;> omega
  obtain ⟨hmin, hmax, hlower, hupper⟩ := hpassed n le_rfl
  refine ⟨hmin, hmax, hlower, ?_⟩
  rw [upper_range]
  rcases ValueBound.narrowUpperBound_eq_or bound other.upper with h | h
  · have hmul : (n : Int) * increment ≤ 0 :=
      Int.mul_nonpos_of_nonneg_of_nonpos (Int.natCast_nonneg n) hinc
    rw [h, hseq]
    omega
  · rw [h]
    exact hupper

/-- `Narrow` of a loop-header phi's monotonic range by the range its test admits: when it
returns a plain range, every value the phi takes while it has passed the test so far lies in
that range.  `bound` bounds the initial value from below for an increasing phi and from above
for a decreasing one. -/
theorem narrowMonotonic_contains_phiValue
    (hup : 0 < increment → bound.value env ≤ initial.value env)
    (hdown : increment ≤ 0 → initial.value env ≤ bound.value env)
    (hlength : other.upper.LengthInRange env)
    (hnarrow : (monotonic initial increment bound).narrow (some other) = range lower upper)
    (n : Nat)
    (hpassed : ∀ k ≤ n, other.Contains env (phiValue (initial.value env) increment k)) :
    (range lower upper).Contains env (phiValue (initial.value env) increment n) := by
  rcases lt_or_ge 0 increment with hinc | hinc
  · exact contains_phiValue_of_narrowMonotonic_pos hinc (hup hinc) hlength hnarrow hpassed
  · exact contains_phiValue_of_narrowMonotonic_nonpos hinc (hdown hinc) hnarrow hpassed

/-- `for (int i = 0; i <= a.length - 1; i++)` over an array of ten elements: the phi's range
`[0, +∞)` narrows to `[0, a.length - 1]`, which holds the phi after three iterations. -/
theorem narrowMonotonic_contains_phiValue_countUp :
    (monotonic (.intConstant 0) 1 ⟨none, 0⟩).narrow
        (some (range ⟨none, 0⟩ ⟨some (.arrayLength (.other 0)), -1⟩)) =
      range ⟨none, 0⟩ ⟨some (.arrayLength (.other 0)), -1⟩ ∧
    (range ⟨none, 0⟩ ⟨some (.arrayLength (.other 0)), -1⟩).Contains (fun _ => 10)
      (phiValue ((Instruction.intConstant 0).value (fun _ => 10)) 1 3) := by
  refine ⟨?hnarrow, narrowMonotonic_contains_phiValue ?_ ?_ ?_ ?hnarrow 3 ?_⟩
  case hnarrow => decide
  · intro _
    decide
  · intro hdown
    exact absurd hdown (by decide)
  · -- the length of the array is ten
    rintro - i ⟨⟩
    decide
  · decide

end ValueRange

end Soundness

end BoundsCheckElimination

end AndroidArt.Optimizing
