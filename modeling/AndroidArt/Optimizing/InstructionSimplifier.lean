/-
Module: AndroidArt.Optimizing.InstructionSimplifier
Purpose: The rewrites `InstructionSimplifierVisitor`
  (`compiler/optimizing/instruction_simplifier.cc`) makes of shifts and rotations, each as a
  function from the instruction to the instruction that replaces it: `VisitShift` (a constant
  distance that masks to zero or exceeds the width, and an `And`/`Or`/`Xor`/`Add`/`Sub` with a
  constant or a narrowing conversion on the distance that leaves the masked bits alone) and
  `TryReplaceWithRotate` with its constant, `Sub` and `Neg` patterns.
Trusted boundary: as in `AndroidArt.Optimizing.Expression`; a rewrite is modelled by the
  instruction it puts in place of the visited one, and removing inputs left without uses is not
  modelled.
Main exports: visitShift, visitShift_eval, tryReplaceWithRotate, tryReplaceWithRotate_eval
-/
import AndroidArt.Optimizing.Expression
import AndroidArt.Lib.Rotate
import AndroidArt.Lib.BitField

namespace AndroidArt.Optimizing

open AndroidArt.Lib

/-- `kMaxIntShiftDistance`: the mask Java applies to the distance of an `int` shift. -/
def kMaxIntShiftDistance : BitVec 64 := 0x1f

/-- `kMaxLongShiftDistance`: the mask of a `long` shift. -/
def kMaxLongShiftDistance : BitVec 64 := 0x3f

namespace HExpr

/-- `HInstruction::IsSub`. -/
def isSub : HExpr → Bool
  | binary .sub .. => true
  | _ => false

/-- `HInstruction::IsNeg`. -/
def isNeg : HExpr → Bool
  | neg .. => true
  | _ => false

end HExpr

namespace InstructionSimplifier

open HExpr

/-! ### The rewrites -/

/-- `HBinaryOperation::GetConstantRight`: the right input if it is a constant, else the left
one if the operation is commutative and it is a constant. -/
def getConstantRight (op : BinaryOp) (left right : HExpr) : Option HExpr :=
  if right.isConstant then some right
  else if op.isCommutative && left.isConstant then some left
  else none

/-- `HBinaryOperation::GetLeastConstantLeft`: the input that `GetConstantRight` did not pick. -/
def getLeastConstantLeft (op : BinaryOp) (left right : HExpr) : Option HExpr :=
  match getConstantRight op left right with
  | none => none
  | some c => if c = left then some right else some left

/-- `InstructionSimplifierVisitor::VisitShift` on the shift `op` of type `type` of `value` by
`shiftAmount`: the instruction that replaces the shift, `none` where it stays. -/
def visitShift (op : BinaryOp) (type : DataType) (value shiftAmount : HExpr) : Option HExpr :=
  let implicitMask :=
    if value.type = .int64 then kMaxLongShiftDistance else kMaxIntShiftDistance
  match shiftAmount.int64FromConstant with
  | some cst =>
    let maskedCst := cst &&& implicitMask
    if maskedCst = 0 then
      -- `SHL dst, value, 0` is `value`
      some value
    else if maskedCst ≠ cst then
      -- a distance beyond the width is replaced by `GetIntConstant(masked_cst)`
      some (.binary op type value (.intConstant (maskedCst.setWidth 32)))
    else none
  | none =>
    match shiftAmount with
    | .binary binOp _ l r =>
      if binOp = .and ∨ binOp = .or ∨ binOp = .xor ∨ binOp = .add ∨ binOp = .sub then
        let requiredResult := if binOp = .and then implicitMask else 0
        match (getConstantRight binOp l r).bind int64FromConstant,
            getLeastConstantLeft binOp l r with
        | some mask, some other =>
          if mask &&& implicitMask = requiredResult then some (.binary op type value other)
          else none
        | _, _ => none
      else none
    | .typeConversion _ source =>
      -- non-integral and 64-bit sources need the explicit conversion
      if source.type.isIntegralType ∧ ¬source.type.is64BitType then
        some (.binary op type value source)
      else none
    | _ => none

/-- `ReplaceRotateWithRor`: an `HRor` of the `HUShr`'s type, value and distance. -/
def replaceRotateWithRor (ushrType : DataType) (x ushrDistance : HExpr) : HExpr :=
  .binary .ror ushrType x ushrDistance

/-- `IsSubRegBitsMinusOther`: `sub` is `c - other` with `c` a multiple of `regBits`. -/
def isSubRegBitsMinusOther (sub : HExpr) (regBits : Nat) (other : HExpr) : Bool :=
  match sub with
  | .binary .sub _ l r =>
    r == other &&
      match l.int64FromConstant with
      | some c => c &&& BitVec.ofNat 64 (regBits - 1) == 0
      | none => false
  | _ => false

/-- `TryReplaceWithRotateConstantPattern`: both distances are constants whose sum is a multiple
of the width (`kBitsPerByte` bits a byte). -/
def tryReplaceWithRotateConstantPattern (ushrType : DataType) (x ushrDistance shlDistance : HExpr) :
    Option HExpr :=
  let regBits := ushrType.size * 8
  match ushrDistance.int64FromConstant, shlDistance.int64FromConstant with
  | some rdist, some ldist =>
    if (ldist + rdist) &&& BitVec.ofNat 64 (regBits - 1) = 0 then
      some (replaceRotateWithRor ushrType x ushrDistance)
    else none
  | _, _ => none

/-- `TryReplaceWithRotateRegisterNegPattern`: one distance is the negation of the other.  (The
source returns `false` even after it replaced the instruction, so its caller goes on to look at
the removed one; what replaces it is the same.) -/
def tryReplaceWithRotateRegisterNegPattern (ushrType : DataType) (x ushrDistance shlDistance : HExpr) :
    Option HExpr :=
  -- `neg_is_left`: the negation is the distance of the `HShl`
  match shlDistance, ushrDistance with
  | .neg _ negated, _ =>
    if negated = ushrDistance then some (replaceRotateWithRor ushrType x ushrDistance) else none
  | _, .neg _ negated =>
    if negated = shlDistance then some (replaceRotateWithRor ushrType x ushrDistance) else none
  | _, _ => none

/-- `TryReplaceWithRotateRegisterSubPattern`: one distance is `#bits - d` for the other `d`. -/
def tryReplaceWithRotateRegisterSubPattern (ushrType : DataType) (x ushrDistance shlDistance : HExpr) :
    Option HExpr :=
  let regBits := ushrType.size * 8
  if (shlDistance.isSub && isSubRegBitsMinusOther shlDistance regBits ushrDistance) ||
      (ushrDistance.isSub && isSubRegBitsMinusOther ushrDistance regBits shlDistance) then
    some (replaceRotateWithRor ushrType x ushrDistance)
  else none

/-- `TryReplaceWithRotate` on the inputs of an `HAdd`, `HXor` or `HOr`: an `HUShr` and an
`HShl` (in either order) of one value and type, with distances of one of the three patterns. -/
def tryReplaceWithRotate (left right : HExpr) : Option HExpr :=
  match left, right with
  | .binary .ushr ushrType x ushrDistance, .binary .shl shlType x' shlDistance
  | .binary .shl shlType x' shlDistance, .binary .ushr ushrType x ushrDistance =>
    if ushrType = shlType ∧ x = x' then
      if ushrDistance.isConstant ∧ shlDistance.isConstant then
        tryReplaceWithRotateConstantPattern ushrType x ushrDistance shlDistance
      else if ushrDistance.isSub ∨ shlDistance.isSub then
        tryReplaceWithRotateRegisterSubPattern ushrType x ushrDistance shlDistance
      else if ushrDistance.isNeg ∨ shlDistance.isNeg then
        tryReplaceWithRotateRegisterNegPattern ushrType x ushrDistance shlDistance
      else none
    else none
  | _, _ => none

/-! ### Distances

Java reads a shift distance modulo the width, `32` or `64`, which divides the modulus of `int`
arithmetic; so a distance may be replaced by any value of the same residue. -/

section Distances

variable {t : DataType}

theorem bitWidth_eq (ht : t.isIntOrLongType) : Java.bitWidth t = 32 ∨ Java.bitWidth t = 64 := by
  cases t <;> simp_all [DataType.isIntOrLongType, Java.bitWidth, DataType.size]

theorem bitWidth_pos (ht : t.isIntOrLongType) : 0 < Java.bitWidth t := by
  rcases bitWidth_eq ht with h | h <;> omega

/-- The width divides `2^n` from `n = 6` on: the moduli of `byte` arithmetic and up. -/
theorem bitWidth_dvd (ht : t.isIntOrLongType) {n : Nat} (hn : 6 ≤ n) :
    (Java.bitWidth t : Int) ∣ 2 ^ n := by
  have hsplit : (2 : Int) ^ n = 2 ^ 6 * 2 ^ (n - 6) := by
    rw [← pow_add]
    congr 1
    omega
  rw [hsplit]
  rcases bitWidth_eq ht with h | h <;> rw [h]
  · exact Dvd.dvd.mul_right ⟨2, by decide⟩ _
  · exact Dvd.dvd.mul_right ⟨1, by decide⟩ _

/-- The low bits a mask of `width - 1` keeps are the residue modulo the width. -/
theorem toNat_and_mask (ht : t.isIntOrLongType) (y : BitVec 64) :
    (y &&& BitVec.ofNat 64 (Java.bitWidth t - 1)).toNat = y.toNat % Java.bitWidth t := by
  rw [BitVec.toNat_and, BitVec.toNat_ofNat]
  rcases bitWidth_eq ht with h | h <;> rw [h]
  · exact Nat.and_two_pow_sub_one_eq_mod y.toNat 5
  · exact Nat.and_two_pow_sub_one_eq_mod y.toNat 6

/-- `implicit_mask` of a shift of a value of kind `t` is `width - 1`. -/
theorem implicitMask_eq {value : HExpr} (hwt : value.WellTyped) (hk : value.type.kind = t) :
    (if value.type = .int64 then kMaxLongShiftDistance else kMaxIntShiftDistance) =
      BitVec.ofNat 64 (Java.bitWidth t - 1) := by
  have hs := hwt.scalar
  revert hs hk
  cases value.type <;> intro hk hs <;> subst hk <;> simp_all [DataType.isScalarIntegral] <;> rfl

/-- The value `Int64FromConstant` reads and the Java value of a constant agree modulo the width. -/
theorem int64FromConstant_emod (ht : t.isIntOrLongType) {e : HExpr} {c : BitVec 64}
    (hc : e.int64FromConstant = some c) (env : Nat → Int) :
    ∃ v, e.eval env = some v ∧ (c.toNat : Int) % Java.bitWidth t = v % Java.bitWidth t := by
  have hdvd := bitWidth_dvd ht (n := 64) (by omega)
  cases e with
  | intConstant v =>
    simp only [int64FromConstant, Option.some.injEq] at hc
    subst hc
    refine ⟨v.toInt, rfl, ?_⟩
    rw [← toInt_emod_of_dvd hdvd, BitVec.toInt_signExtend_of_le (by omega)]
  | longConstant v =>
    simp only [int64FromConstant, Option.some.injEq] at hc
    subst hc
    exact ⟨v.toInt, rfl, (toInt_emod_of_dvd hdvd v).symm⟩
  | _ => simp [int64FromConstant] at hc

/-- Shifts and rotations read their distance modulo the width. -/
theorem binaryOp_shift_congr {op : BinaryOp} (hop : op.isShift) {x y y' : Int}
    (h : y % (Java.bitWidth t : Int) = y' % Java.bitWidth t) :
    Java.binaryOp op t x y = Java.binaryOp op t x y' := by
  cases op <;> simp_all [BinaryOp.isShift, Java.binaryOp]

/-- A shift by a distance of the same residue, or that throws where the other throws, has the
same value. -/
theorem eval_shift_congr {op : BinaryOp} (hop : op.isShift) {value a b : HExpr} {env : Nat → Int}
    (h : (a.eval env).map (· % (Java.bitWidth t : Int)) =
      (b.eval env).map (· % (Java.bitWidth t : Int))) :
    (HExpr.binary op t value a).eval env = (HExpr.binary op t value b).eval env := by
  simp only [eval, Option.bind_eq_bind]
  cases ha : a.eval env <;> cases hb : b.eval env <;>
    simp only [ha, hb, Option.map_none, Option.map_some, reduceCtorEq, Option.some.injEq] at h
  · rfl
  · cases value.eval env with
    | none => rfl
    | some x => exact binaryOp_shift_congr hop h

theorem bitWidth_eq_two_pow (ht : t.isIntOrLongType) : ∃ k, k ≤ 6 ∧ Java.bitWidth t = 2 ^ k := by
  rcases bitWidth_eq ht with h | h <;> rw [h]
  · exact ⟨5, by omega, rfl⟩
  · exact ⟨6, le_refl 6, rfl⟩

/-- The distances `VisitShift` drops an operation from: `d & c` where the low `k` bits of `c`
are ones, and `d | c`, `d ^ c`, `d + c`, `d - c` where they are zero, all in `int`, have the
low `k` bits of `d`. -/
theorem binaryOp_distance_emod {binOp : BinaryOp} {w k : Nat} (hw : w = 2 ^ k) (hk : k ≤ 32)
    (hb : binOp = .and ∨ binOp = .or ∨ binOp = .xor ∨ binOp = .add ∨ binOp = .sub)
    {d c : Int} (hc : c % w = if binOp = .and then (w : Int) - 1 else 0) :
    (Java.binaryOp binOp .int32 d c).map (· % (w : Int)) = some (d % w) := by
  have hdvd : w ∣ 2 ^ Java.bitWidth .int32 := hw ▸ Nat.pow_dvd_pow 2 hk
  have hdvd' : (w : Int) ∣ 2 ^ Java.bitWidth .int32 := by exact_mod_cast hdvd
  have hpos : 0 < w := hw ▸ Nat.two_pow_pos k
  -- the low bits of the constant's vector, as a natural number
  have hbits : (BitVec.ofInt (Java.bitWidth .int32) c).toNat % w =
      if binOp = .and then w - 1 else 0 := by
    have h := toNat_ofInt_emod hdvd c
    rw [hc, ← Int.natCast_mod] at h
    by_cases hand : binOp = .and <;> simp only [hand, if_true, if_false] at h ⊢ <;> omega
  have hd := toNat_ofInt_emod hdvd d
  rcases hb with rfl | rfl | rfl | rfl | rfl <;>
    simp only [Java.binaryOp, Option.map_some, Option.some.injEq, reduceCtorEq, if_true,
      if_false] at hbits hc ⊢
  · rw [toInt_emod_of_dvd hdvd', BitVec.toNat_and, ← hd, ← Int.natCast_mod, ← Int.natCast_mod]
    subst hw
    rw [and_mod_two_pow_of_ones hbits]
  · rw [toInt_emod_of_dvd hdvd', BitVec.toNat_or, ← hd, ← Int.natCast_mod, ← Int.natCast_mod]
    subst hw
    rw [or_mod_two_pow_of_zero hbits]
  · rw [toInt_emod_of_dvd hdvd', BitVec.toNat_xor, ← hd, ← Int.natCast_mod, ← Int.natCast_mod]
    subst hw
    rw [xor_mod_two_pow_of_zero hbits]
  · rw [Java.wrap_emod_of_dvd hdvd', Int.add_emod, hc, Int.add_zero, Int.emod_emod]
  · rw [Java.wrap_emod_of_dvd hdvd', Int.sub_emod, hc, Int.sub_zero, Int.emod_emod]

/-- A shift by a distance that masks to zero returns its value. -/
theorem binaryOp_shift_zero (ht : t.isIntOrLongType) {op : BinaryOp} (hop : op.isShift)
    {x y : Int} (hx : t.InRange x) (hy : y % (Java.bitWidth t : Int) = 0) :
    Java.binaryOp op t x y = some x := by
  have hsize : 0 < t.size := by
    cases t <;> simp_all [DataType.isIntOrLongType, DataType.size]
  have hkeep := Java.toInt_ofInt_of_inRange (Java.isUnsignedType_of_isIntOrLongType ht) hsize hx
  -- the masked distance is zero, and each shift by zero is the identity on the bit vector
  have hd : (y % (Java.bitWidth t : Int)).toNat = 0 := by rw [hy]; rfl
  cases op <;> simp only [BinaryOp.isShift, Bool.false_eq_true] at hop <;>
    simp only [Java.binaryOp, hd, BitVec.shiftLeft_zero, BitVec.sshiftRight_zero,
      BitVec.ushiftRight_zero, rotateRight_zero, hkeep]

/-- Every scalar integral type is at least a byte wide. -/
theorem eight_le_bitWidth {t' : DataType} (ht' : t'.isScalarIntegral) : 8 ≤ Java.bitWidth t' := by
  cases t' <;> simp_all [DataType.isScalarIntegral, Java.bitWidth, DataType.size]

/-- `GetConstantRight` picks the right input, and `GetLeastConstantLeft` the left one; or, for a
commutative operation, the other way round. -/
theorem getConstantRight_cases {op : BinaryOp} {l r c : HExpr}
    (h : getConstantRight op l r = some c) :
    (c = r ∧ getLeastConstantLeft op l r = some l) ∨
      (op.isCommutative ∧ c = l ∧ getLeastConstantLeft op l r = some r) := by
  unfold getLeastConstantLeft
  rw [h]
  simp only
  unfold getConstantRight at h
  by_cases hr : r.isConstant = true
  · simp only [hr, if_true, Option.some.injEq] at h
    subst h
    left
    refine ⟨rfl, ?_⟩
    -- when both inputs are one instruction, either is the other
    split
    · next hrl => rw [hrl]
    · rfl
  · by_cases hl : (op.isCommutative && l.isConstant) = true
    · simp only [hr, hl, if_true, if_false, Option.some.injEq, Bool.false_eq_true] at h
      subst h
      exact Or.inr ⟨(Bool.and_eq_true _ _ ▸ hl).1, rfl, by simp⟩
    · simp [hr, hl] at h

end Distances

/-! ### `VisitShift` keeps the value of the shift -/

section VisitShift

variable {op : BinaryOp} {t : DataType} {value : HExpr} {env : Nat → Int}

/-- Replacing a constant distance by its masked value. -/
theorem eval_maskedConstant (ht : t.isIntOrLongType) {amount : HExpr} {cst : BitVec 64}
    (hc : amount.int64FromConstant = some cst) :
    ((HExpr.intConstant ((cst &&& BitVec.ofNat 64 (Java.bitWidth t - 1)).setWidth 32)).eval env).map
        (· % (Java.bitWidth t : Int)) = (amount.eval env).map (· % (Java.bitWidth t : Int)) := by
  obtain ⟨v, hv, hres⟩ := int64FromConstant_emod ht hc env
  have hdvd32 : Java.bitWidth t ∣ 2 ^ 32 := by exact_mod_cast bitWidth_dvd ht (n := 32) (by omega)
  have hdvd64 : Java.bitWidth t ∣ 2 ^ 64 := by exact_mod_cast bitWidth_dvd ht (n := 64) (by omega)
  simp only [eval, hv, Option.map_some, Option.some.injEq]
  rw [toInt_emod_of_dvd (bitWidth_dvd ht (by omega)), BitVec.toNat_setWidth, Int.natCast_mod,
    Int.emod_emod_of_dvd _ (by exact_mod_cast hdvd32), toNat_and_mask ht, Int.natCast_mod,
    Int.emod_emod, hres]

/-- Dropping an `And`, `Or`, `Xor`, `Add` or `Sub` with a constant from the distance. -/
theorem eval_dropDistanceOperation (ht : t.isIntOrLongType) {binOp : BinaryOp} {l r other : HExpr}
    {mask : BitVec 64}
    (hwt : (HExpr.binary binOp .int32 l r).WellTyped)
    (hb : binOp = .and ∨ binOp = .or ∨ binOp = .xor ∨ binOp = .add ∨ binOp = .sub)
    (hmask : (getConstantRight binOp l r).bind int64FromConstant = some mask)
    (hother : getLeastConstantLeft binOp l r = some other)
    (hreq : mask &&& BitVec.ofNat 64 (Java.bitWidth t - 1) =
      if binOp = .and then BitVec.ofNat 64 (Java.bitWidth t - 1) else 0) :
    (other.eval env).map (· % (Java.bitWidth t : Int)) =
      ((HExpr.binary binOp .int32 l r).eval env).map (· % (Java.bitWidth t : Int)) := by
  obtain ⟨k, hk6, hw⟩ := bitWidth_eq_two_pow ht
  obtain ⟨c, hc, hcm⟩ := Option.bind_eq_some_iff.mp hmask
  obtain ⟨cv, hcv, hres⟩ := int64FromConstant_emod ht hcm env
  -- the constant's Java value has the low bits the test asked for
  have hcres : cv % (Java.bitWidth t : Int) =
      if binOp = .and then (Java.bitWidth t : Int) - 1 else 0 := by
    have hpos := bitWidth_pos ht
    have hbits := congrArg BitVec.toNat hreq
    rw [toNat_and_mask ht] at hbits
    rw [← hres, ← Int.natCast_mod, hbits]
    split
    · rw [BitVec.toNat_ofNat, Nat.mod_eq_of_lt (by rcases bitWidth_eq ht with h | h <;> omega)]
      omega
    · rfl
  have hdist := fun d => binaryOp_distance_emod (d := d) hw (by omega) hb hcres
  rcases getConstantRight_cases hc with ⟨rfl, ho⟩ | ⟨hcomm, rfl, ho⟩
  · -- the constant is on the right
    rw [hother] at ho
    cases ho
    simp only [eval, hcv, Option.bind_eq_bind, Option.bind_some]
    cases l.eval env with
    | none => rfl
    | some d => exact (hdist d).symm
  · -- a commutative operation with the constant on the left
    rw [hother] at ho
    cases ho
    have hcomm' : binOp = .add ∨ binOp = .mul ∨ binOp = .and ∨ binOp = .or ∨ binOp = .xor ∨
        binOp = .min ∨ binOp = .max := by
      rcases hb with rfl | rfl | rfl | rfl | rfl <;> simp_all [BinaryOp.isCommutative]
    simp only [eval, hcv, Option.bind_eq_bind, Option.bind_some]
    cases r.eval env with
    | none => rfl
    | some d =>
      simp only [Option.bind_some]
      rw [Java.binaryOp_comm hcomm']
      exact (hdist d).symm

/-- Every rewrite of `VisitShift` keeps the Java value of the shift, for every value of its
inputs. -/
theorem visitShift_eval (hop : op.isShift) {amount e : HExpr}
    (hwt : (HExpr.binary op t value amount).WellTyped) (h : visitShift op t value amount = some e)
    (env : Nat → Int) : e.eval env = (HExpr.binary op t value amount).eval env := by
  obtain ⟨ht, hk, hr, hwv, hwa⟩ := hwt
  simp only [hop, if_true] at hr
  unfold visitShift at h
  simp only [implicitMask_eq hwv hk] at h
  cases hc : amount.int64FromConstant with
  | some cst =>
    simp only [hc] at h
    split at h
    · -- the distance masks to zero: the shift is its value
      rename_i hzero
      cases h
      obtain ⟨v, hv, hres⟩ := int64FromConstant_emod ht hc env
      have hmod : v % (Java.bitWidth t : Int) = 0 := by
        have hbits := congrArg BitVec.toNat hzero
        rw [toNat_and_mask ht] at hbits
        change _ = 0 at hbits
        rw [← hres, ← Int.natCast_mod, hbits, Int.natCast_zero]
      simp only [eval, hv, Option.bind_eq_bind]
      cases hx : value.eval env with
      | none => rfl
      | some x =>
        have hxr : t.InRange x := hk ▸ (eval_inRange hwv hx).kind hwv.scalar
        simp only [Option.bind_some]
        exact (binaryOp_shift_zero ht hop hxr hmod).symm
    · split at h
      · -- a distance beyond the width: its masked value
        cases h
        exact eval_shift_congr hop (eval_maskedConstant ht hc)
      · contradiction
  | none =>
    simp only [hc] at h
    cases amount with
    | binary binOp t' l r =>
      have ht' : t' = .int32 := by
        have := hwa.1
        simp only [type] at hr
        cases t' <;> simp_all [DataType.isIntOrLongType, DataType.kind]
      subst ht'
      simp only at h
      split at h
      · rename_i hb
        split at h
        · rename_i mask other hmask hother
          by_cases hreq : mask &&& BitVec.ofNat 64 (Java.bitWidth t - 1) =
              if binOp = .and then BitVec.ofNat 64 (Java.bitWidth t - 1) else 0
          · rw [if_pos hreq] at h
            cases h
            exact eval_shift_congr hop (eval_dropDistanceOperation ht hwa hb hmask hother hreq)
          · rw [if_neg hreq] at h
            contradiction
        · contradiction
      · contradiction
    | typeConversion t' source =>
      simp only at h
      split at h
      · cases h
        apply eval_shift_congr hop
        -- a conversion to a type of at least eight bits keeps the low bits of the distance
        have hdvd : Java.bitWidth t ∣ 2 ^ Java.bitWidth t' := by
          exact_mod_cast bitWidth_dvd ht (eight_le_bitWidth hwa.1 |>.trans' (by omega))
        simp only [eval]
        cases source.eval env with
        | none => rfl
        | some z => simp only [Option.map_some, Java.typeConversion_emod hdvd]
      · contradiction
    | _ => simp at h

end VisitShift

/-! ### Rotations -/

section Rotate

variable {t : DataType}

/-- The distances Java reads, below the width, add up to a multiple of it where the values do. -/
theorem distance_sum {w : Nat} (hw : 0 < w) {a b : Int} (hsum : (a + b) % (w : Int) = 0) :
    (a % (w : Int)).toNat < w ∧ (b % (w : Int)).toNat < w ∧
      ((a % (w : Int)).toNat + (b % (w : Int)).toNat) % w = 0 := by
  have ha0 : 0 ≤ a % (w : Int) := Int.emod_nonneg a (by omega)
  have hb0 : 0 ≤ b % (w : Int) := Int.emod_nonneg b (by omega)
  have hat : a % (w : Int) < w := Int.emod_lt_of_pos a (by omega)
  have hbt : b % (w : Int) < w := Int.emod_lt_of_pos b (by omega)
  refine ⟨by omega, by omega, ?_⟩
  have hcast : ((((a % (w : Int)).toNat + (b % (w : Int)).toNat) % w : Nat) : Int) = 0 := by
    push_cast
    rw [Int.toNat_of_nonneg ha0, Int.toNat_of_nonneg hb0, ← Int.add_emod, hsum]
  exact_mod_cast hcast

/-- `(x >>> a) op (x << b)` in Java, where `a + b` is a multiple of the width: under `|` the
rotation right by `a`, and under `^` and `+` too unless `a` is itself a multiple of the width. -/
theorem binaryOp_ushr_shl (ht : t.isIntOrLongType) {op : BinaryOp} {x a b : Int}
    (hop : op = .or ∨ ((op = .xor ∨ op = .add) ∧ a % (Java.bitWidth t : Int) ≠ 0))
    (hsum : (a + b) % (Java.bitWidth t : Int) = 0) :
    ((Java.binaryOp .ushr t x a).bind fun p => (Java.binaryOp .shl t x b).bind fun q =>
      Java.binaryOp op t p q) = Java.binaryOp .ror t x a := by
  obtain ⟨hra, hrb, hrs⟩ := distance_sum (bitWidth_pos ht) hsum
  have hra0 : a % (Java.bitWidth t : Int) ≠ 0 → 0 < (a % (Java.bitWidth t : Int)).toNat := by
    have := Int.emod_nonneg a (show (Java.bitWidth t : Int) ≠ 0 by have := bitWidth_pos ht; omega)
    omega
  simp only [Java.binaryOp, Option.bind_some]
  rcases hop with rfl | ⟨rfl | rfl, hnz⟩
  · rw [BitVec.ofInt_toInt, BitVec.ofInt_toInt, ushiftRight_or_shiftLeft_eq_rotateRight hra hrb hrs]
  · rw [BitVec.ofInt_toInt, BitVec.ofInt_toInt,
      ushiftRight_xor_shiftLeft_eq_rotateRight (hra0 hnz) hra hrb hrs]
  · rw [Java.wrap, BitVec.ofInt_add, BitVec.ofInt_toInt, BitVec.ofInt_toInt,
      ushiftRight_add_shiftLeft_eq_rotateRight (hra0 hnz) hra hrb hrs]

/-- The rotate patterns at the level of expressions: `op(UShr(x, a), Shl(x, b))`, in either
order, has the value of `Ror(x, a)` when each value of `a` comes with a value of `b` that adds up
to a multiple of the width, under `Or` always and under `Xor` and `Add` where `a` is not itself
a multiple of it. -/
theorem eval_rotatePattern (ht : t.isIntOrLongType) {op : BinaryOp} {x a b : HExpr}
    {env : Nat → Int}
    (hop : op = .or ∨ ((op = .xor ∨ op = .add) ∧
      ∀ av, a.eval env = some av → av % (Java.bitWidth t : Int) ≠ 0))
    (hpair : ∀ av, a.eval env = some av →
      ∃ bv, b.eval env = some bv ∧ (av + bv) % (Java.bitWidth t : Int) = 0) :
    (HExpr.binary op t (.binary .ushr t x a) (.binary .shl t x b)).eval env =
        (HExpr.binary .ror t x a).eval env ∧
      (HExpr.binary op t (.binary .shl t x b) (.binary .ushr t x a)).eval env =
        (HExpr.binary .ror t x a).eval env := by
  have hcomm : op = .add ∨ op = .mul ∨ op = .and ∨ op = .or ∨ op = .xor ∨ op = .min ∨
      op = .max := by
    rcases hop with rfl | ⟨rfl | rfl, _⟩ <;> simp
  simp only [eval, Option.bind_eq_bind]
  cases hx : x.eval env with
  | none => simp
  | some xv =>
    cases ha : a.eval env with
    | none =>
      simp only [Option.bind_some, Option.bind_none]
      cases b.eval env <;> simp
    | some av =>
      obtain ⟨bv, hb, hsum⟩ := hpair av ha
      have hop' : op = .or ∨ ((op = .xor ∨ op = .add) ∧ av % (Java.bitWidth t : Int) ≠ 0) := by
        rcases hop with h | ⟨h, hnz⟩
        · exact Or.inl h
        · exact Or.inr ⟨h, hnz av ha⟩
      have hval := binaryOp_ushr_shl (x := xv) ht hop' hsum
      simp only [hb, Option.bind_some] at hval ⊢
      refine ⟨hval, ?_⟩
      rw [← hval]
      simp only [Java.binaryOp, Option.bind_some]
      exact Java.binaryOp_comm hcomm

/-! The three patterns each pair the distances up: wherever the `HUShr`'s distance has a
value, the `HShl`'s has one that adds up to a multiple of the width. -/

/-- Wrap-around in an arithmetic kind keeps residues modulo the width of any arithmetic kind. -/
theorem wrap_emod_bitWidth (ht : t.isIntOrLongType) {t' : DataType} (ht' : t'.isIntOrLongType)
    (z : Int) : Java.wrap (Java.bitWidth t') z % (Java.bitWidth t : Int) = z % Java.bitWidth t :=
  Java.wrap_emod_of_dvd (bitWidth_dvd ht (by rcases bitWidth_eq ht' with h | h <;> omega)) z

theorem constantPattern_pairs (ht : t.isIntOrLongType) {x a b e : HExpr}
    (h : tryReplaceWithRotateConstantPattern t x a b = some e) :
    e = replaceRotateWithRor t x a ∧ ∀ env av, a.eval env = some av →
      ∃ bv, b.eval env = some bv ∧ (av + bv) % (Java.bitWidth t : Int) = 0 := by
  unfold tryReplaceWithRotateConstantPattern at h
  dsimp only at h
  split at h
  · rename_i rdist ldist hr hl
    split at h
    · rename_i hsum
      cases h
      refine ⟨rfl, fun env av ha => ?_⟩
      obtain ⟨av', ha', hra⟩ := int64FromConstant_emod ht hr env
      obtain ⟨bv, hb, hrb⟩ := int64FromConstant_emod ht hl env
      rw [ha, Option.some.injEq] at ha'
      subst ha'
      refine ⟨bv, hb, ?_⟩
      -- the sum of the two 64-bit distances has no bit below the width
      have hdvd : Java.bitWidth t ∣ 2 ^ 64 := by exact_mod_cast bitWidth_dvd ht (n := 64) (by omega)
      have hbits := congrArg BitVec.toNat hsum
      rw [show t.size * 8 - 1 = Java.bitWidth t - 1 by rw [Java.bitWidth, Nat.mul_comm],
        toNat_and_mask ht, BitVec.toNat_add, Nat.mod_mod_of_dvd _ hdvd] at hbits
      change _ = 0 at hbits
      have hcast : ((ldist.toNat + rdist.toNat : Nat) : Int) % Java.bitWidth t = 0 := by
        exact_mod_cast hbits
      rw [Int.add_emod, ← hra, ← hrb, ← Int.add_emod, Int.add_comm]
      exact_mod_cast hcast
    · contradiction
  · contradiction

theorem negPattern_pairs (ht : t.isIntOrLongType) {x a b e : HExpr} (hwa : a.WellTyped)
    (hwb : b.WellTyped) (h : tryReplaceWithRotateRegisterNegPattern t x a b = some e) :
    e = replaceRotateWithRor t x a ∧ ∀ env av, a.eval env = some av →
      ∃ bv, b.eval env = some bv ∧ (av + bv) % (Java.bitWidth t : Int) = 0 := by
  unfold tryReplaceWithRotateRegisterNegPattern at h
  split at h
  · -- the `HShl` shifts by `-a`
    rename_i t' negated
    split at h
    · rename_i hneg
      subst hneg
      cases h
      refine ⟨rfl, fun env av ha => ⟨Java.neg t' av, by simp [eval, ha], ?_⟩⟩
      rw [Int.add_emod, Java.neg, wrap_emod_bitWidth ht hwb.1, ← Int.add_emod]
      simp
    · contradiction
  · -- the `HUShr` shifts by `-b`
    rename_i t' negated _
    split at h
    · rename_i hneg
      subst hneg
      cases h
      refine ⟨rfl, fun env av ha => ?_⟩
      simp only [eval, Option.map_eq_some_iff] at ha
      obtain ⟨bv, hb, rfl⟩ := ha
      refine ⟨bv, hb, ?_⟩
      rw [Int.add_emod, Java.neg, wrap_emod_bitWidth ht hwa.1, ← Int.add_emod]
      simp
    · contradiction
  · contradiction

/-- What `IsSubRegBitsMinusOther` recognises: `c - other` for a constant `c` with no bit below
`regBits`. -/
theorem isSubRegBitsMinusOther_spec {s other : HExpr} {regBits : Nat}
    (h : isSubRegBitsMinusOther s regBits other = true) :
    ∃ t' c cst, s = .binary .sub t' c other ∧ c.int64FromConstant = some cst ∧
      cst &&& BitVec.ofNat 64 (regBits - 1) = 0 := by
  unfold isSubRegBitsMinusOther at h
  split at h
  · rename_i t' l r
    simp only [Bool.and_eq_true, beq_iff_eq] at h
    obtain ⟨rfl, hc⟩ := h
    split at hc
    · rename_i cst hcst
      exact ⟨t', l, cst, rfl, hcst, by simpa using hc⟩
    · contradiction
  · contradiction

/-- The residue of `c - d` for a constant `c` with no bit below the width. -/
theorem sub_pairs (ht : t.isIntOrLongType) {t' : DataType} (ht' : t'.isIntOrLongType)
    {c : HExpr} {cst : BitVec 64} (hc : c.int64FromConstant = some cst)
    (hzero : cst &&& BitVec.ofNat 64 (t.size * 8 - 1) = 0) (env : Nat → Int) :
    ∃ cv, c.eval env = some cv ∧ ∀ d : Int,
      (d + Java.wrap (Java.bitWidth t') (cv - d)) % (Java.bitWidth t : Int) = 0 := by
  obtain ⟨cv, hcv, hres⟩ := int64FromConstant_emod ht hc env
  refine ⟨cv, hcv, fun d => ?_⟩
  have hbits := congrArg BitVec.toNat hzero
  rw [show t.size * 8 - 1 = Java.bitWidth t - 1 by rw [Java.bitWidth, Nat.mul_comm],
    toNat_and_mask ht] at hbits
  change _ = 0 at hbits
  have hcv0 : cv % (Java.bitWidth t : Int) = 0 := by
    rw [← hres, ← Int.natCast_mod, hbits, Int.natCast_zero]
  rw [Int.add_emod, wrap_emod_bitWidth ht ht', ← Int.add_emod, show d + (cv - d) = cv by omega,
    hcv0]

theorem subPattern_pairs (ht : t.isIntOrLongType) {x a b e : HExpr} (hwa : a.WellTyped)
    (hwb : b.WellTyped) (h : tryReplaceWithRotateRegisterSubPattern t x a b = some e) :
    e = replaceRotateWithRor t x a ∧ ∀ env av, a.eval env = some av →
      ∃ bv, b.eval env = some bv ∧ (av + bv) % (Java.bitWidth t : Int) = 0 := by
  unfold tryReplaceWithRotateRegisterSubPattern at h
  dsimp only at h
  split at h
  · rename_i hpat
    cases h
    refine ⟨rfl, fun env av ha => ?_⟩
    simp only [Bool.or_eq_true, Bool.and_eq_true] at hpat
    rcases hpat with ⟨-, hsub⟩ | ⟨-, hsub⟩
    · -- the `HShl` shifts by `#bits - a`
      obtain ⟨t', c, cst, rfl, hc, hzero⟩ := isSubRegBitsMinusOther_spec hsub
      obtain ⟨cv, hcv, hpair⟩ := sub_pairs ht hwb.1 hc hzero env
      exact ⟨_, by simp [eval, hcv, ha, Java.binaryOp], hpair av⟩
    · -- the `HUShr` shifts by `#bits - b`
      obtain ⟨t', c, cst, rfl, hc, hzero⟩ := isSubRegBitsMinusOther_spec hsub
      obtain ⟨cv, hcv, hpair⟩ := sub_pairs ht hwa.1 hc hzero env
      simp only [eval, hcv, Option.bind_eq_bind, Option.bind_some, Option.bind_eq_some_iff,
        Java.binaryOp, Option.some.injEq] at ha
      obtain ⟨bv, hb, rfl⟩ := ha
      refine ⟨bv, hb, ?_⟩
      rw [Int.add_comm]
      exact hpair bv
  · contradiction

/-- The dispatch of `TryReplaceWithRotate` to the three patterns. -/
theorem rotatePatterns_pairs (ht : t.isIntOrLongType) {x a b e : HExpr} (hwa : a.WellTyped)
    (hwb : b.WellTyped)
    (h : (if a.isConstant ∧ b.isConstant then tryReplaceWithRotateConstantPattern t x a b
      else if a.isSub ∨ b.isSub then tryReplaceWithRotateRegisterSubPattern t x a b
      else if a.isNeg ∨ b.isNeg then tryReplaceWithRotateRegisterNegPattern t x a b
      else none) = some e) :
    e = replaceRotateWithRor t x a ∧ ∀ env av, a.eval env = some av →
      ∃ bv, b.eval env = some bv ∧ (av + bv) % (Java.bitWidth t : Int) = 0 := by
  split at h
  · exact constantPattern_pairs ht h
  · split at h
    · exact subPattern_pairs ht hwa hwb h
    · split at h
      · exact negPattern_pairs ht hwa hwb h
      · contradiction

/-- The operands of a well-typed `op(UShr(x, a), Shl(x, b))`: the shifts have the operation's
type, and their distances are well typed. -/
theorem shiftPair_typed {op : BinaryOp} {u s : DataType} {x a x' b : HExpr}
    (hwt : (HExpr.binary op t (.binary .ushr u x a)
      (.binary .shl s x' b)).WellTyped) :
    t.isIntOrLongType ∧ u = t ∧ a.WellTyped ∧ b.WellTyped := by
  obtain ⟨ht, hl, -, ⟨hu, -, -, -, hwa⟩, ⟨-, -, -, -, hwb⟩⟩ := hwt
  refine ⟨ht, ?_, hwa, hwb⟩
  simp only [type] at hl
  cases u <;> simp_all [DataType.isIntOrLongType, DataType.kind]

/-- `TryReplaceWithRotate` puts `Ror(x, d)` in place of the `Or`, `Xor` or `Add`, with `d` the
`HUShr`'s distance; that has the value of the original for every value of the inputs where the
operation is `Or`, and, for `Xor` and `Add`, wherever `d` is not a multiple of the width. -/
theorem tryReplaceWithRotate_eval {op : BinaryOp} {left right e : HExpr}
    (hop : op = .or ∨ op = .xor ∨ op = .add) (hwt : (HExpr.binary op t left right).WellTyped)
    (h : tryReplaceWithRotate left right = some e) :
    ∃ x d, e = .binary .ror t x d ∧ ∀ env : Nat → Int,
      (op = .or ∨ ∀ y, d.eval env = some y → y % (Java.bitWidth t : Int) ≠ 0) →
        e.eval env = (HExpr.binary op t left right).eval env := by
  have hshift : op.isShift = false := by rcases hop with rfl | rfl | rfl <;> rfl
  -- the distance condition, in the form the patterns take it
  have hcond : ∀ {env : Nat → Int} {d : HExpr},
      (op = .or ∨ ∀ y, d.eval env = some y → y % (Java.bitWidth t : Int) ≠ 0) →
        op = .or ∨ ((op = .xor ∨ op = .add) ∧
          ∀ y, d.eval env = some y → y % (Java.bitWidth t : Int) ≠ 0) := by
    intro env d hd
    rcases hd with hd | hd
    · exact Or.inl hd
    · rcases hop with hop | hop
      · exact Or.inl hop
      · exact Or.inr ⟨hop, hd⟩
  unfold tryReplaceWithRotate at h
  split at h
  · -- `UShr` on the left
    rename_i u x a s x' b
    split at h
    · rename_i hsame
      obtain ⟨rfl, rfl⟩ := hsame
      obtain ⟨ht, rfl, hwa, hwb⟩ := shiftPair_typed hwt
      obtain ⟨rfl, hpair⟩ := rotatePatterns_pairs ht hwa hwb h
      exact ⟨x, a, rfl, fun env hd => (eval_rotatePattern ht (hcond hd) (hpair env)).1.symm⟩
    · contradiction
  · -- `Shl` on the left
    rename_i s x' b u x a
    split at h
    · rename_i hsame
      obtain ⟨rfl, rfl⟩ := hsame
      have hwt' : (HExpr.binary op t (.binary .ushr u x a) (.binary .shl u x b)).WellTyped := by
        obtain ⟨ht, hl, hr, hwl, hwr⟩ := hwt
        simp only [hshift] at hr
        exact ⟨ht, hr, by simpa [hshift] using hl, hwr, hwl⟩
      obtain ⟨ht, rfl, hwa, hwb⟩ := shiftPair_typed hwt'
      obtain ⟨rfl, hpair⟩ := rotatePatterns_pairs ht hwa hwb h
      exact ⟨x, a, rfl, fun env hd => (eval_rotatePattern ht (hcond hd) (hpair env)).2.symm⟩
    · contradiction
  · contradiction

/-- Both register patterns are wrong for `Xor` and `Add` where the distance is a multiple of the
width: `(x >>> d) ^ (x << -d)` and `(x >>> d) + (x << (32 - d))` are rewritten to `Ror(x, d)`,
which at `x = 1`, `d = 0` is `1`, where Java gives `1 ^ 1 = 0` and `1 + 1 = 2`. -/
theorem rotateRegisterPatterns_diverge_at_zero :
    tryReplaceWithRotate (.binary .ushr .int32 (.input .int32 0) (.input .int32 1))
        (.binary .shl .int32 (.input .int32 0) (.neg .int32 (.input .int32 1))) =
      some (.binary .ror .int32 (.input .int32 0) (.input .int32 1)) ∧
    tryReplaceWithRotate (.binary .ushr .int32 (.input .int32 0) (.input .int32 1))
        (.binary .shl .int32 (.input .int32 0)
          (.binary .sub .int32 (.intConstant 32) (.input .int32 1))) =
      some (.binary .ror .int32 (.input .int32 0) (.input .int32 1)) ∧
    (HExpr.binary .ror .int32 (.input .int32 0) (.input .int32 1)).eval
        (fun i => if i = 0 then 1 else 0) = some 1 ∧
    (HExpr.binary .xor .int32 (.binary .ushr .int32 (.input .int32 0) (.input .int32 1))
        (.binary .shl .int32 (.input .int32 0) (.neg .int32 (.input .int32 1)))).eval
        (fun i => if i = 0 then 1 else 0) = some 0 ∧
    (HExpr.binary .add .int32 (.binary .ushr .int32 (.input .int32 0) (.input .int32 1))
        (.binary .shl .int32 (.input .int32 0)
          (.binary .sub .int32 (.intConstant 32) (.input .int32 1)))).eval
        (fun i => if i = 0 then 1 else 0) = some 2 := by
  refine ⟨rfl, rfl, ?_, ?_, ?_⟩ <;> decide

end Rotate

end InstructionSimplifier

end AndroidArt.Optimizing
