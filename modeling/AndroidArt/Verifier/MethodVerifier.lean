/-
Module: AndroidArt.Verifier.MethodVerifier
Purpose: The structural passes `MethodVerifier::Verify` of `runtime/verifier/method_verifier.cc`
  runs before code-flow analysis: `ComputeWidthsAndCountOps`, which decodes the code item
  linearly and flags every instruction start; `ScanTryCatchBlocks`, which checks try ranges and
  handler addresses against those flags; and `VerifyInstructions`, which runs the static checks
  of `VerifyInstruction` on every instruction: register indices (`CheckRegisterIndex`,
  `CheckWideRegisterIndex`, `CheckVarArgRegs`, `CheckVarArgRangeRegs`), branch targets
  (`GetBranchOffset`, `CheckBranchTarget`) and payload references (`CheckArrayData`,
  `CheckSwitchTargets`).
Trusted boundary: the checks of an index against the dex file's id tables (`CheckFieldIndex`,
  `CheckMethodIndex`, `CheckNewInstance`, `CheckStringIndex`, `CheckTypeIndex`, `CheckNewArray`,
  `CheckPrototypeIndex`, `CheckCallSiteIndex`, `CheckMethodHandleIndex`) are parameters; the
  catch handler addresses are given decoded, the `CatchHandlerIterator` reading of
  `encoded_catch_handler_list` is not modelled; `insns` is 4-byte aligned, which the dex file
  verifier checks for every code item, so a dex pc is 4-byte aligned exactly when it is even.
Main exports: CodeItem, IndexChecks, CodeItem.computeWidthsAndCountOps,
  CodeItem.scanTryCatchBlocks
-/
import Mathlib
import AndroidArt.Dex.Instruction

namespace AndroidArt.Verifier

open AndroidArt.Lib AndroidArt.Dex AndroidArt.Dex.Instruction

/-!
The verifier keeps one `InstructionFlags` per code unit.  The structural passes read only the
`IsOpcode` bit, set by `ComputeWidthsAndCountOps`; the bits they write besides it (`InTry`,
`BranchTarget`, `CompileTimeInfoPoint`) are read by code-flow analysis alone and are left out.
The `IsOpcode` bits are a function from dex pc to `Bool`, all clear at the start.  Every check
is a `Bool`: `true` where the source returns `true`, `false` where it calls `Fail`.
-/

/-- A `try_item`: the range `[start_addr_, start_addr_ + insn_count_)` of dex pcs. -/
structure TryItem where
  startAddr : Nat
  insnCount : Nat
deriving Repr, DecidableEq

/-- What the structural passes read of a code item: the code units, their number
`insns_size_in_code_units_`, `registers_size_`, the try items and, for each handler list, its
handler addresses in order.  A code item lies inside a dex file, whose size is a `uint32_t`, so
it has fewer than `2^31` code units. -/
structure CodeItem where
  insns : CodeUnits
  insnsSize : Nat
  registersSize : Nat
  tries : List TryItem
  catchHandlerAddresses : List (List Nat)
  insnsSize_lt : insnsSize < 2 ^ 31

/-- The index checks against the dex file's tables, one per kind of index operand. -/
structure IndexChecks where
  checkFieldIndex : Nat → Bool
  checkMethodIndex : Nat → Bool
  checkNewInstance : Nat → Bool
  checkStringIndex : Nat → Bool
  checkTypeIndex : Nat → Bool
  checkNewArray : Nat → Bool
  checkPrototypeIndex : Nat → Bool
  checkCallSiteIndex : Nat → Bool
  checkMethodHandleIndex : Nat → Bool

/-- `SetIsOpcode` at `pc`. -/
def setIsOpcode (isOpcode : Nat → Bool) (pc : Nat) : Nat → Bool :=
  fun q => q == pc || isOpcode q

namespace CodeItem

variable (c : CodeItem)

/-! ### `ComputeWidthsAndCountOps` -/

/-- The loop of `ComputeWidthsAndCountOps` from the iterator at `pc`: while the iterator is
before the end, step a copy of it; stop if the copy enters the error state, and otherwise flag
`pc` and move on.  Returns where the iterator stopped and the flags. -/
def computeWidthsLoop : Nat → Nat → (Nat → Bool) → Nat × (Nat → Bool)
  | 0, pc, isOpcode => (pc, isOpcode)
  | fuel + 1, pc, isOpcode =>
    if pc < c.insnsSize then
      match c.insns.safeNext c.insnsSize pc with
      | none => (pc, isOpcode)
      | some next => computeWidthsLoop fuel next (setIsOpcode isOpcode pc)
    else (pc, isOpcode)

/-- `ComputeWidthsAndCountOps`: the `IsOpcode` flags, when the decoding ends exactly at the end
of the code item.  Every step advances by at least one unit, so `insnsSize + 1` rounds are
never exhausted. -/
def computeWidthsAndCountOps : Option (Nat → Bool) :=
  let (pc, isOpcode) := c.computeWidthsLoop (c.insnsSize + 1) 0 fun _ => false
  if pc = c.insnsSize then some isOpcode else none

/-! ### The linear decoding

`ComputeWidthsAndCountOps` flags exactly the dex pcs at which the linear decoding of the code
item starts an instruction, and succeeds only when that decoding ends at the end of the code
item: the flags describe a decoding of `[0, insnsSize)` into whole instructions. -/

/-- The dex pc of the `k`-th step of the linear decoding: `0`, then the safe iterator's step
from every pc still inside the code item. -/
def decodeAt : Nat → Option Nat
  | 0 => some 0
  | k + 1 =>
    match decodeAt k with
    | some pc => if pc < c.insnsSize then c.insns.safeNext c.insnsSize pc else none
    | none => none

/-- A dex pc where the linear decoding starts an instruction inside the code item. -/
def IsInstructionStart (pc : Nat) : Prop := ∃ k, c.decodeAt k = some pc ∧ pc < c.insnsSize

theorem decodeAt_succ_of_lt {k pc : Nat} (hk : c.decodeAt k = some pc)
    (hlt : pc < c.insnsSize) : c.decodeAt (k + 1) = c.insns.safeNext c.insnsSize pc := by
  simp [decodeAt, hk, hlt]

/-- Inversion of one decoding step. -/
theorem decodeAt_succ_eq_some {k next : Nat} (h : c.decodeAt (k + 1) = some next) :
    ∃ pc, c.decodeAt k = some pc ∧ pc < c.insnsSize ∧
      c.insns.safeNext c.insnsSize pc = some next := by
  simp only [decodeAt] at h
  split at h
  · rename_i pc hk
    split_ifs at h with hlt
    exact ⟨pc, hk, hlt, h⟩
  · cases h

/-- The decoding moves strictly forward. -/
theorem decodeAt_lt_of_lt {i j a b : Nat} (ha : c.decodeAt i = some a)
    (hb : c.decodeAt j = some b) (hij : i < j) : a < b := by
  induction j generalizing b with
  | zero => omega
  | succ j ih =>
    obtain ⟨pc, hpc, -, hstep⟩ := c.decodeAt_succ_eq_some hb
    have hadvance := (CodeUnits.safeNext_eq_some c.insns hstep).2.1
    rcases Nat.lt_succ_iff_lt_or_eq.mp hij with hlt | rfl
    · exact lt_trans (ih hpc hlt) hadvance
    · rw [ha] at hpc
      cases hpc
      exact hadvance

/-- The invariant of the loop of `ComputeWidthsAndCountOps`: at the `k`-th decoding step, the
flags are the pcs of the steps before it.  It holds wherever the loop stops. -/
theorem computeWidthsLoop_spec (fuel : Nat) : ∀ (k pc : Nat) (isOpcode : Nat → Bool),
    c.decodeAt k = some pc → (∀ q, isOpcode q = true ↔ ∃ i < k, c.decodeAt i = some q) →
    ∃ k', c.decodeAt k' = some (c.computeWidthsLoop fuel pc isOpcode).1 ∧
      ∀ q, (c.computeWidthsLoop fuel pc isOpcode).2 q = true ↔
        ∃ i < k', c.decodeAt i = some q := by
  induction fuel with
  | zero => exact fun k _ _ hpc hflags => ⟨k, hpc, hflags⟩
  | succ fuel ih =>
    intro k pc isOpcode hpc hflags
    simp only [computeWidthsLoop]
    split_ifs with hlt
    · cases hnext : c.insns.safeNext c.insnsSize pc with
      | none => exact ⟨k, hpc, hflags⟩
      | some next =>
        -- one more step: `pc` joins the flags and the decoding moves to step `k + 1`
        apply ih (k + 1) next
        · rw [c.decodeAt_succ_of_lt hpc hlt, hnext]
        · intro q
          simp only [setIsOpcode, Bool.or_eq_true, beq_iff_eq, hflags]
          constructor
          · rintro (rfl | ⟨i, hi, hq⟩)
            · exact ⟨k, by omega, hpc⟩
            · exact ⟨i, by omega, hq⟩
          · rintro ⟨i, hi, hq⟩
            rcases Nat.lt_succ_iff_lt_or_eq.mp hi with hi | rfl
            · exact Or.inr ⟨i, hi, hq⟩
            · rw [hpc] at hq
              cases hq
              exact Or.inl rfl
    · exact ⟨k, hpc, hflags⟩

/-- `ComputeWidthsAndCountOps` succeeds only when the linear decoding reaches the end of the
code item exactly, and then it flags exactly the instruction starts of that decoding. -/
theorem computeWidthsAndCountOps_spec {isOpcode : Nat → Bool}
    (h : c.computeWidthsAndCountOps = some isOpcode) :
    (∃ k, c.decodeAt k = some c.insnsSize) ∧
      ∀ q, isOpcode q = true ↔ c.IsInstructionStart q := by
  obtain ⟨k, hend, hflags⟩ :=
    c.computeWidthsLoop_spec (c.insnsSize + 1) 0 0 (fun _ => false) rfl (by simp)
  unfold computeWidthsAndCountOps at h
  generalize c.computeWidthsLoop (c.insnsSize + 1) 0 (fun _ => false) = res at h hend hflags
  obtain ⟨pc, flags⟩ := res
  dsimp only at h hend hflags
  split_ifs at h with hpc
  cases h
  subst hpc
  refine ⟨⟨k, hend⟩, fun q => ?_⟩
  rw [hflags]
  constructor
  · rintro ⟨i, hi, hq⟩
    exact ⟨i, hq, c.decodeAt_lt_of_lt hq hend hi⟩
  · rintro ⟨i, hq, hlt⟩
    refine ⟨i, ?_, hq⟩
    -- a step at or after the one that reaches the end is not inside the code item
    by_contra hge
    rcases Nat.lt_or_eq_of_le (Nat.le_of_not_lt hge) with hki | rfl
    · exact absurd (c.decodeAt_lt_of_lt hend hq hki) (by omega)
    · rw [hend] at hq
      cases hq
      omega

/-! ### `ScanTryCatchBlocks` -/

/-- `CheckNotMoveResult`: the instruction at `pc` is not `move-result`, `move-result-wide` or
`move-result-object`. -/
def checkNotMoveResult (pc : Nat) : Bool :=
  !(decide (0x0A ≤ c.insns.opcode pc) && decide (c.insns.opcode pc ≤ 0x0C))

/-- The check of one try item: a non-empty range inside the code item that starts at an
instruction.  The end is computed in `uint32_t`. -/
def tryItemOk (isOpcode : Nat → Bool) (t : TryItem) : Bool :=
  let start := t.startAddr
  let endAddr := toUnsigned 32 (start + t.insnCount)
  !(decide (start ≥ endAddr) || decide (start ≥ c.insnsSize) || decide (endAddr > c.insnsSize)) &&
    isOpcode start

/-- `ScanTryCatchBlocks`: nothing to check without try items; otherwise every try item, then
every handler address, which must start an instruction that is not a `move-result*`. -/
def scanTryCatchBlocks (isOpcode : Nat → Bool) : Bool :=
  c.tries.isEmpty ||
    (c.tries.all (c.tryItemOk isOpcode) &&
      c.catchHandlerAddresses.all fun handlers =>
        handlers.all fun pc => isOpcode pc && c.checkNotMoveResult pc)

/-! ### The checks of `VerifyInstruction` -/

/-- `CheckRegisterIndex`. -/
def checkRegisterIndex (idx : Nat) : Bool := idx < c.registersSize

/-- `CheckWideRegisterIndex`: both halves of the pair, `idx + 1` computed in `uint32_t`. -/
def checkWideRegisterIndex (idx : Nat) : Bool := toUnsigned 32 (idx + 1) < c.registersSize

/-- `table_size` of `CheckArrayData` for the payload at `start`: four header units and the
data, computed in `uint32_t` from the width at unit `1` and the count at units `2..3`. -/
def arrayDataTableSize (start : Nat) : Nat :=
  let valueWidth := c.insns.fetch16 start 1
  let valueCount := c.insns.fetch32 start 2
  toUnsigned 32 (4 + toUnsigned 32 (toUnsigned 32 (valueWidth * valueCount) + 1) / 2)

/-- `CheckArrayData` of the `fill-array-data` at `curOffset`: the payload start must leave room
for the header, be 4-byte aligned and start an instruction, and the table must end inside the
code item.  The start test adds in `int32_t` and then in `uint32_t`; `table_size` and the end
are computed in `uint32_t`. -/
def checkArrayData (isOpcode : Nat → Bool) (curOffset : Nat) : Bool :=
  let insnCount := c.insnsSize
  let arrayDataOffset := toSigned 32 (c.insns.fetch32 curOffset 1)
  if toSigned 32 (toSigned 32 curOffset + arrayDataOffset) < 0 ∨
      toUnsigned 32 (curOffset + arrayDataOffset + 2) ≥ insnCount then false
  else
    -- the pointer `insns + cur_offset + array_data_offset`, as a dex pc
    let arrayData : Int := curOffset + arrayDataOffset
    if arrayData % 2 ≠ 0 then false
    else if !isOpcode (toUnsigned 32 arrayData) then false
    else
      let tableSize := c.arrayDataTableSize arrayData.toNat
      !decide (toUnsigned 32 (curOffset + arrayDataOffset + tableSize) > insnCount)

/-- `table_size` is a `uint32_t`: four header units and at most `2^31 - 1` units of data. -/
theorem arrayDataTableSize_le (start : Nat) : c.arrayDataTableSize start ≤ 2 ^ 31 + 3 := by
  unfold arrayDataTableSize
  dsimp only
  set data := toUnsigned 32 (toUnsigned 32 (↑(c.insns.fetch16 start 1) *
    ↑(c.insns.fetch32 start 2)) + 1)
  have hdata : data < 2 ^ 32 := toUnsigned_lt 32 _
  have hkeep : (toUnsigned 32 (4 + (data : Int) / 2) : Int) = 4 + (data : Int) / 2 :=
    toUnsigned_of_lt (by omega) (by omega)
  omega

/-- Where `value_width * value_count + 1` does not wrap, `table_size` is the extent that the
payload's header describes. -/
theorem arrayDataTableSize_eq_extent {start : Nat}
    (h : c.insns.fetch16 start 1 * c.insns.fetch32 start 2 + 1 < 2 ^ 32) :
    c.arrayDataTableSize start = (ArrayDataPayload.read c.insns start).extent := by
  unfold arrayDataTableSize ArrayDataPayload.extent ArrayDataPayload.read
  dsimp only
  generalize c.insns.fetch16 start 1 = width at h ⊢
  generalize c.insns.fetch32 start 2 = count at h ⊢
  have hcast : ((width : Int) * count) = ((width * count : Nat) : Int) := by push_cast; rfl
  rw [hcast, toUnsigned_natCast (by omega)]
  generalize width * count = product at h ⊢
  have hdata : (toUnsigned 32 ((product : Int) + 1) : Int) = product + 1 :=
    toUnsigned_of_lt (by omega) (by omega)
  generalize toUnsigned 32 ((product : Int) + 1) = data at hdata ⊢
  have hkeep : (toUnsigned 32 (4 + (data : Int) / 2) : Int) = 4 + (data : Int) / 2 :=
    toUnsigned_of_lt (by omega) (by omega)
  omega

/-- What a successful `CheckArrayData` establishes about the payload it references: its start
is an even dex pc that starts an instruction and leaves room for the header, and its
`table_size` units end inside the code item. -/
theorem checkArrayData_sound {isOpcode : Nat → Bool} {pc : Nat} (hpc : pc < c.insnsSize)
    (h : c.checkArrayData isOpcode pc = true) :
    ∃ start : Nat, (start : Int) = pc + toSigned 32 (c.insns.fetch32 pc 1) ∧ start % 2 = 0 ∧
      isOpcode start = true ∧ start + 2 < c.insnsSize ∧
      start + c.arrayDataTableSize start ≤ c.insnsSize := by
  have hsize := c.insnsSize_lt
  have hpcSigned : toSigned 32 (pc : Int) = pc :=
    toSigned_of_range (by norm_num) (by omega) (by norm_num; omega)
  have hoffset := toSigned_mem_range (by norm_num : 0 < 32) (c.insns.fetch32 pc 1)
  unfold checkArrayData at h
  dsimp only at h
  rw [hpcSigned] at h
  generalize toSigned 32 (c.insns.fetch32 pc 1) = offset at h hoffset ⊢
  norm_num at hoffset
  split_ifs at h with hstart hodd hflag
  simp only [not_or, not_lt, not_le] at hstart
  obtain ⟨hsigned, hroom⟩ := hstart
  -- the `int32_t` sum is not negative, so it is the mathematical sum, below `2^31`
  have hnonneg : 0 ≤ (pc : Int) + offset := by
    by_contra hneg
    have hkeep : toSigned 32 ((pc : Int) + offset) = pc + offset :=
      toSigned_of_range (by norm_num) (by norm_num; omega) (by norm_num; omega)
    omega
  have hkeep : toSigned 32 ((pc : Int) + offset) = pc + offset :=
    toSigned_eq_self_of_nonneg (by norm_num) hnonneg (by omega) hsigned
  have hbelow := (toSigned_mem_range (by norm_num : 0 < 32) ((pc : Int) + offset)).2
  rw [hkeep] at hbelow
  norm_num at hbelow
  obtain ⟨start, hstartEq⟩ : ∃ start : Nat, (start : Int) = pc + offset :=
    ⟨_, Int.toNat_of_nonneg hnonneg⟩
  have htoNat : ((pc : Int) + offset).toNat = start := by omega
  have hflagEq : toUnsigned 32 ((pc : Int) + offset) = start := by
    have hcast := toUnsigned_of_lt (n := 32) hnonneg (by omega)
    omega
  have hroomEq : (toUnsigned 32 ((pc : Int) + offset + 2) : Int) = pc + offset + 2 :=
    toUnsigned_of_lt (by omega) (by omega)
  rw [htoNat] at h
  rw [hflagEq] at hflag
  -- the end test, on a sum that cannot wrap: `start + 2 < insnsSize < 2^31` and
  -- `table_size ≤ 2^31 + 3`
  have htable := c.arrayDataTableSize_le start
  have hendEq : (toUnsigned 32 ((pc : Int) + offset + (c.arrayDataTableSize start : Int)) : Int) =
      pc + offset + c.arrayDataTableSize start :=
    toUnsigned_of_lt (by omega) (by omega)
  simp only [Bool.not_eq_true', decide_eq_false_iff_not, not_lt] at h
  simp only [Bool.not_eq_true', Bool.not_eq_false] at hflag
  refine ⟨start, hstartEq, by omega, hflag, by omega, by omega⟩

/-- `GetBranchOffset` of the instruction at `curOffset`: the relative target, whether the
branch is conditional, and whether a zero offset is allowed (`goto/32` only); `none` for an
instruction that is not a branch. -/
def getBranchOffset (curOffset : Nat) : Option (Int × Bool × Bool) :=
  let insn := c.insns.fetch16 curOffset 0
  match insn &&& 0xff with
  | 0x28 => some (toSigned 16 insn >>> 8, false, false)
  | 0x2A => some (toSigned 32 (c.insns.fetch32 curOffset 1), false, true)
  | 0x29 => some (toSigned 16 (c.insns.fetch16 curOffset 1), false, false)
  | 0x32 | 0x33 | 0x34 | 0x35 | 0x36 | 0x37 | 0x38 | 0x39 | 0x3A | 0x3B | 0x3C | 0x3D =>
    some (toSigned 16 (c.insns.fetch16 curOffset 1), true, false)
  | _ => none

/-- `CheckBranchTarget` of the branch at `curOffset`: the target must not be the branch itself
(unless allowed), must not overflow 32 bits, and must start an instruction inside the code
item. -/
def checkBranchTarget (isOpcode : Nat → Bool) (curOffset : Nat) : Bool :=
  match c.getBranchOffset curOffset with
  | none => false
  | some (offset, _, selfOkay) =>
    if !selfOkay ∧ offset = 0 then false
    -- `(int64_t) cur_offset + (int64_t) offset` against `(int64_t) (cur_offset + offset)`
    else if (curOffset + offset : Int) ≠ toUnsigned 32 (curOffset + offset) then false
    else
      let absOffset := toSigned 32 (curOffset + offset)
      !(decide (absOffset < 0) || decide (toUnsigned 32 absOffset ≥ c.insnsSize) ||
        !isOpcode (toUnsigned 32 absOffset))

/-- What a successful `CheckBranchTarget` establishes: the instruction is a branch, and its
target `pc + offset`, computed without wrap-around, starts an instruction inside the code
item. -/
theorem checkBranchTarget_sound {isOpcode : Nat → Bool} {pc : Nat}
    (h : c.checkBranchTarget isOpcode pc = true) :
    ∃ offset isConditional selfOkay, c.getBranchOffset pc = some (offset, isConditional, selfOkay) ∧
      ∃ target : Nat, (target : Int) = pc + offset ∧ target < c.insnsSize ∧
        isOpcode target = true := by
  unfold checkBranchTarget at h
  split at h
  · cases h
  · rename_i offset isConditional selfOkay hget
    refine ⟨offset, isConditional, selfOkay, hget, ?_⟩
    split_ifs at h with hzero hoverflow
    -- the 64-bit test: the `uint32_t` sum is the mathematical one
    have hsum : (pc : Int) + offset = toUnsigned 32 ((pc : Int) + offset) := not_not.mp hoverflow
    have hbound := toUnsigned_lt 32 ((pc : Int) + offset)
    simp only [Bool.not_or, Bool.not_not, Bool.and_eq_true, Bool.not_eq_true',
      decide_eq_false_iff_not, not_lt, not_le] at h
    obtain ⟨⟨hsigned, hinside⟩, hflag⟩ := h
    have hkeep : toSigned 32 ((pc : Int) + offset) = pc + offset :=
      toSigned_eq_self_of_nonneg (by norm_num) (by omega) (by omega) hsigned
    rw [hkeep] at hinside hflag
    exact ⟨toUnsigned 32 ((pc : Int) + offset), hsum.symm, hinside, hflag⟩

/-- The `int32_t` made of the two code units at `start + i` and `start + i + 1` of a table. -/
def tableWord (start i : Nat) : Int := toSigned 32 (c.insns.fetch32 start i)

/-- The check of switch target `targ` of the switch at `curOffset`: `cur_offset + offset` in
`uint32_t`, read back as `int32_t`, must start an instruction inside the code item. -/
def switchTargetOk (isOpcode : Nat → Bool) (curOffset start targetsOffset targ : Nat) : Bool :=
  let offset := c.tableWord start (targetsOffset + targ * 2)
  let absOffset := toSigned 32 (curOffset + offset)
  !(decide (absOffset < 0) || decide (absOffset ≥ toSigned 32 c.insnsSize) ||
    !isOpcode (toUnsigned 32 absOffset))

/-- `CheckSwitchTargets` of the `packed-switch` or `sparse-switch` at `curOffset`: the payload
must start inside the code item, 4-byte aligned, at an instruction, carry the signature of the
switch kind and end inside the code item; a packed switch's keys must not overflow `int32_t`
and a sparse switch's keys must ascend; every target must pass `switchTargetOk`. -/
def checkSwitchTargets (isOpcode : Nat → Bool) (curOffset : Nat) : Bool :=
  let insnCount := c.insnsSize
  let switchOffset := toSigned 32 (c.insns.fetch32 curOffset 1)
  if toSigned 32 (toSigned 32 curOffset + switchOffset) < 0 ∨
      toUnsigned 32 (curOffset + switchOffset + 2) > insnCount then false
  else
    let switchInsns : Int := curOffset + switchOffset
    let start := switchInsns.toNat
    if switchInsns % 2 ≠ 0 then false
    else if !isOpcode (toUnsigned 32 switchInsns) then false
    else
      let isPackedSwitch := c.insns.opcode curOffset = 0x2B
      let switchCount := c.insns.fetch16 start 1
      let targetsOffset := if isPackedSwitch then 4 else 2 + 2 * switchCount
      let expectedSignature :=
        if isPackedSwitch then kPackedSwitchSignature else kSparseSwitchSignature
      let tableSize := toUnsigned 32 (targetsOffset + switchCount * 2)
      if c.insns.fetch16 start 0 ≠ expectedSignature then false
      else if toUnsigned 32 (curOffset + switchOffset + tableSize) > insnCount then false
      else if switchCount > 1 ∧ isPackedSwitch ∧
          c.tableWord start 2 > 2 ^ 31 - 1 - (toSigned 32 switchCount - 1) then false
      else if switchCount > 1 ∧ ¬isPackedSwitch ∧
          !(List.range (switchCount - 1)).all fun targ =>
            decide (c.tableWord start (2 + targ * 2) < c.tableWord start (2 + (targ + 1) * 2))
        then false
      else (List.range switchCount).all (c.switchTargetOk isOpcode curOffset start targetsOffset)

/-- `CheckVarArgRegs`: the first `vA` argument registers are below `registers_size`. -/
def checkVarArgRegs (vA : Nat) (args : List Nat) : Bool :=
  (args.take vA).all fun arg => arg < c.registersSize

/-- `CheckVarArgRangeRegs`: the range `[vC, vC + vA)` ends within the registers, the sum taken
in `uint32_t`. -/
def checkVarArgRangeRegs (vA vC : Nat) : Bool := !decide (toUnsigned 32 (vA + vC) > c.registersSize)

/-- `VerifyInstruction` of the instruction at `pc`: the check its `A`, `B`, `C` and `H` operand
flags and its extra flag select, and the rejection of runtime-only opcodes.  Operands are
converted from the `int32_t` of `VRegA`..`VRegH` to the parameter type of each check: `uint32_t`,
or `uint16_t` for a `dex::TypeIndex`. -/
def verifyInstruction (ids : IndexChecks) (isOpcode : Nat → Bool) (allowRuntimeOnly : Bool)
    (pc : Nat) : Bool :=
  let insns := c.insns
  let flags := (insns.descriptor pc).verifyFlags
  let vA := insns.vRegA pc
  let vB := (insns.vRegB pc).getD 0
  let vC := (insns.vRegC pc).getD 0
  let vH := (insns.vRegH pc).getD 0
  let argA := flags &&& (kVerifyRegA ||| kVerifyRegAWide)
  let resultA :=
    if argA = kVerifyRegA then c.checkRegisterIndex (toUnsigned 32 vA)
    else if argA = kVerifyRegAWide then c.checkWideRegisterIndex (toUnsigned 32 vA)
    else true
  -- `GetVerifyTypeArgumentB` masks out the call-site, method-handle and prototype flags, so
  -- the last three tests never hold
  let argB := flags &&& (kVerifyRegB ||| kVerifyRegBField ||| kVerifyRegBMethod |||
    kVerifyRegBNewInstance ||| kVerifyRegBString ||| kVerifyRegBType ||| kVerifyRegBWide)
  let resultB :=
    if argB = kVerifyRegB then c.checkRegisterIndex (toUnsigned 32 vB)
    else if argB = kVerifyRegBField then ids.checkFieldIndex (toUnsigned 32 vB)
    else if argB = kVerifyRegBMethod then ids.checkMethodIndex (toUnsigned 32 vB)
    else if argB = kVerifyRegBNewInstance then ids.checkNewInstance (toUnsigned 16 vB)
    else if argB = kVerifyRegBString then ids.checkStringIndex (toUnsigned 32 vB)
    else if argB = kVerifyRegBType then ids.checkTypeIndex (toUnsigned 16 vB)
    else if argB = kVerifyRegBWide then c.checkWideRegisterIndex (toUnsigned 32 vB)
    else if argB = kVerifyRegBCallSite then ids.checkCallSiteIndex (toUnsigned 32 vB)
    else if argB = kVerifyRegBMethodHandle then ids.checkMethodHandleIndex (toUnsigned 32 vB)
    else if argB = kVerifyRegBPrototype then ids.checkPrototypeIndex (toUnsigned 32 vB)
    else true
  let argC := flags &&& (kVerifyRegC ||| kVerifyRegCField ||| kVerifyRegCNewArray |||
    kVerifyRegCType ||| kVerifyRegCWide)
  let resultC :=
    if argC = kVerifyRegC then c.checkRegisterIndex (toUnsigned 32 vC)
    else if argC = kVerifyRegCField then ids.checkFieldIndex (toUnsigned 32 vC)
    else if argC = kVerifyRegCNewArray then ids.checkNewArray (toUnsigned 16 vC)
    else if argC = kVerifyRegCType then ids.checkTypeIndex (toUnsigned 16 vC)
    else if argC = kVerifyRegCWide then c.checkWideRegisterIndex (toUnsigned 32 vC)
    else true
  let resultH :=
    if flags &&& kVerifyRegHPrototype = kVerifyRegHPrototype then
      ids.checkPrototypeIndex (toUnsigned 32 vH)
    else true
  let extra := flags &&& (kVerifyArrayData ||| kVerifyBranchTarget ||| kVerifySwitchTargets |||
    kVerifyVarArg ||| kVerifyVarArgNonZero ||| kVerifyVarArgRange |||
    kVerifyVarArgRangeNonZero ||| kVerifyError)
  let resultExtra :=
    if extra = kVerifyArrayData then c.checkArrayData isOpcode pc
    else if extra = kVerifyBranchTarget then c.checkBranchTarget isOpcode pc
    else if extra = kVerifySwitchTargets then c.checkSwitchTargets isOpcode pc
    else if extra = kVerifyVarArgNonZero ∨ extra = kVerifyVarArg then
      let count := toUnsigned 32 vA
      if (extra = kVerifyVarArgNonZero ∧ count = 0) ∨ count > kMaxVarArgRegs then false
      else c.checkVarArgRegs count (insns.getVarArgs pc)
    else if extra = kVerifyVarArgRangeNonZero ∨ extra = kVerifyVarArgRange then
      if extra = kVerifyVarArgRangeNonZero ∧ vA ≤ 0 then false
      else c.checkVarArgRangeRegs (toUnsigned 32 vA) (toUnsigned 32 vC)
    else if extra = kVerifyError then false
    else true
  let runtimeOnly := !allowRuntimeOnly && flags &&& kVerifyRuntimeOnly != 0
  resultA && resultB && resultC && resultH && resultExtra && !runtimeOnly

/-- The flags `GetVerifyTypeArgumentB` keeps lie in the low nine bits. -/
theorem verifyTypeArgumentB_le (flags : Nat) :
    flags &&& (kVerifyRegB ||| kVerifyRegBField ||| kVerifyRegBMethod |||
      kVerifyRegBNewInstance ||| kVerifyRegBString ||| kVerifyRegBType ||| kVerifyRegBWide) ≤
      0x1FC :=
  Nat.and_le_right

/-- `GetVerifyTypeArgumentB` masks out `kVerifyRegBCallSite` and `kVerifyRegBMethodHandle`, so
`VerifyInstruction` never runs `CheckCallSiteIndex` or `CheckMethodHandleIndex`: the index of
an `invoke-custom` call site or of a `const-method-handle` is not checked here, whatever the
id tables say. -/
theorem verifyInstruction_ignores_callSite_and_methodHandle (ids : IndexChecks)
    (callSite methodHandle : Nat → Bool) (isOpcode : Nat → Bool) (allowRuntimeOnly : Bool)
    (pc : Nat) :
    c.verifyInstruction
        ⟨ids.checkFieldIndex, ids.checkMethodIndex, ids.checkNewInstance, ids.checkStringIndex,
          ids.checkTypeIndex, ids.checkNewArray, ids.checkPrototypeIndex, callSite, methodHandle⟩
        isOpcode allowRuntimeOnly pc =
      c.verifyInstruction ids isOpcode allowRuntimeOnly pc := by
  have hCallSite : ∀ flags : Nat, ¬(flags &&& (kVerifyRegB ||| kVerifyRegBField |||
      kVerifyRegBMethod ||| kVerifyRegBNewInstance ||| kVerifyRegBString ||| kVerifyRegBType |||
      kVerifyRegBWide) = kVerifyRegBCallSite) := by
    intro flags heq
    have := verifyTypeArgumentB_le flags
    rw [heq] at this
    simp [kVerifyRegBCallSite] at this
  have hMethodHandle : ∀ flags : Nat, ¬(flags &&& (kVerifyRegB ||| kVerifyRegBField |||
      kVerifyRegBMethod ||| kVerifyRegBNewInstance ||| kVerifyRegBString ||| kVerifyRegBType |||
      kVerifyRegBWide) = kVerifyRegBMethodHandle) := by
    intro flags heq
    have := verifyTypeArgumentB_le flags
    rw [heq] at this
    simp [kVerifyRegBMethodHandle] at this
  simp only [verifyInstruction, hCallSite, hMethodHandle, if_false]

/-! ### `VerifyInstructions` and the three passes -/

/-- The loop of `VerifyInstructions` over the code item's instructions from `pc`, stepping by
`SizeInCodeUnits` until the end iterator. -/
def verifyInstructionsLoop (ids : IndexChecks) (isOpcode : Nat → Bool)
    (allowRuntimeOnly : Bool) : Nat → Nat → Bool
  | 0, _ => false
  | fuel + 1, pc =>
    if pc = c.insnsSize then true
    else c.verifyInstruction ids isOpcode allowRuntimeOnly pc &&
      verifyInstructionsLoop ids isOpcode allowRuntimeOnly fuel (pc + c.insns.sizeInCodeUnits pc)

/-- `VerifyInstructions`. -/
def verifyInstructions (ids : IndexChecks) (isOpcode : Nat → Bool) (allowRuntimeOnly : Bool) :
    Bool :=
  c.verifyInstructionsLoop ids isOpcode allowRuntimeOnly (c.insnsSize + 1) 0

/-- `ComputeWidthsAndCountOps`, then `ScanTryCatchBlocks`, then `VerifyInstructions`, each run
only when the previous one succeeded. -/
def verifyStructure (ids : IndexChecks) (allowRuntimeOnly : Bool) : Bool :=
  match c.computeWidthsAndCountOps with
  | none => false
  | some isOpcode =>
    c.scanTryCatchBlocks isOpcode && c.verifyInstructions ids isOpcode allowRuntimeOnly

end CodeItem

/-- The index checks of a dex file without ids: every index check fails. -/
def noIds : IndexChecks :=
  ⟨fun _ => false, fun _ => false, fun _ => false, fun _ => false, fun _ => false,
    fun _ => false, fun _ => false, fun _ => false, fun _ => false⟩

/-- An eight-unit method: `fill-array-data v0, +4`, `return-void`, and at dex pc 4 an
array-data payload of element width `1` and element count `0xFFFFFFFF`, with one register and
no try items. -/
def wrappedArrayData : CodeItem where
  insns := fun i =>
    match i with
    | 0 => 0x0026 | 1 => 0x0004 | 2 => 0x0000 | 3 => 0x000E
    | 4 => 0x0300 | 5 => 0x0001 | 6 => 0xFFFF | 7 => 0xFFFF
    | _ => 0
  insnsSize := 8
  registersSize := 1
  tries := []
  catchHandlerAddresses := []
  insnsSize_lt := by decide

/-- The three structural passes accept `wrappedArrayData`, even with every index check failing:
both `CheckArrayData` and the linear decoding size the payload at four code units, since
`1 * 0xFFFFFFFF + 1` wraps to `0` in `uint32_t`, while the payload as its header describes it
spans `4 + 2^31` units and runs far past the end of the code item. -/
theorem verifyStructure_accepts_wrapped_array_data (allowRuntimeOnly : Bool) :
    wrappedArrayData.verifyStructure noIds allowRuntimeOnly = true ∧
      wrappedArrayData.insns.sizeInCodeUnits 4 = 4 ∧
      (ArrayDataPayload.read wrappedArrayData.insns 4).extent = 4 + 2 ^ 31 ∧
      wrappedArrayData.insnsSize < 4 + (ArrayDataPayload.read wrappedArrayData.insns 4).extent := by
  cases allowRuntimeOnly <;> decide +kernel

end AndroidArt.Verifier
