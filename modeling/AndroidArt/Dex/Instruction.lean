/-
Module: AndroidArt.Dex.Instruction
Purpose: Dex bytecode as `libdexfile/dex/dex_instruction.h` reads it: the instruction formats,
  the per-opcode descriptors of `dex_instruction_list.h` (format and verifier flags), the size of
  an instruction in code units including the variable-length payloads of
  `SizeInCodeUnitsComplexOpcode`, the operand accessors `VRegA`, `VRegB`, `VRegC`, `VRegH` and
  `GetVarArgs`, and one step of `SafeDexInstructionIterator`.
Trusted boundary: none
Main exports: Format, InstructionDescriptor, instructionDescriptors, CodeUnits
-/
import AndroidArt.Lib.MachineInt

namespace AndroidArt.Dex

open AndroidArt.Lib

/-!
An instruction is read from the 16-bit code units of a method's `insns`, indexed by dex pc.
The first unit holds the opcode in its low byte and the operands `A`/`AA` and `B` in its high
byte; later units hold wider operands.  Every accessor of the source that returns a signed
type is modelled by `toSigned` of the bits it reads, and every conversion of such a value to an
unsigned parameter by `toUnsigned`.
-/

/-- `Instruction::Format`, in the order of its enumerators. -/
inductive Format where
  | k10x | k12x | k11n | k11x | k10t | k20t | k22x | k21t | k21s | k21h | k21c | k23x | k22b
  | k22t | k22s | k22c | k32x | k30t | k31t | k31i | k31c | k35c | k3rc | k45cc | k4rcc | k51l
deriving Repr, DecidableEq, Inhabited

/-- The size in code units of the instructions of a format: the ranges `k10x..k10t`,
`k20t..k22c`, `k32x..k3rc`, `k45cc..k4rcc` and `k51l` of `InstructionSizeInCodeUnitsByOpcode`. -/
def Format.sizeInCodeUnits : Format → Nat
  | .k10x | .k12x | .k11n | .k11x | .k10t => 1
  | .k20t | .k22x | .k21t | .k21s | .k21h | .k21c | .k23x | .k22b | .k22t | .k22s | .k22c => 2
  | .k32x | .k30t | .k31t | .k31i | .k31c | .k35c | .k3rc => 3
  | .k45cc | .k4rcc => 4
  | .k51l => 5

namespace Instruction

/-! `Instruction::VerifyFlag`, a bit set. -/

def kVerifyNothing : Nat := 0x0000000
def kVerifyRegA : Nat := 0x0000001
def kVerifyRegAWide : Nat := 0x0000002
def kVerifyRegB : Nat := 0x0000004
def kVerifyRegBField : Nat := 0x0000008
def kVerifyRegBMethod : Nat := 0x0000010
def kVerifyRegBNewInstance : Nat := 0x0000020
def kVerifyRegBString : Nat := 0x0000040
def kVerifyRegBType : Nat := 0x0000080
def kVerifyRegBWide : Nat := 0x0000100
def kVerifyRegC : Nat := 0x0000200
def kVerifyRegCField : Nat := 0x0000400
def kVerifyRegCNewArray : Nat := 0x0000800
def kVerifyRegCType : Nat := 0x0001000
def kVerifyRegCWide : Nat := 0x0002000
def kVerifyArrayData : Nat := 0x0004000
def kVerifyBranchTarget : Nat := 0x0008000
def kVerifySwitchTargets : Nat := 0x0010000
def kVerifyVarArg : Nat := 0x0020000
def kVerifyVarArgNonZero : Nat := 0x0040000
def kVerifyVarArgRange : Nat := 0x0080000
def kVerifyVarArgRangeNonZero : Nat := 0x0100000
def kVerifyRuntimeOnly : Nat := 0x0200000
def kVerifyError : Nat := 0x0400000
def kVerifyRegHPrototype : Nat := 0x0800000
def kVerifyRegBCallSite : Nat := 0x1000000
def kVerifyRegBMethodHandle : Nat := 0x2000000
def kVerifyRegBPrototype : Nat := 0x4000000

/-- The signatures of the payload pseudo-instructions, all with the `NOP` opcode `0x00`. -/
def kPackedSwitchSignature : Nat := 0x0100
def kSparseSwitchSignature : Nat := 0x0200
def kArrayDataSignature : Nat := 0x0300

/-- The most registers a non-range invoke names. -/
def kMaxVarArgRegs : Nat := 5

end Instruction

open Instruction

/-- The part of `Instruction::InstructionDescriptor` that decoding and the structural checks
read: the verifier flags and the format.  The size field is derived from the format. -/
structure InstructionDescriptor where
  verifyFlags : Nat
  format : Format
deriving Repr, DecidableEq

/-- `kInstructionDescriptors`, one entry per opcode of `DEX_INSTRUCTION_LIST`; runs of opcodes
with the same format and flags share a line. -/
def instructionDescriptors : Nat → InstructionDescriptor
  | 0x00 | 0x0E | 0x73 => ⟨kVerifyNothing, .k10x⟩
  | 0x01 | 0x07 => ⟨kVerifyRegA ||| kVerifyRegB, .k12x⟩
  | 0x02 | 0x08 => ⟨kVerifyRegA ||| kVerifyRegB, .k22x⟩
  | 0x03 | 0x09 => ⟨kVerifyRegA ||| kVerifyRegB, .k32x⟩
  | 0x04 => ⟨kVerifyRegAWide ||| kVerifyRegBWide, .k12x⟩
  | 0x05 => ⟨kVerifyRegAWide ||| kVerifyRegBWide, .k22x⟩
  | 0x06 => ⟨kVerifyRegAWide ||| kVerifyRegBWide, .k32x⟩
  | 0x0A | 0x0C | 0x0D | 0x0F | 0x11 | 0x1D | 0x1E | 0x27 => ⟨kVerifyRegA, .k11x⟩
  | 0x0B | 0x10 => ⟨kVerifyRegAWide, .k11x⟩
  | 0x12 => ⟨kVerifyRegA, .k11n⟩
  | 0x13 => ⟨kVerifyRegA, .k21s⟩
  | 0x14 => ⟨kVerifyRegA, .k31i⟩
  | 0x15 => ⟨kVerifyRegA, .k21h⟩
  | 0x16 => ⟨kVerifyRegAWide, .k21s⟩
  | 0x17 => ⟨kVerifyRegAWide, .k31i⟩
  | 0x18 => ⟨kVerifyRegAWide, .k51l⟩
  | 0x19 => ⟨kVerifyRegAWide, .k21h⟩
  | 0x1A => ⟨kVerifyRegA ||| kVerifyRegBString, .k21c⟩
  | 0x1B => ⟨kVerifyRegA ||| kVerifyRegBString, .k31c⟩
  | 0x1C | 0x1F => ⟨kVerifyRegA ||| kVerifyRegBType, .k21c⟩
  | 0x20 => ⟨kVerifyRegA ||| kVerifyRegB ||| kVerifyRegCType, .k22c⟩
  | 0x21 => ⟨kVerifyRegA ||| kVerifyRegB, .k12x⟩
  | 0x22 => ⟨kVerifyRegA ||| kVerifyRegBNewInstance, .k21c⟩
  | 0x23 => ⟨kVerifyRegA ||| kVerifyRegB ||| kVerifyRegCNewArray, .k22c⟩
  | 0x24 => ⟨kVerifyRegBType ||| kVerifyVarArg, .k35c⟩
  | 0x25 => ⟨kVerifyRegBType ||| kVerifyVarArgRange, .k3rc⟩
  | 0x26 => ⟨kVerifyRegA ||| kVerifyArrayData, .k31t⟩
  | 0x28 => ⟨kVerifyBranchTarget, .k10t⟩
  | 0x29 => ⟨kVerifyBranchTarget, .k20t⟩
  | 0x2A => ⟨kVerifyBranchTarget, .k30t⟩
  | 0x2B | 0x2C => ⟨kVerifyRegA ||| kVerifySwitchTargets, .k31t⟩
  | 0x2D | 0x2E => ⟨kVerifyRegA ||| kVerifyRegB ||| kVerifyRegC, .k23x⟩
  | 0x2F | 0x30 | 0x31 => ⟨kVerifyRegA ||| kVerifyRegBWide ||| kVerifyRegCWide, .k23x⟩
  | 0x32 | 0x33 | 0x34 | 0x35 | 0x36 | 0x37 =>
    ⟨kVerifyRegA ||| kVerifyRegB ||| kVerifyBranchTarget, .k22t⟩
  | 0x38 | 0x39 | 0x3A | 0x3B | 0x3C | 0x3D => ⟨kVerifyRegA ||| kVerifyBranchTarget, .k21t⟩
  | 0x44 | 0x46 | 0x47 | 0x48 | 0x49 | 0x4A | 0x4B | 0x4D | 0x4E | 0x4F | 0x50 | 0x51
  | 0x90 | 0x91 | 0x92 | 0x93 | 0x94 | 0x95 | 0x96 | 0x97 | 0x98 | 0x99 | 0x9A
  | 0xA6 | 0xA7 | 0xA8 | 0xA9 | 0xAA => ⟨kVerifyRegA ||| kVerifyRegB ||| kVerifyRegC, .k23x⟩
  | 0x45 | 0x4C => ⟨kVerifyRegAWide ||| kVerifyRegB ||| kVerifyRegC, .k23x⟩
  | 0x52 | 0x54 | 0x55 | 0x56 | 0x57 | 0x58 | 0x59 | 0x5B | 0x5C | 0x5D | 0x5E | 0x5F =>
    ⟨kVerifyRegA ||| kVerifyRegB ||| kVerifyRegCField, .k22c⟩
  | 0x53 | 0x5A => ⟨kVerifyRegAWide ||| kVerifyRegB ||| kVerifyRegCField, .k22c⟩
  | 0x60 | 0x62 | 0x63 | 0x64 | 0x65 | 0x66 | 0x67 | 0x69 | 0x6A | 0x6B | 0x6C | 0x6D =>
    ⟨kVerifyRegA ||| kVerifyRegBField, .k21c⟩
  | 0x61 | 0x68 => ⟨kVerifyRegAWide ||| kVerifyRegBField, .k21c⟩
  | 0x6E | 0x6F | 0x70 | 0x72 => ⟨kVerifyRegBMethod ||| kVerifyVarArgNonZero, .k35c⟩
  | 0x71 => ⟨kVerifyRegBMethod ||| kVerifyVarArg, .k35c⟩
  | 0x74 | 0x75 | 0x76 | 0x78 => ⟨kVerifyRegBMethod ||| kVerifyVarArgRangeNonZero, .k3rc⟩
  | 0x77 => ⟨kVerifyRegBMethod ||| kVerifyVarArgRange, .k3rc⟩
  | 0x7B | 0x7C | 0x7F | 0x82 | 0x87 | 0x8D | 0x8E | 0x8F
  | 0xB0 | 0xB1 | 0xB2 | 0xB3 | 0xB4 | 0xB5 | 0xB6 | 0xB7 | 0xB8 | 0xB9 | 0xBA
  | 0xC6 | 0xC7 | 0xC8 | 0xC9 | 0xCA => ⟨kVerifyRegA ||| kVerifyRegB, .k12x⟩
  | 0x7D | 0x7E | 0x80 | 0x86 | 0x8B
  | 0xBB | 0xBC | 0xBD | 0xBE | 0xBF | 0xC0 | 0xC1 | 0xC2
  | 0xCB | 0xCC | 0xCD | 0xCE | 0xCF => ⟨kVerifyRegAWide ||| kVerifyRegBWide, .k12x⟩
  | 0x81 | 0x83 | 0x88 | 0x89 | 0xC3 | 0xC4 | 0xC5 => ⟨kVerifyRegAWide ||| kVerifyRegB, .k12x⟩
  | 0x84 | 0x85 | 0x8A | 0x8C => ⟨kVerifyRegA ||| kVerifyRegBWide, .k12x⟩
  | 0x9B | 0x9C | 0x9D | 0x9E | 0x9F | 0xA0 | 0xA1 | 0xA2
  | 0xAB | 0xAC | 0xAD | 0xAE | 0xAF =>
    ⟨kVerifyRegAWide ||| kVerifyRegBWide ||| kVerifyRegCWide, .k23x⟩
  | 0xA3 | 0xA4 | 0xA5 => ⟨kVerifyRegAWide ||| kVerifyRegBWide ||| kVerifyRegC, .k23x⟩
  | 0xD0 | 0xD1 | 0xD2 | 0xD3 | 0xD4 | 0xD5 | 0xD6 | 0xD7 => ⟨kVerifyRegA ||| kVerifyRegB, .k22s⟩
  | 0xD8 | 0xD9 | 0xDA | 0xDB | 0xDC | 0xDD | 0xDE | 0xDF | 0xE0 | 0xE1 | 0xE2 =>
    ⟨kVerifyRegA ||| kVerifyRegB, .k22b⟩
  | 0xE3 | 0xE5 | 0xE6 | 0xE8 | 0xEB | 0xEC | 0xED | 0xEE | 0xEF | 0xF0 | 0xF1 | 0xF2 =>
    ⟨kVerifyRegA ||| kVerifyRegB ||| kVerifyRuntimeOnly, .k22c⟩
  | 0xE4 | 0xE7 => ⟨kVerifyRegAWide ||| kVerifyRegB ||| kVerifyRuntimeOnly, .k22c⟩
  | 0xE9 => ⟨kVerifyVarArgNonZero ||| kVerifyRuntimeOnly, .k35c⟩
  | 0xEA => ⟨kVerifyVarArgRangeNonZero ||| kVerifyRuntimeOnly, .k3rc⟩
  | 0xFA => ⟨kVerifyRegBMethod ||| kVerifyVarArgNonZero ||| kVerifyRegHPrototype, .k45cc⟩
  | 0xFB => ⟨kVerifyRegBMethod ||| kVerifyVarArgRangeNonZero ||| kVerifyRegHPrototype, .k4rcc⟩
  | 0xFC => ⟨kVerifyRegBCallSite ||| kVerifyVarArg, .k35c⟩
  | 0xFD => ⟨kVerifyRegBCallSite ||| kVerifyVarArgRange, .k3rc⟩
  | 0xFE => ⟨kVerifyRegA ||| kVerifyRegBMethodHandle, .k21c⟩
  | 0xFF => ⟨kVerifyRegA ||| kVerifyRegBPrototype, .k21c⟩
  -- `UNUSED_3E..43`, `UNUSED_79..7A` and `UNUSED_F3..F9`; an opcode is a byte, so no other
  -- value reaches this line.
  | _ => ⟨kVerifyError, .k10x⟩

/-- `InstructionSizeInCodeUnitsByOpcode`: the fixed size of an opcode, or `none` (the source's
`-1`) for `NOP`, whose payload forms have a size read from their header. -/
def instructionSizeInCodeUnitsByOpcode (opcode : Nat) : Option Nat :=
  if opcode = 0x00 then none else some (instructionDescriptors opcode).format.sizeInCodeUnits

/-- The code units of a method from `insns` on.  Units at or past `insns_size_in_code_units`
are whatever follows in the file. -/
abbrev CodeUnits := Nat → UInt16

namespace CodeUnits

variable (insns : CodeUnits)

/-- `Fetch16(i)` of the instruction at dex pc `pc`. -/
def fetch16 (pc i : Nat) : Nat := (insns (pc + i)).toNat

/-- `Fetch32(i)`: two units, low half first. -/
def fetch32 (pc i : Nat) : Nat := insns.fetch16 pc i ||| (insns.fetch16 pc (i + 1) <<< 16)

/-- `Opcode()`: the low byte of the first unit. -/
def opcode (pc : Nat) : Nat := insns.fetch16 pc 0 &&& 0xff

/-- The descriptor of the instruction at `pc`. -/
def descriptor (pc : Nat) : InstructionDescriptor := instructionDescriptors (insns.opcode pc)

/-- `InstA`, `InstB` and `InstAA` of the first unit. -/
def instA (pc : Nat) : Nat := (insns.fetch16 pc 0 >>> 8) &&& 0x0f
def instB (pc : Nat) : Nat := insns.fetch16 pc 0 >>> 12
def instAA (pc : Nat) : Nat := insns.fetch16 pc 0 >>> 8

/-- `SizeInCodeUnitsComplexOpcode`: the size of a `NOP` or a payload from its header.  The
array-data size is computed in `uint32_t`: `element_size * length + 1` wraps modulo `2^32`.
The source aborts on a first unit whose low byte is not zero; it is only called for `NOP`,
whose low byte is zero, so that branch is the last line here. -/
def sizeInCodeUnitsComplexOpcode (pc : Nat) : Nat :=
  let insn := insns.fetch16 pc 0
  if insn = kPackedSwitchSignature then 4 + insns.fetch16 pc 1 * 2
  else if insn = kSparseSwitchSignature then 2 + insns.fetch16 pc 1 * 4
  else if insn = kArrayDataSignature then
    let elementSize := insns.fetch16 pc 1
    let length := insns.fetch16 pc 2 ||| (insns.fetch16 pc 3 <<< 16)
    4 + toUnsigned 32 (toUnsigned 32 (elementSize * length) + 1) / 2
  else 1

/-- `CodeUnitsRequiredForSizeOfComplexOpcode`: how much of a payload header must be read to
know its size. -/
def codeUnitsRequiredForSizeOfComplexOpcode (pc : Nat) : Nat :=
  let insn := insns.fetch16 pc 0
  if insn = kPackedSwitchSignature ∨ insn = kSparseSwitchSignature then 2
  else if insn = kArrayDataSignature then 4
  else 1

/-- `SizeInCodeUnits`. -/
def sizeInCodeUnits (pc : Nat) : Nat :=
  match instructionSizeInCodeUnitsByOpcode (insns.opcode pc) with
  | some size => size
  | none => insns.sizeInCodeUnitsComplexOpcode pc

/-- `CodeUnitsRequiredForSizeComputation`. -/
def codeUnitsRequiredForSizeComputation (pc : Nat) : Nat :=
  match instructionSizeInCodeUnitsByOpcode (insns.opcode pc) with
  | some _ => 1
  | none => insns.codeUnitsRequiredForSizeOfComplexOpcode pc

/-- `SafeDexInstructionIterator::operator++` from the instruction at `pc` of a code item of
`numCodeUnits` units: the next dex pc, or `none` for the error state, entered when the size or
the instruction itself would reach past the end. -/
def safeNext (numCodeUnits pc : Nat) : Option Nat :=
  let available := numCodeUnits - pc
  if insns.codeUnitsRequiredForSizeComputation pc > available then none
  else if insns.sizeInCodeUnits pc > available then none
  else some (pc + insns.sizeInCodeUnits pc)

/-- Every instruction occupies at least one code unit. -/
theorem sizeInCodeUnits_pos (pc : Nat) : 0 < insns.sizeInCodeUnits pc := by
  unfold sizeInCodeUnits instructionSizeInCodeUnitsByOpcode
  split
  · rename_i size hsize
    split_ifs at hsize with hnop
    cases hsize
    cases (instructionDescriptors (insns.opcode pc)).format <;> decide
  · unfold sizeInCodeUnitsComplexOpcode
    dsimp only
    split_ifs <;> omega

/-- A step of the safe iterator moves past the whole instruction and stays within the code
item. -/
theorem safeNext_eq_some {numCodeUnits pc next : Nat}
    (h : insns.safeNext numCodeUnits pc = some next) :
    next = pc + insns.sizeInCodeUnits pc ∧ pc < next ∧ next ≤ numCodeUnits := by
  have hpos := insns.sizeInCodeUnits_pos pc
  unfold safeNext at h
  dsimp only at h
  split_ifs at h with hreq hsize
  cases h
  omega

/-- `VRegA()`: the `A` operand of every format, as the `int32_t` the source returns. -/
def vRegA (pc : Nat) : Int :=
  match (insns.descriptor pc).format with
  | .k10t => toSigned 8 (insns.instAA pc)
  | .k20t => toSigned 16 (insns.fetch16 pc 1)
  | .k30t => toSigned 32 (insns.fetch32 pc 1)
  | .k32x => insns.fetch16 pc 1
  | .k11n | .k12x | .k22c | .k22s | .k22t => insns.instA pc
  | .k35c | .k45cc => insns.instB pc
  | .k10x | .k11x | .k21c | .k21h | .k21s | .k21t | .k22b | .k22x | .k23x | .k31c | .k31i
  | .k31t | .k3rc | .k4rcc | .k51l => insns.instAA pc

/-- `VRegB()`; `none` for the formats without a `B` operand, where the source aborts. -/
def vRegB (pc : Nat) : Option Int :=
  match (insns.descriptor pc).format with
  | .k11n => some (toSigned 4 (insns.instB pc))
  | .k12x | .k22c | .k22s | .k22t => some (insns.instB pc)
  | .k21c | .k21h | .k22x | .k35c | .k3rc | .k45cc | .k4rcc => some (insns.fetch16 pc 1)
  | .k21s | .k21t => some (toSigned 16 (insns.fetch16 pc 1))
  | .k22b | .k23x => some ((insns.fetch16 pc 1 &&& 0xff : Nat) : Int)
  | .k31c | .k31i | .k31t => some (toSigned 32 (insns.fetch32 pc 1))
  | .k32x => some (insns.fetch16 pc 2)
  | .k51l => some (toSigned 32 (insns.fetch32 pc 1 ||| (insns.fetch32 pc 3 <<< 32)))
  | .k10x | .k11x | .k10t | .k20t | .k30t => none

/-- `VRegC()`; `none` for the formats without a `C` operand. -/
def vRegC (pc : Nat) : Option Int :=
  match (insns.descriptor pc).format with
  | .k22b => some (toSigned 8 (insns.fetch16 pc 1 >>> 8))
  | .k22c => some (insns.fetch16 pc 1)
  | .k3rc | .k4rcc => some (insns.fetch16 pc 2)
  | .k22s | .k22t => some (toSigned 16 (insns.fetch16 pc 1))
  | .k23x => some (insns.fetch16 pc 1 >>> 8)
  | .k35c | .k45cc => some ((insns.fetch16 pc 2 &&& 0x0f : Nat) : Int)
  | .k10x | .k12x | .k11n | .k11x | .k10t | .k20t | .k22x | .k21t | .k21s | .k21h | .k21c
  | .k32x | .k30t | .k31t | .k31i | .k31c | .k51l => none

/-- `VRegH()`; `none` for the formats without an `H` operand. -/
def vRegH (pc : Nat) : Option Int :=
  match (insns.descriptor pc).format with
  | .k45cc | .k4rcc => some (insns.fetch16 pc 3)
  | _ => none

/-- `GetVarArgs`: the argument registers of a `35c` or `45cc` instruction, the count taken
from `B`.  The source fills the first `count` entries for a count up to five; the verifier
rejects a larger count before it asks. -/
def getVarArgs (pc : Nat) : List Nat :=
  let regList := insns.fetch16 pc 2
  [regList &&& 0x0f, (regList >>> 4) &&& 0x0f, (regList >>> 8) &&& 0x0f,
    (regList >>> 12) &&& 0x0f, insns.instA pc].take (insns.instB pc)

end CodeUnits

/-- The header of a fill-array-data payload, `Instruction::ArrayDataPayload`: element width and
count, followed by the data. -/
structure ArrayDataPayload where
  elementWidth : Nat
  elementCount : Nat
deriving Repr, DecidableEq

namespace ArrayDataPayload

/-- The header of the payload at `start`: the width in unit `1`, the count in units `2..3`. -/
def read (insns : CodeUnits) (start : Nat) : ArrayDataPayload :=
  ⟨insns.fetch16 start 1, insns.fetch32 start 2⟩

/-- The code units a payload occupies as the runtime reads it: four units of header and
`elementWidth * elementCount` bytes of data, rounded up to whole units.  This is the extent of
the dex format, computed without wrap-around. -/
def extent (p : ArrayDataPayload) : Nat := 4 + (p.elementWidth * p.elementCount + 1) / 2

end ArrayDataPayload

end AndroidArt.Dex
