/-
Module: AndroidArt.Dex.EncodedValue
Purpose: The checks `DexFileVerifier` of `libdexfile/dex/dex_file_verifier.cc` makes on
  `encoded_value`, `encoded_array` and `encoded_annotation` items (`CheckEncodedValue`,
  `CheckEncodedArray`, `CheckEncodedAnnotation`, with `ReadUnsignedLittleEndian` and
  `CheckListSize`), and the extent of a complete encoding as the runtime readers
  (`EncodedArrayValueIterator`) take it.
Trusted boundary: none
Main exports: IdCounts, VerifierInput, readUnsignedLittleEndian, checkEncodedValue
-/
import AndroidArt.Base.Leb128

namespace AndroidArt.Dex

open AndroidArt.Base

/-!
The verifier walks the file with its cursor `ptr_`; positions here are offsets from `begin_`,
and the file is `[0, size)`.  A check that returns `true` is `some ptr'` with the cursor where
it left it; `false` is `none`.  The recursion of the source (`CheckEncodedValue` calls
`CheckEncodedArray` and `CheckEncodedAnnotation`, which loop over `CheckEncodedValue`) is
bounded by a fuel argument: every call and every loop round spends one unit, and every
successful `CheckEncodedValue` first reads a header byte inside the file, so `4 * size + 4`
units are never exhausted on a file of `size` bytes.
-/

/-- The id counts an encoded value is checked against: the header's `string_ids_size_`,
`type_ids_size_`, `field_ids_size_`, `method_ids_size_` and `proto_ids_size_`, and
`DexFile::NumMethodHandles`. -/
structure IdCounts where
  stringIdsSize : Nat
  typeIdsSize : Nat
  fieldIdsSize : Nat
  methodIdsSize : Nat
  protoIdsSize : Nat
  numMethodHandles : Nat
deriving Repr, DecidableEq

/-- What the encoded-value checks read: the mapped bytes, the file size `size_` and the id
counts. -/
structure VerifierInput where
  mem : Memory
  size : Nat
  ids : IdCounts

namespace VerifierInput

/-- `CheckListSize(start, count, elem_size)` for a start inside the mapped range: the range
`[start, start + count * elem_size)` ends within the file. -/
def checkListSize (d : VerifierInput) (start count elemSize : Nat) : Bool :=
  start + count * elemSize ≤ d.size

/-- The little-endian value of the `size` bytes at `ptr`. -/
def littleEndianAt (mem : Memory) (ptr : Nat) : Nat → Nat
  | 0 => 0
  | size + 1 => (mem ptr).toNat + 256 * littleEndianAt mem (ptr + 1) size

/-- `ReadUnsignedLittleEndian(size)`: when the `size` bytes at the cursor lie in the file, their
value and the cursor past them; otherwise `0` and the cursor where it was. -/
def readUnsignedLittleEndian (d : VerifierInput) (ptr size : Nat) : Nat × Nat :=
  if d.checkListSize ptr size 1 then (littleEndianAt d.mem ptr size, ptr + size) else (0, ptr)

/-- The index-carrying value kinds (`value_arg + 1` bytes read by
`ReadUnsignedLittleEndian`), with the count each index is checked against. -/
def indexLimit (d : VerifierInput) : Nat → Option Nat
  | 0x15 => some d.ids.protoIdsSize
  | 0x16 => some d.ids.numMethodHandles
  | 0x17 => some d.ids.stringIdsSize
  | 0x18 => some d.ids.typeIdsSize
  | 0x19 | 0x1b => some d.ids.fieldIdsSize
  | 0x1a => some d.ids.methodIdsSize
  | _ => none

mutual

/-- `DexFileVerifier::CheckEncodedValue` at cursor `ptr`. -/
def checkEncodedValue (d : VerifierInput) : Nat → Nat → Option Nat
  | 0, _ => none
  | fuel + 1, ptr =>
    if !d.checkListSize ptr 1 1 then none else
    let headerByte := (d.mem ptr).toNat
    let ptr := ptr + 1
    let valueType := headerByte &&& 0x1f
    let valueArg := headerByte >>> 5
    match valueType with
    | 0x00 => if valueArg != 0 then none else some (ptr + 1)
    | 0x02 | 0x03 => if valueArg > 1 then none else some (ptr + valueArg + 1)
    | 0x04 | 0x10 => if valueArg > 3 then none else some (ptr + valueArg + 1)
    | 0x06 | 0x11 => some (ptr + valueArg + 1)
    | 0x15 | 0x16 | 0x17 | 0x18 | 0x19 | 0x1a | 0x1b =>
      if valueArg > 3 then none else
      let (idx, ptr) := d.readUnsignedLittleEndian ptr (valueArg + 1)
      if idx < (d.indexLimit valueType).getD 0 then some ptr else none
    | 0x1c => if valueArg != 0 then none else checkEncodedArray d fuel ptr
    | 0x1d => if valueArg != 0 then none else checkEncodedAnnotation d fuel ptr
    | 0x1e => if valueArg != 0 then none else some ptr
    | 0x1f => if valueArg > 1 then none else some ptr
    | _ => none
termination_by structural fuel _ => fuel

/-- `DexFileVerifier::CheckEncodedArray` at cursor `ptr`. -/
def checkEncodedArray (d : VerifierInput) : Nat → Nat → Option Nat
  | 0, _ => none
  | fuel + 1, ptr =>
    match decodeUnsignedLeb128Checked d.mem d.size ptr with
    | none => none
    | some (size, ptr) => checkEncodedArrayValues d fuel size ptr
termination_by structural fuel _ => fuel

/-- The loop of `CheckEncodedArray` over its `size` values. -/
def checkEncodedArrayValues (d : VerifierInput) : Nat → Nat → Nat → Option Nat
  | 0, _, _ => none
  | _ + 1, 0, ptr => some ptr
  | fuel + 1, count + 1, ptr =>
    match checkEncodedValue d fuel ptr with
    | none => none
    | some ptr => checkEncodedArrayValues d fuel count ptr
termination_by structural fuel _ _ => fuel

/-- `DexFileVerifier::CheckEncodedAnnotation` at cursor `ptr`. -/
def checkEncodedAnnotation (d : VerifierInput) : Nat → Nat → Option Nat
  | 0, _ => none
  | fuel + 1, ptr =>
    match decodeUnsignedLeb128Checked d.mem d.size ptr with
    | none => none
    | some (annoIdx, ptr) =>
      if annoIdx ≥ d.ids.typeIdsSize then none else
      match decodeUnsignedLeb128Checked d.mem d.size ptr with
      | none => none
      | some (size, ptr) => checkAnnotationElements d fuel 0 size 0 ptr
termination_by structural fuel _ => fuel

/-- The loop of `CheckEncodedAnnotation` over its elements: element `i` of `i + remaining`,
after the name index `lastIdx`.  Names must be valid string indices in increasing order. -/
def checkAnnotationElements (d : VerifierInput) : Nat → Nat → Nat → Nat → Nat → Option Nat
  | 0, _, _, _, _ => none
  | _ + 1, _, 0, _, ptr => some ptr
  | fuel + 1, i, remaining + 1, lastIdx, ptr =>
    match decodeUnsignedLeb128Checked d.mem d.size ptr with
    | none => none
    | some (idx, ptr) =>
      if idx ≥ d.ids.stringIdsSize then none
      else if lastIdx ≥ idx && i != 0 then none
      else
        match checkEncodedValue d fuel ptr with
        | none => none
        | some ptr => checkAnnotationElements d fuel (i + 1) remaining idx ptr
termination_by structural fuel _ _ _ _ => fuel

end

/-- The fuel that bounds the checks on a file of `size` bytes. -/
def checkFuel (d : VerifierInput) : Nat := 4 * d.size + 4

end VerifierInput

/-!
The extent of a complete encoding, as the runtime readers take it: a header byte, then
`value_arg + 1` bytes for every sized kind and none for `null` and `boolean`; an array is a
ULEB128 count and that many values; an annotation a ULEB128 type index, a ULEB128 count and that
many pairs of a ULEB128 name index and a value.  No bound is checked: this is where a reader
stops, wherever the bytes are.
-/

mutual

/-- The end of the complete encoded value at `ptr`; `none` for a header with no value kind. -/
def encodedValueEnd (mem : Memory) : Nat → Nat → Option Nat
  | 0, _ => none
  | fuel + 1, ptr =>
    let headerByte := (mem ptr).toNat
    let valueType := headerByte &&& 0x1f
    let valueArg := headerByte >>> 5
    match valueType with
    | 0x00 | 0x02 | 0x03 | 0x04 | 0x06 | 0x10 | 0x11 | 0x15 | 0x16 | 0x17 | 0x18 | 0x19
    | 0x1a | 0x1b => some (ptr + 1 + valueArg + 1)
    | 0x1c => encodedArrayEnd mem fuel (ptr + 1)
    | 0x1d => encodedAnnotationEnd mem fuel (ptr + 1)
    | 0x1e | 0x1f => some (ptr + 1)
    | _ => none
termination_by structural fuel _ => fuel

/-- The end of the complete `encoded_array` at `ptr`. -/
def encodedArrayEnd (mem : Memory) : Nat → Nat → Option Nat
  | 0, _ => none
  | fuel + 1, ptr =>
    let (size, ptr) := decodeUnsignedLeb128 mem ptr
    encodedValuesEnd mem fuel size ptr
termination_by structural fuel _ => fuel

/-- The end of `count` consecutive encoded values at `ptr`. -/
def encodedValuesEnd (mem : Memory) : Nat → Nat → Nat → Option Nat
  | 0, _, _ => none
  | _ + 1, 0, ptr => some ptr
  | fuel + 1, count + 1, ptr =>
    match encodedValueEnd mem fuel ptr with
    | none => none
    | some ptr => encodedValuesEnd mem fuel count ptr
termination_by structural fuel _ _ => fuel

/-- The end of the complete `encoded_annotation` at `ptr`. -/
def encodedAnnotationEnd (mem : Memory) : Nat → Nat → Option Nat
  | 0, _ => none
  | fuel + 1, ptr =>
    let (_, ptr) := decodeUnsignedLeb128 mem ptr
    let (size, ptr) := decodeUnsignedLeb128 mem ptr
    encodedElementsEnd mem fuel size ptr
termination_by structural fuel _ => fuel

/-- The end of `count` consecutive annotation elements at `ptr`. -/
def encodedElementsEnd (mem : Memory) : Nat → Nat → Nat → Option Nat
  | 0, _, _ => none
  | _ + 1, 0, ptr => some ptr
  | fuel + 1, count + 1, ptr =>
    let (_, ptr) := decodeUnsignedLeb128 mem ptr
    match encodedValueEnd mem fuel ptr with
    | none => none
    | some ptr => encodedElementsEnd mem fuel count ptr
termination_by structural fuel _ _ => fuel

end

/-- A two-byte file holding an `encoded_array` of one `string` value whose one index byte is
missing: count `0x01`, header `0x17` (`kDexAnnotationString`, `value_arg` 0), with one string
id. -/
def truncatedStringArray : VerifierInput where
  mem := fun i => if i = 0 then 0x01 else if i = 1 then 0x17 else 0
  size := 2
  ids := { stringIdsSize := 1, typeIdsSize := 0, fieldIdsSize := 0, methodIdsSize := 0,
           protoIdsSize := 0, numMethodHandles := 0 }

/-- `CheckEncodedArray` accepts `truncatedStringArray` with the cursor at the end of the file,
because `ReadUnsignedLittleEndian` answers a failed range check with the index `0`, which is
valid, and leaves the cursor where it was; the complete encoding ends one byte past the file. -/
theorem checkEncodedArray_accepts_truncated_string :
    truncatedStringArray.checkEncodedArray truncatedStringArray.checkFuel 0 = some 2 ∧
      encodedArrayEnd truncatedStringArray.mem truncatedStringArray.checkFuel 0 = some 3 ∧
      truncatedStringArray.size < 3 := by
  decide

end AndroidArt.Dex
