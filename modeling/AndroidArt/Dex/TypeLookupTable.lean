/-
Module: AndroidArt.Dex.TypeLookupTable
Purpose: `libdexfile/dex/type_lookup_table.{h,cc}`: the hash table from class descriptors to
  class def indices that `Create` builds and the runtime re-opens from raw data with `Open`.
Trusted boundary: a shift of a `uint32_t` by 32, which C++ leaves undefined, is taken modulo 32,
  as the arm64 and x86-64 shift instructions take it and as `UInt32` shifts do. The dex file is
  given by its class defs, each with the string data offset and the bytes of its descriptor, and
  `GetStringData` by the bytes at an offset. The loops of `Create` and `Lookup` run on a fuel and
  return `none` when it runs out.
Main exports: Entry, TypeLookupTable, create, openTable
-/
import AndroidArt.Dex.UtfConvert
import AndroidArt.Lib.BitString

namespace AndroidArt.Dex

open AndroidArt.Lib

/-- `dex::kDexNoIndex`. -/
def kDexNoIndex : UInt32 := 0xFFFFFFFF

namespace TypeLookupTable

/-- `Entry::GetMask(mask_bits)`: the `mask_bits` low bits. -/
def getMask (maskBits : UInt32) : UInt32 := ~~~(0xFFFFFFFF <<< maskBits)

/-- `TypeLookupTable::Entry`: the string data offset, `0` for an empty entry, and the word of
the next position delta, the class def index and hash bits. -/
structure Entry where
  strOffset : UInt32
  data : UInt32
deriving DecidableEq, Repr

namespace Entry

/-- `Entry()`. -/
def empty : Entry := ⟨0, 0⟩

/-- `Entry(str_offset, hash, class_def_index, mask_bits)`: the last entry of its chain. -/
def make (strOffset hash classDefIndex maskBits : UInt32) : Entry :=
  ⟨strOffset, ((hash &&& ~~~(getMask maskBits)) ||| classDefIndex) <<< maskBits⟩

variable (e : Entry) (maskBits : UInt32)

/-- `SetNextPosDelta(next_pos_delta, mask_bits)`. -/
def setNextPosDelta (nextPosDelta : UInt32) : Entry := { e with data := e.data ||| nextPosDelta }

/-- `IsEmpty()`. -/
def isEmpty : Bool := e.strOffset == 0

/-- `GetNextPosDelta(mask_bits)`. -/
def getNextPosDelta : UInt32 := e.data &&& getMask maskBits

/-- `IsLast(mask_bits)`. -/
def isLast : Bool := e.getNextPosDelta maskBits == 0

/-- `GetClassDefIdx(mask_bits)`. -/
def getClassDefIdx : UInt32 := (e.data >>> maskBits) &&& getMask maskBits

/-- `GetHashBits(mask_bits)`. -/
def getHashBits : UInt32 := e.data >>> (2 * maskBits)

end Entry

/-- `SupportedSize(num_class_defs)`. -/
def supportedSize (numClassDefs : Nat) : Bool := numClassDefs != 0 && numClassDefs ≤ 65535

/-- `CalculateMaskBits(num_class_defs)`: enough bits for the largest class def index. -/
def calculateMaskBits (numClassDefs : Nat) : UInt32 :=
  if supportedSize numClassDefs then UInt32.ofNat (minimumBitsToStore (numClassDefs - 1)) else 0

end TypeLookupTable

/-- A `TypeLookupTable`: `mask_bits_` and the `2 ^ mask_bits_` entries; no entries for the
invalid table. -/
structure TypeLookupTable where
  maskBits : UInt32
  entries : List TypeLookupTable.Entry

/-- What `Create` reads of a class def: the `string_data_off_` of its descriptor's string id
and the bytes of the descriptor. -/
structure ClassDefString where
  stringDataOff : UInt32
  descriptor : List UInt8

namespace TypeLookupTable

open Entry

variable (t : TypeLookupTable)

/-- `entries_[pos]`. -/
def entryAt (pos : UInt32) : Entry := t.entries.getD pos.toNat Entry.empty

/-! ### `Create` -/

section Create

variable (maskBits : UInt32)

/-- The first stage of `Create`: every class def goes to its home position `hash & mask` if that
is empty, and is put aside for the second stage if not. -/
def placeHome (entries : List Entry) (conflicts : List Nat) :
    List (ClassDefString × Nat) → List Entry × List Nat
  | [] => (entries, conflicts)
  | (classDef, classDefIdx) :: rest =>
    let hash := computeModifiedUtf8Hash classDef.descriptor
    let pos := (hash &&& getMask maskBits).toNat
    if (entries.getD pos Entry.empty).isEmpty then
      placeHome (entries.set pos (Entry.make classDef.stringDataOff hash
        (UInt32.ofNat classDefIdx) maskBits)) conflicts rest
    else placeHome entries (conflicts ++ [classDefIdx]) rest

/-- The walk of the second stage to the last entry of a chain. -/
def findTail (entries : List Entry) : Nat → UInt32 → Option UInt32
  | 0, _ => none
  | fuel + 1, tailPos =>
    let entry := entries.getD tailPos.toNat Entry.empty
    if entry.isLast maskBits then some tailPos
    else findTail entries fuel ((tailPos + entry.getNextPosDelta maskBits) &&& getMask maskBits)

/-- The `do ... while` of the second stage to the next empty entry after `insertPos`. -/
def findEmpty (entries : List Entry) : Nat → UInt32 → Option UInt32
  | 0, _ => none
  | fuel + 1, insertPos =>
    let insertPos := (insertPos + 1) &&& getMask maskBits
    if (entries.getD insertPos.toNat Entry.empty).isEmpty then some insertPos
    else findEmpty entries fuel insertPos

/-- The second stage of `Create` for one class def put aside: it goes to the first empty entry
after the tail of the chain of its home position, and the tail points to it. -/
def placeConflict (classDefs : List ClassDefString) (entries : List Entry) (classDefIdx : Nat) :
    Option (List Entry) := do
  let classDef := classDefs.getD classDefIdx ⟨0, []⟩
  let hash := computeModifiedUtf8Hash classDef.descriptor
  let size := 2 ^ maskBits.toNat
  let tailPos ← findTail maskBits entries size (hash &&& getMask maskBits)
  let insertPos ← findEmpty maskBits entries size tailPos
  let entries := entries.set insertPos.toNat
    (Entry.make classDef.stringDataOff hash (UInt32.ofNat classDefIdx) maskBits)
  let tail := entries.getD tailPos.toNat Entry.empty
  some (entries.set tailPos.toNat
    (tail.setNextPosDelta ((insertPos - tailPos) &&& getMask maskBits)))

end Create

/-- `TypeLookupTable::Create(dex_file)`: the invalid table for an unsupported number of class
defs; otherwise `2 ^ mask_bits` entries filled in two stages. -/
def create (classDefs : List ClassDefString) : Option TypeLookupTable :=
  if !supportedSize classDefs.length then some ⟨0, []⟩
  else
    let maskBits := calculateMaskBits classDefs.length
    let (entries, conflicts) := placeHome maskBits
      (List.replicate (2 ^ maskBits.toNat) Entry.empty) [] classDefs.zipIdx
    (conflicts.foldlM (placeConflict maskBits classDefs) entries).map fun entries =>
      ⟨maskBits, entries⟩

/-- `TypeLookupTable::Open(dex_data_pointer, raw_data, num_class_defs)`: the entries as they
were written, and the mask bits of the number of class defs. -/
def openTable (rawData : List Entry) (numClassDefs : Nat) : TypeLookupTable :=
  ⟨calculateMaskBits numClassDefs, rawData⟩

theorem maskBits_create {classDefs : List ClassDefString} {table : TypeLookupTable}
    (h : create classDefs = some table) (hsize : supportedSize classDefs.length) :
    table.maskBits = calculateMaskBits classDefs.length := by
  unfold create at h
  rw [if_neg (by simp [hsize])] at h
  obtain ⟨entries, -, rfl⟩ := Option.map_eq_some_iff.mp h
  rfl

/-! ### `Lookup` -/

section Lookup

variable (stringAt : UInt32 → List UInt8) (str : List UInt8) (hash comparedHashBits : UInt32)

/-- `ModifiedUtf8StringEquals(lhs, rhs)`. -/
def modifiedUtf8StringEquals (lhs rhs : List UInt8) : Bool :=
  compareModifiedUtf8ToModifiedUtf8AsUtf16CodePointValues lhs rhs == 0

/-- The `do ... while` of `Lookup` over the rest of the chain after the entry at `pos`. -/
def lookupRest : Nat → UInt32 → Option UInt32
  | 0, _ => none
  | fuel + 1, pos =>
    let pos := (pos + (t.entryAt pos).getNextPosDelta t.maskBits) &&& getMask t.maskBits
    let entry := t.entryAt pos
    if comparedHashBits == entry.getHashBits t.maskBits &&
        modifiedUtf8StringEquals str (stringAt entry.strOffset) then
      some (entry.getClassDefIdx t.maskBits)
    else if entry.isLast t.maskBits then some kDexNoIndex
    else lookupRest fuel pos

/-- The first loop of `Lookup`, to the first entry of the chain with the compared hash bits,
and what follows a match there. -/
def lookupFirst : Nat → UInt32 → Option UInt32
  | 0, _ => none
  | fuel + 1, pos =>
    let entry := t.entryAt pos
    if comparedHashBits != entry.getHashBits t.maskBits then
      if entry.isLast t.maskBits then some kDexNoIndex
      else lookupFirst fuel ((pos + entry.getNextPosDelta t.maskBits) &&& getMask t.maskBits)
    else
      let firstCheckedStr := stringAt entry.strOffset
      if modifiedUtf8StringEquals str firstCheckedStr then some (entry.getClassDefIdx t.maskBits)
      else if entry.isLast t.maskBits then some kDexNoIndex
      -- the low hash bits tell whether this is the chain of the string's home position
      else if (computeModifiedUtf8Hash firstCheckedStr ^^^ hash) &&& getMask t.maskBits != 0 then
        some kDexNoIndex
      else lookupRest t stringAt str comparedHashBits fuel pos

/-- `TypeLookupTable::Lookup(str, hash)`, with `GetStringData` reading `stringAt`. -/
def lookup (fuel : Nat) : Option UInt32 :=
  let pos := hash &&& getMask t.maskBits
  if (t.entryAt pos).isEmpty then some kDexNoIndex
  else
    let comparedHashBits := (hash <<< t.maskBits) >>> (2 * t.maskBits)
    lookupFirst t stringAt str hash comparedHashBits fuel pos

end Lookup

/-! ### What `Lookup` can return -/

section Returns

variable (stringAt : UInt32 → List UInt8) (str : List UInt8) (hash comparedHashBits : UInt32)

/-- A class def index that `Lookup` returns is read from an entry whose hash bits it found equal
to the compared ones. -/
def FromMatch (comparedHashBits result : UInt32) : Prop :=
  result = kDexNoIndex ∨
    ∃ e : Entry, comparedHashBits = e.getHashBits t.maskBits ∧ result = e.getClassDefIdx t.maskBits

theorem lookupRest_fromMatch :
    ∀ {fuel : Nat} {pos result : UInt32},
      lookupRest t stringAt str comparedHashBits fuel pos = some result →
        t.FromMatch comparedHashBits result
  | 0, _, _, h => by cases h
  | fuel + 1, pos, result, h => by
    rw [lookupRest] at h
    split at h
    · rename_i hmatch
      simp only [Bool.and_eq_true, beq_iff_eq] at hmatch
      exact Or.inr ⟨_, hmatch.1, (Option.some.inj h).symm⟩
    · split at h
      · exact Or.inl (Option.some.inj h).symm
      · exact lookupRest_fromMatch h

theorem lookupFirst_fromMatch :
    ∀ {fuel : Nat} {pos result : UInt32},
      lookupFirst t stringAt str hash comparedHashBits fuel pos = some result →
        t.FromMatch comparedHashBits result
  | 0, _, _, h => by cases h
  | fuel + 1, pos, result, h => by
    rw [lookupFirst] at h
    split at h
    · split at h
      · exact Or.inl (Option.some.inj h).symm
      · exact lookupFirst_fromMatch h
    · rename_i hmatch
      simp only [bne_iff_ne, ne_eq, Decidable.not_not] at hmatch
      dsimp only at h
      split at h
      · exact Or.inr ⟨_, hmatch, (Option.some.inj h).symm⟩
      · split at h
        · exact Or.inl (Option.some.inj h).symm
        · split at h
          · exact Or.inl (Option.some.inj h).symm
          · exact lookupRest_fromMatch t stringAt str comparedHashBits h

theorem lookup_fromMatch {fuel : Nat} {result : UInt32}
    (h : t.lookup stringAt str hash fuel = some result) :
    t.FromMatch ((hash <<< t.maskBits) >>> (2 * t.maskBits)) result := by
  rw [lookup] at h
  split at h
  · exact Or.inl (Option.some.inj h).symm
  · exact lookupFirst_fromMatch t stringAt str hash _ h

end Returns

/-! ### Sixteen mask bits -/

theorem shiftRight_32 (x : UInt32) : x >>> 32 = x := by
  rw [UInt32.shiftRight_eq_shiftRight_mod]
  simp

/-- With sixteen mask bits the compared hash bits are the whole entry word: the index read from
it is the low half of the hash. -/
theorem getClassDefIdx_of_hashBits_16 {e : Entry} {hash : UInt32}
    (h : (hash <<< 16) >>> (2 * 16) = e.getHashBits 16) :
    e.getClassDefIdx 16 = hash &&& 0xFFFF := by
  have hdata : e.data = hash <<< 16 := by
    rw [getHashBits, show (2 : UInt32) * 16 = 32 from rfl, shiftRight_32, shiftRight_32] at h
    exact h.symm
  rw [getClassDefIdx, hdata, show getMask 16 = 0xFFFF from rfl, ← UInt32.toNat_inj]
  simp only [UInt32.toNat_and, UInt32.toNat_shiftRight, UInt32.toNat_shiftLeft]
  have hlt := hash.toNat_lt
  simp only [UInt32.reduceToNat, Nat.reduceMod]
  rw [show (65535 : Nat) = 2 ^ 16 - 1 from rfl, Nat.and_two_pow_sub_one_eq_mod,
    Nat.and_two_pow_sub_one_eq_mod, Nat.shiftLeft_eq, Nat.shiftRight_eq_div_pow]
  omega

/-- From 32769 class defs on, the mask bits are sixteen. -/
theorem calculateMaskBits_eq_16 {n : Nat} (hlo : 32769 ≤ n) (hhi : n ≤ 65535) :
    calculateMaskBits n = 16 := by
  have hsize : supportedSize n = true := by
    simp only [supportedSize, bne_iff_ne, ne_eq, Bool.and_eq_true, decide_eq_true_eq]
    omega
  have hle : minimumBitsToStore (n - 1) ≤ 16 := minimumBitsToStore_le_iff.mpr (by omega)
  have hge : ¬minimumBitsToStore (n - 1) ≤ 15 := fun h =>
    absurd (minimumBitsToStore_le_iff.mp h) (by omega)
  rw [calculateMaskBits, if_pos hsize, show minimumBitsToStore (n - 1) = 16 by omega]
  rfl

/-- In a table of a dex file of 32769 to 65535 class defs, made by `Create` or re-opened by
`Open`, `Lookup` of a class descriptor with its hash never returns the class def index when it
differs from the low 16 bits of the hash: every index `Lookup` returns is those bits. -/
theorem lookup_misses_classes_at_mask_bits_16 {classDefs : List ClassDefString}
    (hlo : 32769 ≤ classDefs.length) (hhi : classDefs.length ≤ 65535) {table : TypeLookupTable}
    (htable : table.maskBits = calculateMaskBits classDefs.length)
    (stringAt : UInt32 → List UInt8) {i : Nat} (hi : i < classDefs.length)
    (hhash : (computeModifiedUtf8Hash classDefs[i].descriptor &&& 0xFFFF).toNat ≠ i)
    (fuel : Nat) :
    table.lookup stringAt classDefs[i].descriptor
      (computeModifiedUtf8Hash classDefs[i].descriptor) fuel ≠ some (UInt32.ofNat i) := by
  intro h
  have h16 : table.maskBits = 16 := by rw [htable, calculateMaskBits_eq_16 hlo hhi]
  have hsize : i < UInt32.size := lt_of_lt_of_le (by omega : i < 65536) (by decide)
  rcases lookup_fromMatch table stringAt _ _ h with hno | ⟨e, he, hidx⟩
  · -- `kDexNoIndex` is no index below 65535
    have := congrArg UInt32.toNat hno
    rw [UInt32.toNat_ofNat_of_lt' hsize, show kDexNoIndex.toNat = 4294967295 from rfl] at this
    omega
  · rw [h16] at he hidx
    rw [getClassDefIdx_of_hashBits_16 he] at hidx
    have := congrArg UInt32.toNat hidx
    rw [UInt32.toNat_ofNat_of_lt' hsize] at this
    exact hhash this.symm

/-- Class def 0 of a dex file of 32769 classes, with descriptor `LA;` (hash 75110, low half
9574), is not found in a table opened for 32769 classes. -/
theorem lookup_misses_class_zero_of_32769 :
    (openTable [] 32769).lookup (fun _ => []) [0x4C, 0x41, 0x3B]
      (computeModifiedUtf8Hash [0x4C, 0x41, 0x3B]) 100 ≠ some (UInt32.ofNat 0) :=
  @lookup_misses_classes_at_mask_bits_16 (List.replicate 32769 ⟨1, [0x4C, 0x41, 0x3B]⟩)
    (le_of_eq (List.length_replicate ..).symm) ((List.length_replicate ..).trans_le (by decide))
    (openTable [] 32769) (by rw [List.length_replicate]; rfl) (fun _ => []) 0
    (by rw [List.length_replicate]; decide) (by rw [List.getElem_replicate]; decide) 100

end TypeLookupTable

end AndroidArt.Dex
