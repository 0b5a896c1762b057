/-
Module: AndroidArt.Profile.ProfileCompilationInfo
Purpose: libprofile/profile/profile_compilation_info.{h,cc}: the profile held in memory, a list
  of `DexFileData` lines in profile index order, each with the inline caches of its methods, its
  class set, its hotness bitmap and its aggregation counters; and the operations that fill it,
  `GetOrAddDexFileData`, `AddClassIndex`, `FindOrAddMethod`, and `DexPcData::AddClass`,
  `SetIsMissingTypes` and `SetIsMegamorphic`.
Trusted boundary: `profile_key_map_` is taken to be the keys of `info_` with their positions,
  which the code keeps it equal to (it is "only a cache for fast search", as `Equals` says). The
  arena maps and sets are lists kept in key order by their insertion functions. The counter
  vectors, which `PrepareForAggregationCounters` fills with zeros, are the entries written so
  far, every other entry being zero; the code indexes them only below their sizes. The counter
  loops over a `uint16_t` method index do not end when `num_method_ids` exceeds 65535
  (`Profile.AggregationCounters` runs them as the code does); the model runs them over every
  method index.
Main exports: DexPcData, DexFileData, ProfileCompilationInfo, getOrAddDexFileData
-/
import AndroidArt.Base.BitMemoryRegion

namespace AndroidArt.Profile

open AndroidArt.Base

/-! ### Ordered containers -/

/-- `ArenaSet::insert` on a set kept in increasing order under `lt`: nothing changes when the
element is already there. -/
def insertOrdered {α : Type} [DecidableEq α] (lt : α → α → Bool) (x : α) : List α → List α
  | [] => [x]
  | y :: ys =>
    if x = y then y :: ys
    else if lt x y then x :: y :: ys
    else y :: insertOrdered lt x ys

theorem length_insertOrdered_le {α : Type} [DecidableEq α] (lt : α → α → Bool) (x : α)
    (xs : List α) : (insertOrdered lt x xs).length ≤ xs.length + 1 := by
  induction xs with
  | nil => simp [insertOrdered]
  | cons y ys ih =>
    unfold insertOrdered
    split_ifs <;> simp only [List.length_cons] <;> omega

/-- `SafeMap::FindOrAdd(key, default)` on a map kept in key order, followed by the change `f`
that the caller makes through the pointer it returns. -/
def alterOrdered {V : Type} (key : Nat) (default : V) (f : V → V) :
    List (Nat × V) → List (Nat × V)
  | [] => [(key, f default)]
  | (k, v) :: rest =>
    if key < k then (key, f default) :: (k, v) :: rest
    else if key = k then (k, f v) :: rest
    else (k, v) :: alterOrdered key default f rest

/-! ### Inline caches -/

/-- `ProfileCompilationInfo::kIndividualInlineCacheSize`. -/
def kIndividualInlineCacheSize : Nat := 5

/-- `ClassReference`: a class by the profile index of its dex file and its type index. -/
structure ClassReference where
  dexProfileIndex : Nat
  typeIndex : Nat
deriving Repr, DecidableEq

/-- `ClassReference::operator<`: by dex file, then by type. -/
def ClassReference.lt (a b : ClassReference) : Bool :=
  if a.dexProfileIndex = b.dexProfileIndex then decide (a.typeIndex < b.typeIndex)
  else decide (a.dexProfileIndex < b.dexProfileIndex)

/-- `DexPcData`: the classes seen at one dex pc, or that there were too many
(`is_megamorphic`) or that some were not resolved (`is_missing_types`). -/
structure DexPcData where
  isMegamorphic : Bool
  isMissingTypes : Bool
  classes : List ClassReference
  /-- Both setters clear the classes, and `AddClass` adds none to a flagged cache. -/
  classes_eq_nil : isMegamorphic = true ∨ isMissingTypes = true → classes = []
  /-- `AddClass` turns the cache megamorphic instead of adding a fifth class. -/
  length_classes_lt : classes.length < kIndividualInlineCacheSize
deriving DecidableEq

namespace DexPcData

/-- `DexPcData(allocator)`: no class and no flag. -/
def empty : DexPcData where
  isMegamorphic := false
  isMissingTypes := false
  classes := []
  classes_eq_nil := fun _ => rfl
  length_classes_lt := by decide

instance : Inhabited DexPcData := ⟨empty⟩

/-- `SetIsMegamorphic()`: ignored once the cache misses types. -/
def setIsMegamorphic (d : DexPcData) : DexPcData :=
  if d.isMissingTypes then d
  else
    { isMegamorphic := true
      isMissingTypes := d.isMissingTypes
      classes := []
      classes_eq_nil := fun _ => rfl
      length_classes_lt := by decide }

/-- `SetIsMissingTypes()`. -/
def setIsMissingTypes (_ : DexPcData) : DexPcData where
  isMegamorphic := false
  isMissingTypes := true
  classes := []
  classes_eq_nil := fun _ => rfl
  length_classes_lt := by decide

/-- `AddClass(dex_profile_idx, type_idx)`. -/
def addClass (d : DexPcData) (dexProfileIdx typeIdx : Nat) : DexPcData :=
  if hflag : d.isMegamorphic = true ∨ d.isMissingTypes = true then d
  else if ClassReference.mk dexProfileIdx typeIdx ∈ d.classes then d
  -- adding the class would make five: the cache becomes megamorphic
  else if hfull : d.classes.length + 1 ≥ kIndividualInlineCacheSize then
    { isMegamorphic := true
      isMissingTypes := d.isMissingTypes
      classes := []
      classes_eq_nil := fun _ => rfl
      length_classes_lt := by decide }
  else
    { isMegamorphic := d.isMegamorphic
      isMissingTypes := d.isMissingTypes
      classes := insertOrdered ClassReference.lt ⟨dexProfileIdx, typeIdx⟩ d.classes
      classes_eq_nil := fun h => absurd h hflag
      length_classes_lt :=
        lt_of_le_of_lt (length_insertOrdered_le _ _ _) (Nat.lt_of_not_le hfull) }

end DexPcData

/-- `InlineCacheMap`: the dex pcs of one method, in increasing order. -/
abbrev InlineCacheMap := List (Nat × DexPcData)

/-- `FindOrAddDexPc(inline_cache, dex_pc)` followed by the change `f` made to the entry. -/
def alterDexPc (inlineCache : InlineCacheMap) (dexPc : Nat) (f : DexPcData → DexPcData) :
    InlineCacheMap :=
  alterOrdered dexPc DexPcData.empty f inlineCache

/-! ### Dex file lines -/

/-- `DexFileData::kBitmapIndexCount`: a startup and a post-startup bit per method. -/
def kBitmapIndexCount : Nat := 2

/-- `ComputeBitmapBits(num_method_ids)`: a `uint32_t` product. -/
def computeBitmapBits (numMethodIds : Nat) : Nat := numMethodIds * kBitmapIndexCount % 2 ^ 32

/-- `ComputeBitmapStorage(num_method_ids)`. -/
def computeBitmapStorage (numMethodIds : Nat) : Nat :=
  roundUp (computeBitmapBits numMethodIds) kBitsPerByte / kBitsPerByte

/-- `BitMemoryRegion::LoadBit` over the bitmap storage: bit `i % 8` of byte `i / 8`. -/
def loadBit (storage : List UInt8) (bit : Nat) : Bool :=
  (storage.getD (bit / kBitsPerByte) 0).toNat.testBit (bit % kBitsPerByte)

/-- `DexFileData`: one dex file of the profile. -/
structure DexFileData where
  profileKey : List UInt8
  profileIndex : Nat
  checksum : Nat
  methodMap : List (Nat × InlineCacheMap)
  classSet : List Nat
  numMethodIds : Nat
  bitmapStorage : List UInt8
  methodCounters : List (Nat × Nat)
  classCounters : List (Nat × Nat)
deriving DecidableEq

namespace DexFileData

/-- `DexFileData(allocator, key, location_checksum, index, num_methods, ...)`: no method, no
class, and a zero bitmap of `ComputeBitmapStorage(num_methods)` bytes. -/
def make (key : List UInt8) (locationChecksum index numMethods : Nat) : DexFileData where
  profileKey := key
  profileIndex := index
  checksum := locationChecksum
  methodMap := []
  classSet := []
  numMethodIds := numMethods
  bitmapStorage := List.replicate (computeBitmapStorage numMethods) 0
  methodCounters := []
  classCounters := []

/-- `MethodBitIndex(startup, index)`: the startup bitmap, then the post-startup one. -/
def methodBitIndex (d : DexFileData) (startup : Bool) (index : Nat) : Nat :=
  index + if startup then 0 else d.numMethodIds

/-- `GetHotnessInfo(dex_method_index).IsInProfile()`: some flag of the method is set. -/
def isInProfile (d : DexFileData) (dexMethodIndex : Nat) : Bool :=
  loadBit d.bitmapStorage (d.methodBitIndex true dexMethodIndex) ||
    loadBit d.bitmapStorage (d.methodBitIndex false dexMethodIndex) ||
    (d.methodMap.lookup dexMethodIndex).isSome

/-- `GetNumMethodCounters()`: a `uint16_t` count of the methods in the profile. -/
def getNumMethodCounters (d : DexFileData) : Nat :=
  (List.range d.numMethodIds).countP d.isInProfile % 2 ^ 16

/-- `FindOrAddMethod(method_index)`: `none` (the null pointer) for an index out of range. -/
def findOrAddMethod (d : DexFileData) (methodIndex : Nat) : Option DexFileData :=
  if methodIndex ≥ d.numMethodIds then none
  else some { d with methodMap := alterOrdered methodIndex [] id d.methodMap }

/-- The inline caches of a method, as `FindOrAddMethod` points at them. -/
def inlineCache (d : DexFileData) (methodIndex : Nat) : InlineCacheMap :=
  (d.methodMap.lookup methodIndex).getD []

/-- Stores the inline caches of a method, written through the pointer of `FindOrAddMethod`. -/
def setInlineCache (d : DexFileData) (methodIndex : Nat) (inlineCache : InlineCacheMap) :
    DexFileData :=
  { d with methodMap := alterOrdered methodIndex [] (fun _ => inlineCache) d.methodMap }

/-- A counter vector entry, zero where nothing was written. -/
def counter (counters : List (Nat × Nat)) (index : Nat) : Nat :=
  (counters.lookup index).getD 0

end DexFileData

/-! ### The profile -/

/-- The two versions of the format: `kProfileVersion`, and `kProfileVersionWithCounters`,
whose lines carry aggregation counters. -/
inductive ProfileVersion where
  | profileVersion
  | profileVersionWithCounters
deriving Repr, DecidableEq

/-- `ProfileCompilationInfo`: `info_`, `version_` and `aggregation_count_`. -/
structure ProfileCompilationInfo where
  info : List DexFileData
  version : ProfileVersion
  aggregationCount : Nat
deriving DecidableEq

namespace ProfileCompilationInfo

/-- `ProfileCompilationInfo()`: no dex file, the version without counters. -/
def empty : ProfileCompilationInfo := ⟨[], .profileVersion, 0⟩

/-- `PrepareForAggregationCounters()`. -/
def prepareForAggregationCounters (p : ProfileCompilationInfo) : ProfileCompilationInfo :=
  { p with version := .profileVersionWithCounters }

/-- `StoresAggregationCounters()`. -/
def storesAggregationCounters (p : ProfileCompilationInfo) : Bool :=
  p.version == .profileVersionWithCounters

/-- `FindDexData(profile_key, 0, /*verify_checksum=*/ false)`, with the profile index. -/
def findDexData (p : ProfileCompilationInfo) (profileKey : List UInt8) :
    Option (Nat × DexFileData) :=
  (p.info.zipIdx.find? fun e => e.1.profileKey == profileKey).map fun e => (e.2, e.1)

/-- Changes the line of profile index `index` through the pointer the code holds to it. -/
def modifyLine (p : ProfileCompilationInfo) (index : Nat) (f : DexFileData → DexFileData) :
    ProfileCompilationInfo :=
  { p with info := p.info.modify index f }

/-- `GetOrAddDexFileData(profile_key, checksum, num_method_ids)`: the profile index of the
line of `profileKey`, appended if there is none.  `none` is the null pointer: a new line would
be the 256th (its key is erased again), or the line has another checksum or number of methods;
the profile is then unchanged. -/
def getOrAddDexFileData (p : ProfileCompilationInfo) (profileKey : List UInt8)
    (checksum numMethodIds : Nat) : Option (Nat × ProfileCompilationInfo) :=
  match p.findDexData profileKey with
  | none =>
    if p.info.length + 1 > 255 then none
    else
      some (p.info.length,
        { p with info := p.info ++ [DexFileData.make profileKey checksum p.info.length
          numMethodIds] })
  | some (index, d) =>
    if d.checksum ≠ checksum then none
    else if numMethodIds ≠ d.numMethodIds then none
    else some (index, p)

/-- `AddClassIndex(dex_location, checksum, type_idx, num_method_ids)`. -/
def addClassIndex (p : ProfileCompilationInfo) (dexLocation : List UInt8)
    (checksum typeIdx numMethodIds : Nat) : Option ProfileCompilationInfo :=
  match p.getOrAddDexFileData dexLocation checksum numMethodIds with
  | none => none
  | some (index, p) =>
    some (p.modifyLine index fun d =>
      { d with classSet := insertOrdered (fun a b => decide (a < b)) typeIdx d.classSet })

end ProfileCompilationInfo

end AndroidArt.Profile
