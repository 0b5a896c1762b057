/-
Module: AndroidArt.Profile.Save
Purpose: the uncompressed payload of `ProfileCompilationInfo::Save`: the line header of every dex
  file, then the line data of every dex file (its methods with their inline caches, its classes,
  its bitmap and, in the version with counters, its aggregation counters), then the global
  aggregation count; and `required_capacity`, the size `Save` computes before writing any of it,
  from `GetMethodsRegionSize`, the class and bitmap sizes and the counter sizes.
Trusted boundary: the file header and the compressed data are not modelled: `save` returns the
  header fields and the bytes it hands to `DeflateBuffer`, which deflates `required_capacity`
  bytes of the buffer. Writes to the file descriptor are taken to succeed.
Main exports: saveBuffer, requiredCapacity, save, getMethodsRegionSize
-/
import Mathlib
import AndroidArt.Lib.LittleEndian
import AndroidArt.Profile.ProfileCompilationInfo

namespace AndroidArt.Profile

open AndroidArt.Lib

/-- `kLineHeaderSize`: two `uint16_t` and three `uint32_t` fields. -/
def kLineHeaderSize : Nat := 2 * 2 + 3 * 4

/-- `kMaxDexFileKeyLength`: `PATH_MAX`. -/
def kMaxDexFileKeyLength : Nat := 4096

def kIsMissingTypesEncoding : Nat := 6
def kIsMegamorphicEncoding : Nat := 7

/-- `kProfileSizeErrorThresholdInBytes`. -/
def kProfileSizeErrorThresholdInBytes : Nat := 1000000

/-- `AddUintToBuffer(&buffer, value)` for an unsigned type of `width` bytes. -/
def addUintToBuffer (width value : Nat) : List UInt8 := LittleEndian.toBytes width value

@[simp] theorem length_addUintToBuffer (width value : Nat) :
    (addUintToBuffer width value).length = width :=
  LittleEndian.length_toBytes width value

theorem ofBytes_addUintToBuffer (width value : Nat) :
    LittleEndian.ofBytes (addUintToBuffer width value) = value % 256 ^ width :=
  LittleEndian.ofBytes_toBytes width value

/-- `GroupClassesByDex(classes, &dex_to_classes_map)`: the type indices of each dex file, in
the order of the classes. -/
def groupClassesByDex (classes : List ClassReference) : List (Nat × List Nat) :=
  classes.foldl (fun m c => alterOrdered c.dexProfileIndex [] (· ++ [c.typeIndex]) m) []

/-! ### Inline caches -/

/-- The classes of one dex file at a dex pc: its profile index, their number as a `uint8_t`,
and their type indices. -/
def dexClassesToBuffer (dexClasses : Nat × List Nat) : List UInt8 :=
  addUintToBuffer 1 dexClasses.1 ++ addUintToBuffer 1 (dexClasses.2.length % 2 ^ 8) ++
    dexClasses.2.flatMap (addUintToBuffer 2)

/-- One dex pc of `AddInlineCacheToBuffer`: a flag encoding in place of the classes of a
missing-types or megamorphic cache. -/
def dexPcToBuffer (entry : Nat × DexPcData) : List UInt8 :=
  addUintToBuffer 2 entry.1 ++
    if entry.2.isMissingTypes then addUintToBuffer 1 kIsMissingTypesEncoding
    else if entry.2.isMegamorphic then addUintToBuffer 1 kIsMegamorphicEncoding
    else
      let dexToClassesMap := groupClassesByDex entry.2.classes
      addUintToBuffer 1 (dexToClassesMap.length % 2 ^ 8) ++
        dexToClassesMap.flatMap dexClassesToBuffer

/-- `AddInlineCacheToBuffer(&buffer, inline_cache_map)`. -/
def addInlineCacheToBuffer (inlineCacheMap : InlineCacheMap) : List UInt8 :=
  addUintToBuffer 2 (inlineCacheMap.length % 2 ^ 16) ++
    if inlineCacheMap.length = 0 then [] else inlineCacheMap.flatMap dexPcToBuffer

/-- The bytes `GetMethodsRegionSize` counts for one dex pc, after its `dex_pc`. -/
def dexPcRegionSize (dexPcData : DexPcData) : Nat :=
  1 + ((groupClassesByDex dexPcData.classes).map fun g => 1 + 1 + 2 * g.2.length).sum

/-- The bytes `GetMethodsRegionSize` counts for the inline caches of one method, after its
method index and inline cache size. -/
def inlineCacheRegionSize (inlineCache : InlineCacheMap) : Nat :=
  2 * inlineCache.length + (inlineCache.map fun e => dexPcRegionSize e.2).sum

/-- `GetMethodsRegionSize(dex_data)`, a `uint32_t` sum. -/
def getMethodsRegionSize (dexData : DexFileData) : Nat :=
  (2 * 2 * dexData.methodMap.length +
    (dexData.methodMap.map fun m => inlineCacheRegionSize m.2).sum) % 2 ^ 32

theorem getMethodsRegionSize_lt (dexData : DexFileData) : getMethodsRegionSize dexData < 2 ^ 32 :=
  Nat.mod_lt _ (by decide)

/-! ### Lines -/

/-- The methods of a line, each index stored as its `uint16_t` difference with the last. -/
def methodsToBuffer : Nat → List (Nat × InlineCacheMap) → List UInt8
  | _, [] => []
  | lastMethodIndex, (methodIndex, inlineCache) :: rest =>
    addUintToBuffer 2 (((methodIndex : Int) - lastMethodIndex) % 2 ^ 16).toNat ++
      addInlineCacheToBuffer inlineCache ++ methodsToBuffer methodIndex rest

/-- The classes of a line, each stored as its `uint16_t` difference with the last. -/
def classesToBuffer : Nat → List Nat → List UInt8
  | _, [] => []
  | lastClassIndex, classIndex :: rest =>
    addUintToBuffer 2 (((classIndex : Int) - lastClassIndex) % 2 ^ 16).toNat ++
      classesToBuffer classIndex rest

/-- The aggregation counters of a line: the class counters, then the counters of the methods
in the profile, each list after its `uint16_t` length. -/
def countersToBuffer (dexData : DexFileData) : List UInt8 :=
  addUintToBuffer 2 (dexData.classSet.length % 2 ^ 16) ++
    dexData.classSet.flatMap
      (fun t => addUintToBuffer 2 (DexFileData.counter dexData.classCounters t)) ++
    addUintToBuffer 2 dexData.getNumMethodCounters ++
    ((List.range dexData.numMethodIds).filter dexData.isInProfile).flatMap
      (fun m => addUintToBuffer 2 (DexFileData.counter dexData.methodCounters m))

/-- The line header of a dex file, with its key. -/
def lineHeaderToBuffer (dexData : DexFileData) : List UInt8 :=
  addUintToBuffer 2 (dexData.profileKey.length % 2 ^ 16) ++
    addUintToBuffer 2 (dexData.classSet.length % 2 ^ 16) ++
    addUintToBuffer 4 (getMethodsRegionSize dexData) ++ addUintToBuffer 4 dexData.checksum ++
    addUintToBuffer 4 dexData.numMethodIds ++ dexData.profileKey

/-- The line data of a dex file. -/
def lineDataToBuffer (storesAggregationCounters : Bool) (dexData : DexFileData) :
    List UInt8 :=
  methodsToBuffer 0 dexData.methodMap ++ classesToBuffer 0 dexData.classSet ++
    dexData.bitmapStorage ++ if storesAggregationCounters then countersToBuffer dexData else []

/-! ### Save -/

/-- The buffer `Save` fills after the file header. -/
def saveBuffer (p : ProfileCompilationInfo) : List UInt8 :=
  p.info.flatMap lineHeaderToBuffer ++
    p.info.flatMap (lineDataToBuffer p.storesAggregationCounters) ++
    if p.storesAggregationCounters then addUintToBuffer 2 p.aggregationCount else []

/-- The size `Save` counts for one line. -/
def lineCapacity (storesAggregationCounters : Bool) (dexData : DexFileData) : Nat :=
  kLineHeaderSize + dexData.profileKey.length + 2 * dexData.classSet.length +
    getMethodsRegionSize dexData + dexData.bitmapStorage.length +
    if storesAggregationCounters then
      2 + 2 * dexData.classSet.length + 2 + 2 * dexData.getNumMethodCounters
    else 0

/-- `required_capacity`, a `uint32_t` sum. -/
def requiredCapacity (p : ProfileCompilationInfo) : Nat :=
  ((p.info.map (lineCapacity p.storesAggregationCounters)).sum +
    if p.storesAggregationCounters then 2 else 0) % 2 ^ 32

/-- What `Save` writes: the header fields, and the bytes it deflates. -/
structure SavedProfile where
  version : ProfileVersion
  numberOfDexFiles : Nat
  uncompressedDataSize : Nat
  payload : List UInt8
deriving DecidableEq

/-- `Save(fd)`: `none` when it returns false, on a target build for a profile over the size
limit, or for a key of `kMaxDexFileKeyLength` bytes or more. -/
def save (isTargetBuild : Bool) (p : ProfileCompilationInfo) : Option SavedProfile :=
  if isTargetBuild && decide (requiredCapacity p > kProfileSizeErrorThresholdInBytes) then none
  else if p.info.any (fun d => decide (d.profileKey.length ≥ kMaxDexFileKeyLength)) then none
  else
    some { version := p.version
           numberOfDexFiles := p.info.length % 2 ^ 8
           uncompressedDataSize := requiredCapacity p
           payload := (saveBuffer p).take (requiredCapacity p) }

/-! ### Size accounting -/

@[simp] theorem length_dexClassesToBuffer (dexClasses : Nat × List Nat) :
    (dexClassesToBuffer dexClasses).length = 1 + 1 + 2 * dexClasses.2.length := by
  simp [dexClassesToBuffer, List.length_flatMap]
  omega

theorem groupClassesByDex_nil : groupClassesByDex [] = [] := rfl

/-- A flagged dex pc is stored as its encoding byte, which `GetMethodsRegionSize` counts as
the size byte of an empty class map: the invariant of `DexPcData` makes the two agree. -/
theorem length_dexPcToBuffer (entry : Nat × DexPcData) :
    (dexPcToBuffer entry).length = 2 + dexPcRegionSize entry.2 := by
  have hflagged : entry.2.isMegamorphic = true ∨ entry.2.isMissingTypes = true →
      dexPcRegionSize entry.2 = 1 := by
    intro h
    simp [dexPcRegionSize, entry.2.classes_eq_nil h, groupClassesByDex_nil]
  unfold dexPcToBuffer
  by_cases hmissing : entry.2.isMissingTypes = true
  · rw [if_pos hmissing, hflagged (Or.inr hmissing)]
    simp
  · by_cases hmega : entry.2.isMegamorphic = true
    · rw [if_neg hmissing, if_pos hmega, hflagged (Or.inl hmega)]
      simp
    · rw [if_neg hmissing, if_neg hmega]
      simp [dexPcRegionSize, List.length_flatMap]

theorem length_addInlineCacheToBuffer (inlineCache : InlineCacheMap) :
    (addInlineCacheToBuffer inlineCache).length = 2 + inlineCacheRegionSize inlineCache := by
  unfold addInlineCacheToBuffer inlineCacheRegionSize
  by_cases hempty : inlineCache.length = 0
  · rw [if_pos hempty, List.eq_nil_of_length_eq_zero hempty]
    simp
  · rw [if_neg hempty, List.length_append, length_addUintToBuffer, List.length_flatMap]
    simp only [length_dexPcToBuffer]
    rw [List.sum_map_add, List.map_const', List.sum_replicate_nat, Nat.mul_comm]

theorem length_methodsToBuffer (lastMethodIndex : Nat) (methods : List (Nat × InlineCacheMap)) :
    (methodsToBuffer lastMethodIndex methods).length =
      2 * 2 * methods.length + (methods.map fun m => inlineCacheRegionSize m.2).sum := by
  induction methods generalizing lastMethodIndex with
  | nil => rfl
  | cons m rest ih =>
    obtain ⟨methodIndex, inlineCache⟩ := m
    simp only [methodsToBuffer, List.length_append, length_addUintToBuffer,
      length_addInlineCacheToBuffer, ih, List.length_cons, List.map_cons, List.sum_cons]
    omega

@[simp] theorem length_classesToBuffer (lastClassIndex : Nat) (classes : List Nat) :
    (classesToBuffer lastClassIndex classes).length = 2 * classes.length := by
  induction classes generalizing lastClassIndex with
  | nil => rfl
  | cons c rest ih =>
    simp only [classesToBuffer, List.length_append, length_addUintToBuffer, ih,
      List.length_cons]
    omega

/-- The method counters written are those `GetNumMethodCounters` counts, whose `uint16_t`
count is exact when there are at most 65535 methods. -/
theorem length_countersToBuffer (dexData : DexFileData) (hids : dexData.numMethodIds ≤ 65535) :
    (countersToBuffer dexData).length =
      2 + 2 * dexData.classSet.length + 2 + 2 * dexData.getNumMethodCounters := by
  have hcount : (List.range dexData.numMethodIds).countP dexData.isInProfile < 2 ^ 16 :=
    calc (List.range dexData.numMethodIds).countP dexData.isInProfile
        ≤ (List.range dexData.numMethodIds).length := List.countP_le_length
      _ < 2 ^ 16 := by rw [List.length_range]; omega
  have hnum : dexData.getNumMethodCounters =
      ((List.range dexData.numMethodIds).filter dexData.isInProfile).length := by
    rw [DexFileData.getNumMethodCounters, Nat.mod_eq_of_lt hcount, List.countP_eq_length_filter]
  simp [countersToBuffer, List.length_flatMap, hnum]
  omega

theorem length_lineHeaderToBuffer (dexData : DexFileData) :
    (lineHeaderToBuffer dexData).length = kLineHeaderSize + dexData.profileKey.length := by
  simp [lineHeaderToBuffer, kLineHeaderSize]
  omega

/-- The bytes of a line match its `lineCapacity` modulo 2^32, the width of the methods region
size that `lineCapacity` adds. -/
theorem length_lineHeader_add_lineData_mod (storesAggregationCounters : Bool)
    (dexData : DexFileData) (hids : dexData.numMethodIds ≤ 65535) :
    ((lineHeaderToBuffer dexData).length +
        (lineDataToBuffer storesAggregationCounters dexData).length) % 2 ^ 32 =
      lineCapacity storesAggregationCounters dexData % 2 ^ 32 := by
  have hmethods := length_methodsToBuffer 0 dexData.methodMap
  have hcounters : (if storesAggregationCounters then countersToBuffer dexData else []).length =
      if storesAggregationCounters then
        2 + 2 * dexData.classSet.length + 2 + 2 * dexData.getNumMethodCounters
      else 0 := by
    cases storesAggregationCounters
    · rfl
    · exact length_countersToBuffer dexData hids
  simp only [lineDataToBuffer, lineCapacity, getMethodsRegionSize, List.length_append,
    length_lineHeaderToBuffer, length_classesToBuffer, hmethods, hcounters]
  omega

/-- Sums of terms equal modulo `m` are equal modulo `m`. -/
theorem sum_map_mod_eq {α : Type} {m : Nat} (f g : α → Nat) (l : List α)
    (h : ∀ a ∈ l, f a % m = g a % m) : (l.map f).sum % m = (l.map g).sum % m := by
  rw [List.sum_nat_mod, List.sum_nat_mod (l.map g), List.map_map, List.map_map]
  congr 2
  exact List.map_congr_left h

/-- The buffer `Save` fills has `required_capacity` bytes modulo 2^32, when every dex file
has at most 65535 methods. -/
theorem length_saveBuffer (p : ProfileCompilationInfo)
    (hids : ∀ d ∈ p.info, d.numMethodIds ≤ 65535) :
    (saveBuffer p).length % 2 ^ 32 = requiredCapacity p := by
  have hlines : (p.info.flatMap lineHeaderToBuffer).length +
      (p.info.flatMap (lineDataToBuffer p.storesAggregationCounters)).length =
      (p.info.map fun d => (lineHeaderToBuffer d).length +
        (lineDataToBuffer p.storesAggregationCounters d).length).sum := by
    rw [List.length_flatMap, List.length_flatMap, ← List.sum_map_add]
  have hmod := sum_map_mod_eq _ _ p.info fun d hd =>
    length_lineHeader_add_lineData_mod p.storesAggregationCounters d (hids d hd)
  have hglobal : (if p.storesAggregationCounters then
      addUintToBuffer 2 p.aggregationCount else []).length =
      if p.storesAggregationCounters then 2 else 0 := by
    cases p.storesAggregationCounters <;> simp
  rw [requiredCapacity, saveBuffer, List.length_append, List.length_append, hlines, hglobal,
    Nat.add_mod, hmod, ← Nat.add_mod]

/-- When the buffer is shorter than 2^32 bytes, `Save` deflates all of it. -/
theorem payload_save {isTargetBuild : Bool} {p : ProfileCompilationInfo} {s : SavedProfile}
    (hids : ∀ d ∈ p.info, d.numMethodIds ≤ 65535) (hsmall : (saveBuffer p).length < 2 ^ 32)
    (hsave : save isTargetBuild p = some s) : s.payload = saveBuffer p := by
  have hcap : requiredCapacity p = (saveBuffer p).length := by
    rw [← length_saveBuffer p hids, Nat.mod_eq_of_lt hsmall]
  unfold save at hsave
  split_ifs at hsave
  cases hsave
  rw [hcap, List.take_length]

end AndroidArt.Profile
