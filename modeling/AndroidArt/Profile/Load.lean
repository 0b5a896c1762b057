/-
Module: AndroidArt.Profile.Load
Purpose: `ProfileCompilationInfo::LoadInternal` from the inflated payload on: the line headers
  (`ReadProfileLineHeader`), `RemapProfileIndex`, and each line (`ReadProfileLine`, with
  `ReadMethods`, `ReadInlineCache`, `ReadClasses`, the bitmap and `ReadAggregationCounters`),
  over a `SafeBuffer`, then the global aggregation count and the check that every byte was read.
Trusted boundary: the file header, `number_of_dex_files` apart, and inflation are taken to be
  valid: the payload is the inflated bytes. `SafeBuffer::Advance` does not check its bound, and
  the model keeps the offset it reaches; the bitmap copy of a line then reads the bytes that are
  there, where the code would read past the buffer. The error texts are strings, a dex location
  in one byte by byte.
Main exports: SafeBuffer, LoadState, readMethods, readClasses
-/
import AndroidArt.Profile.Save

namespace AndroidArt.Profile

open AndroidArt.Lib

/-- `ProfileLoadStatus`. -/
inductive ProfileLoadStatus where
  | wouldOverwiteData
  | ioError
  | versionMismatch
  | badData
  | success
deriving Repr, DecidableEq

/-- A `ProfileLoadStatus` returned as a `bool`: the enumerator's value, zero only for the
first enumerator. -/
def ProfileLoadStatus.toBool : ProfileLoadStatus → Bool
  | .wouldOverwiteData => false
  | _ => true

/-- `SafeBuffer` over the payload: its bytes and the offset of `ptr_current_`. -/
structure SafeBuffer where
  data : List UInt8
  current : Nat
deriving Repr, DecidableEq

namespace SafeBuffer

/-- `CountUnreadBytes()`: `ptr_end_ - ptr_current_` as a `size_t`, which wraps once `Advance`
has gone past the end. -/
def countUnreadBytes (b : SafeBuffer) : Nat :=
  (((b.data.length : Int) - b.current) % 2 ^ 64).toNat

/-- `ReadUintAndAdvance<T>` for a `T` of `width` bytes. -/
def readUintAndAdvance (b : SafeBuffer) (width : Nat) : Option (Nat × SafeBuffer) :=
  if b.current + width > b.data.length then none
  else
    some (LittleEndian.ofBytes ((b.data.drop b.current).take width),
      { b with current := b.current + width })

/-- `Advance(data_size)`. -/
def advance (b : SafeBuffer) (dataSize : Nat) : SafeBuffer :=
  { b with current := b.current + dataSize }

/-- The `size` bytes from `GetCurrentPtr()` on that are inside the buffer. -/
def peek (b : SafeBuffer) (size : Nat) : List UInt8 :=
  (b.data.drop b.current).take size

/-- The bytes not read yet. -/
def unread (b : SafeBuffer) : List UInt8 := b.data.drop b.current

@[simp] theorem advance_advance (b : SafeBuffer) (m n : Nat) :
    (b.advance m).advance n = b.advance (m + n) := by
  simp [advance, Nat.add_assoc]

theorem unread_advance (b : SafeBuffer) (n : Nat) : (b.advance n).unread = b.unread.drop n := by
  simp [unread, advance, List.drop_drop]

theorem unread_advance_of_unread {b : SafeBuffer} {bytes rest : List UInt8} {width : Nat}
    (hunread : b.unread = bytes ++ rest) (hwidth : bytes.length = width) :
    (b.advance width).unread = rest := by
  rw [unread_advance, hunread, List.drop_left' hwidth]

theorem peek_of_unread {b : SafeBuffer} {bytes rest : List UInt8}
    (hunread : b.unread = bytes ++ rest) :
    b.peek bytes.length = bytes := by
  rw [peek, ← unread, hunread, List.take_left' rfl]

/-- While bytes are left, the `size_t` count is their number. -/
theorem countUnreadBytes_of_unread_ne_nil {b : SafeBuffer} (hsize : b.data.length < 2 ^ 64)
    (h : b.unread ≠ []) : b.countUnreadBytes = b.unread.length := by
  have hlt : b.current < b.data.length := by
    by_contra hge
    exact h (List.drop_eq_nil_of_le (by omega))
  have hlen : b.unread.length = b.data.length - b.current := List.length_drop
  have hcast : (b.data.length : Int) - b.current = ((b.data.length - b.current : Nat) : Int) := by
    omega
  rw [countUnreadBytes, hlen, hcast, Int.emod_eq_of_lt (by omega) (by omega), Int.toNat_natCast]

/-- A read of bytes that are there gives their value and moves past them. -/
theorem readUintAndAdvance_of_unread {b : SafeBuffer} {bytes rest : List UInt8} {width : Nat}
    (hunread : b.unread = bytes ++ rest) (hwidth : bytes.length = width) (hpos : 0 < width) :
    b.readUintAndAdvance width = some (LittleEndian.ofBytes bytes, b.advance width) := by
  have hlen : b.data.length - b.current = width + rest.length := by
    rw [← List.length_drop, ← unread, hunread, List.length_append, hwidth]
  unfold readUintAndAdvance
  rw [if_neg (by omega), ← unread, hunread, List.take_left' hwidth]
  rfl

end SafeBuffer

/-- `ProfileLineHeader`. -/
structure ProfileLineHeader where
  dexLocation : List UInt8
  classSetSize : Nat
  methodRegionSizeBytes : Nat
  checksum : Nat
  numMethodIds : Nat
deriving Repr, DecidableEq

/-- What a load changes: the profile, the buffer and the error text. -/
structure LoadState where
  info : ProfileCompilationInfo
  buffer : SafeBuffer
  error : String
deriving DecidableEq

/-! ### Reader steps -/

/-- `READ_UINT(type, buffer, dest, error)` for a `type` of `width` bytes: `none` when the
buffer is too short, the error then being `"Could not read " #dest`. -/
def readUint (width : Nat) (dest : String) : StateM LoadState (Option Nat) := fun s =>
  match s.buffer.readUintAndAdvance width with
  | some (value, buffer) => (some value, { s with buffer := buffer })
  | none => (none, { s with error := "Could not read " ++ dest })

def countUnreadBytes : StateM LoadState Nat := fun s => (s.buffer.countUnreadBytes, s)

/-- `*error = text`. -/
def setError (text : String) : StateM LoadState Unit := modify fun s => { s with error := text }

/-- `*error += text`. -/
def appendError (text : String) : StateM LoadState Unit :=
  modify fun s => { s with error := s.error ++ text }

/-- `GetOrAddDexFileData` on the profile being loaded. -/
def getOrAddLine (profileKey : List UInt8) (checksum numMethodIds : Nat) :
    StateM LoadState (Option Nat) := fun s =>
  match s.info.getOrAddDexFileData profileKey checksum numMethodIds with
  | none => (none, s)
  | some (index, info) => (some index, { s with info := info })

/-- The line of a profile index, as the pointer of `GetOrAddDexFileData` sees it. -/
def line (index : Nat) : StateM LoadState (Option DexFileData) := fun s =>
  (s.info.info[index]?, s)

def modifyLine (index : Nat) (f : DexFileData → DexFileData) : StateM LoadState Unit :=
  modify fun s => { s with info := s.info.modifyLine index f }

@[simp] theorem run_countUnreadBytes (s : LoadState) :
    countUnreadBytes.run s = pure (s.buffer.countUnreadBytes, s) := rfl

@[simp] theorem run_setError (text : String) (s : LoadState) :
    (setError text).run s = pure ((), { s with error := text }) := rfl

@[simp] theorem run_appendError (text : String) (s : LoadState) :
    (appendError text).run s = pure ((), { s with error := s.error ++ text }) := rfl

theorem run_readUint_of_unread {info : ProfileCompilationInfo} {b : SafeBuffer} {error : String}
    {bytes rest : List UInt8} {width : Nat} (dest : String) (hunread : b.unread = bytes ++ rest)
    (hwidth : bytes.length = width) (hpos : 0 < width) :
    (readUint width dest).run ⟨info, b, error⟩ =
      pure (some (LittleEndian.ofBytes bytes), ⟨info, b.advance width, error⟩) := by
  simp only [readUint, StateT.run, SafeBuffer.readUintAndAdvance_of_unread hunread hwidth hpos]
  rfl

/-- A dex location as text. -/
def keyText (key : List UInt8) : String :=
  String.ofList (key.map fun b => Char.ofNat b.toNat)

/-! ### Inline caches -/

/-- The innermost loop of `ReadInlineCache`: the `dex_classes_size` type indices of one dex
file, each added under its remapped profile index, or making the cache miss types when the dex
file was filtered out. -/
def readDexClasses (dexProfileIndexRemap : List (Nat × Nat)) (dexProfileIndex : Nat) :
    Nat → DexPcData → StateM LoadState (Bool × DexPcData)
  | 0, dexPcData => pure (true, dexPcData)
  | dexClassesSize + 1, dexPcData => do
    let some typeIndex ← readUint 2 "type_index" | return (false, dexPcData)
    let dexPcData := match dexProfileIndexRemap.lookup dexProfileIndex with
      | none => dexPcData.setIsMissingTypes
      | some index => dexPcData.addClass index typeIndex
    readDexClasses dexProfileIndexRemap dexProfileIndex dexClassesSize dexPcData

/-- The loop of `ReadInlineCache` over the `dex_to_classes_map_size` dex files of a dex pc. -/
def readDexToClassesMap (numberOfDexFiles : Nat) (dexProfileIndexRemap : List (Nat × Nat)) :
    Nat → DexPcData → StateM LoadState (Bool × DexPcData)
  | 0, dexPcData => pure (true, dexPcData)
  | dexToClassesMapSize + 1, dexPcData => do
    let some dexProfileIndex ← readUint 1 "dex_profile_index" | return (false, dexPcData)
    let some dexClassesSize ← readUint 1 "dex_classes_size" | return (false, dexPcData)
    if dexProfileIndex ≥ numberOfDexFiles then
      setError ("dex_profile_index out of bounds " ++ toString dexProfileIndex ++ " " ++
        toString numberOfDexFiles)
      return (false, dexPcData)
    let (ok, dexPcData) ←
      readDexClasses dexProfileIndexRemap dexProfileIndex dexClassesSize dexPcData
    if !ok then return (false, dexPcData)
    readDexToClassesMap numberOfDexFiles dexProfileIndexRemap dexToClassesMapSize dexPcData

/-- The loop of `ReadInlineCache` over its `inline_cache_size` dex pcs. -/
def readInlineCacheEntries (numberOfDexFiles : Nat) (dexProfileIndexRemap : List (Nat × Nat)) :
    Nat → InlineCacheMap → StateM LoadState (Bool × InlineCacheMap)
  | 0, inlineCache => pure (true, inlineCache)
  | inlineCacheSize + 1, inlineCache => do
    let some dexPc ← readUint 2 "dex_pc" | return (false, inlineCache)
    let some dexToClassesMapSize ← readUint 1 "dex_to_classes_map_size"
      | return (false, inlineCache)
    if dexToClassesMapSize = kIsMissingTypesEncoding then
      readInlineCacheEntries numberOfDexFiles dexProfileIndexRemap inlineCacheSize
        (alterDexPc inlineCache dexPc DexPcData.setIsMissingTypes)
    else if dexToClassesMapSize = kIsMegamorphicEncoding then
      readInlineCacheEntries numberOfDexFiles dexProfileIndexRemap inlineCacheSize
        (alterDexPc inlineCache dexPc DexPcData.setIsMegamorphic)
    else
      let (ok, dexPcData) ← readDexToClassesMap numberOfDexFiles dexProfileIndexRemap
        dexToClassesMapSize ((inlineCache.lookup dexPc).getD DexPcData.empty)
      let inlineCache := alterDexPc inlineCache dexPc fun _ => dexPcData
      if !ok then return (false, inlineCache)
      readInlineCacheEntries numberOfDexFiles dexProfileIndexRemap inlineCacheSize inlineCache

/-- `ReadInlineCache(buffer, number_of_dex_files, dex_profile_index_remap, inline_cache,
error)`. -/
def readInlineCache (numberOfDexFiles : Nat) (dexProfileIndexRemap : List (Nat × Nat))
    (inlineCache : InlineCacheMap) : StateM LoadState (Bool × InlineCacheMap) := do
  let some inlineCacheSize ← readUint 2 "inline_cache_size" | return (false, inlineCache)
  readInlineCacheEntries numberOfDexFiles dexProfileIndexRemap inlineCacheSize inlineCache

/-! ### Methods and classes -/

/-- The loop of `ReadMethods`, which reads methods while more than
`expectedUnreadBytesAfterOperation` bytes are unread.  `fuel` bounds its passes: `readMethods`
gives one more than the unread bytes, and every pass that goes on reads at least the two bytes
of a method index. -/
def readMethodsLoop (numberOfDexFiles : Nat) (lineHeader : ProfileLineHeader)
    (dexProfileIndexRemap : List (Nat × Nat)) (expectedUnreadBytesAfterOperation : Nat) :
    Nat → Nat → StateM LoadState Bool
  | 0, _ => pure false
  | fuel + 1, lastMethodIndex => do
    if (← countUnreadBytes) ≤ expectedUnreadBytesAfterOperation then return true
    -- `ReadProfileLine` looked the line up before: the code does not test for null here
    let some dataIndex ← getOrAddLine lineHeader.dexLocation lineHeader.checksum
      lineHeader.numMethodIds | return false
    let some diffWithLastMethodIndex ← readUint 2 "diff_with_last_method_index" | return false
    let methodIndex := (lastMethodIndex + diffWithLastMethodIndex) % 2 ^ 16
    let some data ← line dataIndex | return false
    let some data := data.findOrAddMethod methodIndex | return false
    let (ok, inlineCache) ←
      readInlineCache numberOfDexFiles dexProfileIndexRemap (data.inlineCache methodIndex)
    modifyLine dataIndex fun _ => data.setInlineCache methodIndex inlineCache
    if !ok then return false
    readMethodsLoop numberOfDexFiles lineHeader dexProfileIndexRemap
      expectedUnreadBytesAfterOperation fuel methodIndex

/-- `ReadMethods(buffer, number_of_dex_files, line_header, dex_profile_index_remap, error)`.
The unread count before the loop is kept as a `uint32_t`. -/
def readMethods (numberOfDexFiles : Nat) (lineHeader : ProfileLineHeader)
    (dexProfileIndexRemap : List (Nat × Nat)) : StateM LoadState Bool := do
  let unreadBytesBeforeOperation := (← countUnreadBytes) % 2 ^ 32
  if unreadBytesBeforeOperation < lineHeader.methodRegionSizeBytes then
    appendError "Profile EOF reached prematurely for ReadMethod"
    return ProfileLoadStatus.badData.toBool
  -- the `size_t` difference does not wrap: the count is at least its low 32 bits
  let expectedUnreadBytesAfterOperation :=
    (← countUnreadBytes) - lineHeader.methodRegionSizeBytes
  if !(← readMethodsLoop numberOfDexFiles lineHeader dexProfileIndexRemap
      expectedUnreadBytesAfterOperation ((← countUnreadBytes) + 1) 0) then
    return false
  let totalBytesRead :=
    (((unreadBytesBeforeOperation : Int) - (← countUnreadBytes)) % 2 ^ 32).toNat
  if totalBytesRead ≠ lineHeader.methodRegionSizeBytes then
    appendError "Profile data inconsistent for ReadMethods"
    return false
  return true

/-- Whenever fewer than `method_region_size_bytes` bytes are left, `ReadMethods` returns
`kProfileLoadBadData`, which is `true`, and reads nothing. -/
theorem run_readMethods_of_short (numberOfDexFiles : Nat) (lineHeader : ProfileLineHeader)
    (dexProfileIndexRemap : List (Nat × Nat)) (s : LoadState)
    (hshort : s.buffer.countUnreadBytes % 2 ^ 32 < lineHeader.methodRegionSizeBytes) :
    (readMethods numberOfDexFiles lineHeader dexProfileIndexRemap).run s =
      pure (true,
        { s with error := s.error ++ "Profile EOF reached prematurely for ReadMethod" }) := by
  simp only [readMethods, StateT.run_bind, run_countUnreadBytes, pure_bind]
  rw [if_pos hshort]
  rfl

/-- The loop of `ReadClasses` over `class_set_size` classes. -/
def readClassesLoop (lineHeader : ProfileLineHeader) : Nat → Nat → StateM LoadState Bool
  | 0, _ => pure true
  | remaining + 1, lastClassIndex => do
    let some diffWithLastClassIndex ← readUint 2 "diff_with_last_class_index" | return false
    let typeIndex := (lastClassIndex + diffWithLastClassIndex) % 2 ^ 16
    let s ← get
    let some info := s.info.addClassIndex lineHeader.dexLocation lineHeader.checksum typeIndex
      lineHeader.numMethodIds | return false
    set { s with info := info }
    readClassesLoop lineHeader remaining typeIndex

/-- `ReadClasses(buffer, line_header, error)`.  Its test for a short buffer compares with
`class_set_size`, not with the `2 * class_set_size` bytes it reads. -/
def readClasses (lineHeader : ProfileLineHeader) : StateM LoadState Bool := do
  let unreadBytesBeforeOp ← countUnreadBytes
  if unreadBytesBeforeOp < lineHeader.classSetSize then
    appendError "Profile EOF reached prematurely for ReadClasses"
    return ProfileLoadStatus.badData.toBool
  if !(← readClassesLoop lineHeader lineHeader.classSetSize 0) then return false
  -- reads only move forward, so the `size_t` difference does not wrap
  let totalBytesRead := unreadBytesBeforeOp - (← countUnreadBytes)
  let expectedBytesRead := lineHeader.classSetSize * 2
  if totalBytesRead ≠ expectedBytesRead then
    appendError "Profile data inconsistent for ReadClasses"
    return false
  return true

/-- Whenever fewer than `class_set_size` bytes are left, `ReadClasses` returns
`kProfileLoadBadData`, which is `true`, and reads nothing. -/
theorem run_readClasses_of_short (lineHeader : ProfileLineHeader) (s : LoadState)
    (hshort : s.buffer.countUnreadBytes < lineHeader.classSetSize) :
    (readClasses lineHeader).run s =
      pure (true,
        { s with error := s.error ++ "Profile EOF reached prematurely for ReadClasses" }) := by
  simp only [readClasses, StateT.run_bind, run_countUnreadBytes, pure_bind]
  rw [if_pos hshort]
  rfl

/-! ### Aggregation counters -/

/-- Writes entry `index` of a counter vector. -/
def setCounter (counters : List (Nat × Nat)) (index value : Nat) : List (Nat × Nat) :=
  alterOrdered index 0 (fun _ => value) counters

/-- The class counters of `ReadAggregationCounters`, one for each class of the line. -/
def readClassCounters (dataIndex : Nat) : List Nat → StateM LoadState Bool
  | [] => pure true
  | typeIndex :: classes => do
    let some value ← readUint 2 "dex_data.class_counters[class_it.index_]" | return false
    modifyLine dataIndex fun d =>
      { d with classCounters := setCounter d.classCounters typeIndex value }
    readClassCounters dataIndex classes

/-- The method counters of `ReadAggregationCounters`, one for each method in the profile. -/
def readMethodCounters (dataIndex : Nat) (dexData : DexFileData) :
    List Nat → StateM LoadState Bool
  | [] => pure true
  | methodIdx :: methods => do
    if dexData.isInProfile methodIdx then
      let some value ← readUint 2 "dex_data.method_counters[method_idx]" | return false
      modifyLine dataIndex fun d =>
        { d with methodCounters := setCounter d.methodCounters methodIdx value }
    readMethodCounters dataIndex dexData methods

/-- `ReadAggregationCounters(buffer, dex_data, error)`. -/
def readAggregationCounters (dataIndex : Nat) : StateM LoadState Bool := do
  let some dexData ← line dataIndex | return false
  let unreadBytesBeforeOp ← countUnreadBytes
  let expectedByteCount := 2 * (dexData.classSet.length + dexData.methodMap.length + 2)
  if unreadBytesBeforeOp < expectedByteCount then
    appendError "Profile EOF reached prematurely for ReadAggregationCounters"
    return false
  let some numClassCounters ← readUint 2 "num_class_counters" | return false
  if numClassCounters ≠ dexData.classSet.length then
    setError "Invalid class size when reading counters"
    return false
  if !(← readClassCounters dataIndex dexData.classSet) then return false
  let some numMethodCounters ← readUint 2 "num_method_counters" | return false
  if numMethodCounters ≠ dexData.getNumMethodCounters then
    setError "Invalid class size when reading counters"
    return false
  readMethodCounters dataIndex dexData (List.range dexData.numMethodIds)

/-! ### Lines -/

/-- `ReadProfileLine(buffer, number_of_dex_files, line_header, dex_profile_index_remap,
merge_classes, error)`.  The result of `ReadAggregationCounters` is discarded. -/
def readProfileLine (numberOfDexFiles : Nat) (lineHeader : ProfileLineHeader)
    (dexProfileIndexRemap : List (Nat × Nat)) (mergeClasses : Bool) :
    StateM LoadState ProfileLoadStatus := do
  let some dataIndex ← getOrAddLine lineHeader.dexLocation lineHeader.checksum
      lineHeader.numMethodIds
    | do
      setError ("Error when reading profile file line header: checksum mismatch for " ++
        keyText lineHeader.dexLocation)
      return .badData
  if !(← readMethods numberOfDexFiles lineHeader dexProfileIndexRemap) then return .badData
  if mergeClasses then
    if !(← readClasses lineHeader) then return .badData
  let some data ← line dataIndex | return .badData
  let bytes := data.bitmapStorage.length
  if (← countUnreadBytes) < bytes then
    appendError "Profile EOF reached prematurely for ReadProfileHeaderDexLocation"
    return .badData
  let s ← get
  set { s with
    info := s.info.modifyLine dataIndex fun d => { d with bitmapStorage := s.buffer.peek bytes }
    buffer := s.buffer.advance bytes }
  if (← get).info.storesAggregationCounters then
    let _ ← readAggregationCounters dataIndex
  return .success

/-- `ReadProfileLineHeaderElements(buffer, &dex_location_size, line_header, error)`. -/
def readProfileLineHeaderElements : StateM LoadState (Option (Nat × ProfileLineHeader)) := do
  let some dexLocationSize ← readUint 2 "*dex_location_size" | return none
  let some classSetSize ← readUint 2 "line_header->class_set_size" | return none
  let some methodRegionSizeBytes ← readUint 4 "line_header->method_region_size_bytes"
    | return none
  let some checksum ← readUint 4 "line_header->checksum" | return none
  let some numMethodIds ← readUint 4 "line_header->num_method_ids" | return none
  return some (dexLocationSize,
    { dexLocation := [], classSetSize, methodRegionSizeBytes, checksum, numMethodIds })

/-- `ReadProfileLineHeader(buffer, &line_header, error)`: `none` is `kProfileLoadBadData`, the
only status it fails with. -/
def readProfileLineHeader : StateM LoadState (Option ProfileLineHeader) := do
  if (← countUnreadBytes) < kLineHeaderSize then
    appendError "Profile EOF reached prematurely for ReadProfileLineHeader"
    return none
  let some (dexLocationSize, lineHeader) ← readProfileLineHeaderElements | return none
  if dexLocationSize = 0 ∨ dexLocationSize > kMaxDexFileKeyLength then
    setError ("DexFileKey has an invalid size: " ++ toString dexLocationSize)
    return none
  if (← countUnreadBytes) < dexLocationSize then
    appendError "Profile EOF reached prematurely for ReadProfileHeaderDexLocation"
    return none
  let s ← get
  set { s with buffer := s.buffer.advance dexLocationSize }
  return some { lineHeader with dexLocation := s.buffer.peek dexLocationSize }

/-- The fields of a line header that `Save` wrote, read back. -/
theorem run_readProfileLineHeaderElements (d : DexFileData) {rest : List UInt8} {s : LoadState}
    (hunread : s.buffer.unread = lineHeaderToBuffer d ++ rest) :
    readProfileLineHeaderElements.run s =
      pure (some (d.profileKey.length % 2 ^ 16,
          { dexLocation := [], classSetSize := d.classSet.length % 2 ^ 16,
            methodRegionSizeBytes := getMethodsRegionSize d, checksum := d.checksum % 2 ^ 32,
            numMethodIds := d.numMethodIds % 2 ^ 32 }),
        { s with buffer := s.buffer.advance kLineHeaderSize }) := by
  obtain ⟨info, b, error⟩ := s
  -- the five fields, each read from the front of what is left
  have h1 : b.unread = addUintToBuffer 2 (d.profileKey.length % 2 ^ 16) ++
      (addUintToBuffer 2 (d.classSet.length % 2 ^ 16) ++
      (addUintToBuffer 4 (getMethodsRegionSize d) ++ (addUintToBuffer 4 d.checksum ++
      (addUintToBuffer 4 d.numMethodIds ++ (d.profileKey ++ rest))))) := by
    rw [hunread, lineHeaderToBuffer]
    simp only [List.append_assoc]
  have h2 := SafeBuffer.unread_advance_of_unread h1 (length_addUintToBuffer _ _)
  have h3 := SafeBuffer.unread_advance_of_unread h2 (length_addUintToBuffer _ _)
  have h4 := SafeBuffer.unread_advance_of_unread h3 (length_addUintToBuffer _ _)
  have h5 := SafeBuffer.unread_advance_of_unread h4 (length_addUintToBuffer _ _)
  simp only [readProfileLineHeaderElements, StateT.run_bind, pure_bind,
    run_readUint_of_unread _ h1 (length_addUintToBuffer _ _) (by decide),
    run_readUint_of_unread _ h2 (length_addUintToBuffer _ _) (by decide),
    run_readUint_of_unread _ h3 (length_addUintToBuffer _ _) (by decide),
    run_readUint_of_unread _ h4 (length_addUintToBuffer _ _) (by decide),
    run_readUint_of_unread _ h5 (length_addUintToBuffer _ _) (by decide)]
  have hregion : getMethodsRegionSize d % 4294967296 = getMethodsRegionSize d :=
    Nat.mod_eq_of_lt (getMethodsRegionSize_lt d)
  simp [ofBytes_addUintToBuffer, hregion, kLineHeaderSize]

theorem countUnreadBytes_lineHeaderToBuffer (d : DexFileData) {rest : List UInt8}
    {b : SafeBuffer} (hsize : b.data.length < 2 ^ 64)
    (hunread : b.unread = lineHeaderToBuffer d ++ rest) :
    b.countUnreadBytes = kLineHeaderSize + d.profileKey.length + rest.length := by
  have hne : b.unread ≠ [] := by
    apply List.ne_nil_of_length_pos
    rw [hunread, List.length_append, length_lineHeaderToBuffer]
    simp [kLineHeaderSize]
  rw [SafeBuffer.countUnreadBytes_of_unread_ne_nil hsize hne, hunread, List.length_append,
    length_lineHeaderToBuffer]

/-- A buffer that starts with a line header holds at least the header's sixteen bytes. -/
theorem kLineHeaderSize_le_countUnreadBytes (d : DexFileData) {rest : List UInt8}
    {b : SafeBuffer} (hsize : b.data.length < 2 ^ 64)
    (hunread : b.unread = lineHeaderToBuffer d ++ rest) :
    kLineHeaderSize ≤ b.countUnreadBytes := by
  rw [countUnreadBytes_lineHeaderToBuffer d hsize hunread, Nat.add_assoc]
  exact Nat.le_add_right _ _

/-- The line header `Save` writes for a dex file of empty key is rejected: its key size is
zero. -/
theorem run_readProfileLineHeader_of_nil (d : DexFileData) (hkey : d.profileKey = [])
    {rest : List UInt8} {s : LoadState} (hsize : s.buffer.data.length < 2 ^ 64)
    (hunread : s.buffer.unread = lineHeaderToBuffer d ++ rest) :
    readProfileLineHeader.run s = pure (none, { s with
      buffer := s.buffer.advance kLineHeaderSize
      error := "DexFileKey has an invalid size: 0" }) := by
  have hcount := Nat.not_lt.mpr (kLineHeaderSize_le_countUnreadBytes d hsize hunread)
  simp only [readProfileLineHeader, StateT.run_bind, run_countUnreadBytes, pure_bind]
  rw [if_neg hcount]
  simp [run_readProfileLineHeaderElements d hunread, hkey]
  rfl

/-- The line header `Save` writes for a dex file whose key has between 1 and
`kMaxDexFileKeyLength` bytes is read back, key included. -/
theorem run_readProfileLineHeader_lineHeaderToBuffer (d : DexFileData)
    (hkey : 0 < d.profileKey.length) (hmax : d.profileKey.length ≤ kMaxDexFileKeyLength)
    {rest : List UInt8} {s : LoadState} (hsize : s.buffer.data.length < 2 ^ 64)
    (hunread : s.buffer.unread = lineHeaderToBuffer d ++ rest) :
    readProfileLineHeader.run s = pure (some
        { dexLocation := d.profileKey, classSetSize := d.classSet.length % 2 ^ 16,
          methodRegionSizeBytes := getMethodsRegionSize d, checksum := d.checksum % 2 ^ 32,
          numMethodIds := d.numMethodIds % 2 ^ 32 },
      { s with buffer := s.buffer.advance (kLineHeaderSize + d.profileKey.length) }) := by
  have hcount := Nat.not_lt.mpr (kLineHeaderSize_le_countUnreadBytes d hsize hunread)
  have hlen : d.profileKey.length % 2 ^ 16 = d.profileKey.length := by
    unfold kMaxDexFileKeyLength at hmax
    exact Nat.mod_eq_of_lt (by omega)
  have hvalid : ¬ (d.profileKey.length % 2 ^ 16 = 0 ∨
      d.profileKey.length % 2 ^ 16 > kMaxDexFileKeyLength) := by
    rw [hlen]
    omega
  -- the key and what follows it are left after the sixteen bytes of fields
  have hkeyUnread : (s.buffer.advance kLineHeaderSize).unread = d.profileKey ++ rest := by
    rw [SafeBuffer.unread_advance, hunread, lineHeaderToBuffer,
      List.append_assoc _ d.profileKey rest, List.drop_left' (by simp [kLineHeaderSize])]
  have hkeyCount : ¬ (s.buffer.advance kLineHeaderSize).countUnreadBytes <
      d.profileKey.length % 2 ^ 16 := by
    have hne : (s.buffer.advance kLineHeaderSize).unread ≠ [] := by
      rw [hkeyUnread]
      exact List.ne_nil_of_length_pos (by simp; omega)
    rw [SafeBuffer.countUnreadBytes_of_unread_ne_nil (b := s.buffer.advance kLineHeaderSize)
      hsize hne, hkeyUnread, hlen]
    simp
  simp only [readProfileLineHeader, StateT.run_bind, run_countUnreadBytes, pure_bind]
  rw [if_neg hcount]
  simp only [StateT.run_bind, run_readProfileLineHeaderElements d hunread, pure_bind]
  rw [if_neg hvalid]
  simp only [StateT.run_bind, run_countUnreadBytes, pure_bind]
  rw [if_neg hkeyCount]
  simp only [StateT.run_bind, StateT.run_get, StateT.run_set, pure_bind, StateT.run_pure, hlen,
    SafeBuffer.peek_of_unread hkeyUnread, SafeBuffer.advance_advance]

/-- The loop of `LoadInternal` over the `number_of_dex_files` line headers. -/
def readProfileLineHeaders : Nat → StateM LoadState (Option (List ProfileLineHeader))
  | 0 => pure (some [])
  | numberOfDexFiles + 1 => do
    let some lineHeader ← readProfileLineHeader | return none
    let some profileLineHeaders ← readProfileLineHeaders numberOfDexFiles | return none
    return some (lineHeader :: profileLineHeaders)

/-- The first loop of `RemapProfileIndex`: no accepted line has a dex file of the profile with
another checksum. -/
def checksumsMatch (p : ProfileCompilationInfo) (filter : List UInt8 → Nat → Bool)
    (profileLineHeaders : List ProfileLineHeader) : Bool :=
  profileLineHeaders.all fun h =>
    !filter h.dexLocation h.checksum ||
      match p.findDexData h.dexLocation with
      | some (_, dexData) => dexData.checksum == h.checksum
      | none => true

/-- The second loop of `RemapProfileIndex`: each accepted line, by its position `i` in the
file, to the profile index of its dex file, added if new. -/
def remapLines (filter : List UInt8 → Nat → Bool) :
    Nat → List ProfileLineHeader → StateM LoadState (Option (List (Nat × Nat)))
  | _, [] => pure (some [])
  | i, h :: profileLineHeaders => do
    if !filter h.dexLocation h.checksum then
      return ← remapLines filter (i + 1) profileLineHeaders
    let some index ← getOrAddLine h.dexLocation h.checksum h.numMethodIds | return none
    let some dexData ← line index | return none
    let some remap ← remapLines filter (i + 1) profileLineHeaders | return none
    return some ((i, dexData.profileIndex) :: remap)

/-- `RemapProfileIndex(profile_line_headers, filter_fn, &dex_profile_index_remap)`. -/
def remapProfileIndex (profileLineHeaders : List ProfileLineHeader)
    (filter : List UInt8 → Nat → Bool) : StateM LoadState (Option (List (Nat × Nat))) := do
  if !checksumsMatch (← get).info filter profileLineHeaders then return none
  remapLines filter 0 profileLineHeaders

/-- The loop of `LoadInternal` over the lines, each read or skipped as the filter says. -/
def readProfileLines (numberOfDexFiles : Nat) (dexProfileIndexRemap : List (Nat × Nat))
    (mergeClasses : Bool) (filter : List UInt8 → Nat → Bool) :
    List ProfileLineHeader → StateM LoadState ProfileLoadStatus
  | [] => pure .success
  | lineHeader :: profileLineHeaders => do
    if !filter lineHeader.dexLocation lineHeader.checksum then
      let profileLineSize := lineHeader.classSetSize * 2 + lineHeader.methodRegionSizeBytes +
        computeBitmapStorage lineHeader.numMethodIds
      modify fun s => { s with buffer := s.buffer.advance profileLineSize }
    else
      let status ← readProfileLine numberOfDexFiles lineHeader dexProfileIndexRemap mergeClasses
      if status ≠ .success then return status
    readProfileLines numberOfDexFiles dexProfileIndexRemap mergeClasses filter profileLineHeaders

/-- `LoadInternal` after the payload is inflated. -/
def loadPayload (numberOfDexFiles : Nat) (mergeClasses : Bool)
    (filter : List UInt8 → Nat → Bool) : StateM LoadState ProfileLoadStatus := do
  let some profileLineHeaders ← readProfileLineHeaders numberOfDexFiles | return .badData
  let some dexProfileIndexRemap ← remapProfileIndex profileLineHeaders filter | return .badData
  let status ← readProfileLines numberOfDexFiles dexProfileIndexRemap mergeClasses filter
    profileLineHeaders
  if status ≠ .success then return status
  if (← get).info.storesAggregationCounters then
    let s ← get
    match s.buffer.readUintAndAdvance 2 with
    | none =>
      setError "Cannot read the global aggregation count"
      return .badData
    | some (aggregationCount, buffer) =>
      set { s with buffer := buffer, info := { s.info with aggregationCount := aggregationCount } }
  let unread ← countUnreadBytes
  if unread > 0 then
    setError ("Unexpected content in the profile file: " ++ toString unread ++ " extra bytes")
    return .badData
  return .success

/-- `LoadInternal(fd, &error, merge_classes, filter_fn)` into `p`, for a file of
`number_of_dex_files` lines whose inflated payload is `payload`: the status, and the profile
as the load leaves it. -/
def loadInternal (p : ProfileCompilationInfo) (numberOfDexFiles : Nat) (payload : List UInt8)
    (mergeClasses : Bool) (filter : List UInt8 → Nat → Bool) :
    ProfileLoadStatus × ProfileCompilationInfo :=
  let (status, s) := Id.run ((loadPayload numberOfDexFiles mergeClasses filter).run
    { info := p, buffer := { data := payload, current := 0 }, error := "" })
  (status, s.info)

/-- `Load(fd, merge_classes, filter_fn)`: true exactly for `kProfileLoadSuccess`. -/
def load (p : ProfileCompilationInfo) (numberOfDexFiles : Nat) (payload : List UInt8)
    (mergeClasses : Bool) (filter : List UInt8 → Nat → Bool) : Bool × ProfileCompilationInfo :=
  let (status, q) := loadInternal p numberOfDexFiles payload mergeClasses filter
  (status == .success, q)

/-! ### Failures that `Load` lets through -/

/-- A payload of one line that announces 100 bytes of methods and ends after its one-byte key,
`"a"`. -/
def truncatedMethodsPayload : List UInt8 :=
  [1, 0, 0, 0, 100, 0, 0, 0, 0, 0, 0, 0, 0, 0, 0, 0, 97]

/-- `Load` accepts the payload.  The line header asks for 100 bytes of methods; from the state
in which `ReadProfileLine` calls it, `ReadMethods` finds them missing, reads none and returns
`kProfileLoadBadData`, which is `true`; and nothing after the line checks the bytes. -/
theorem load_accepts_truncated_methods_region :
    Id.run ((readProfileLineHeaders 1).run
        ⟨.empty, ⟨truncatedMethodsPayload, 0⟩, ""⟩) =
      (some [⟨[97], 0, 100, 0, 0⟩], ⟨.empty, ⟨truncatedMethodsPayload, 17⟩, ""⟩) ∧
    Id.run ((remapProfileIndex [⟨[97], 0, 100, 0, 0⟩] fun _ _ => true).run
        ⟨.empty, ⟨truncatedMethodsPayload, 17⟩, ""⟩) =
      (some [(0, 0)], ⟨⟨[DexFileData.make [97] 0 0 0], .profileVersion, 0⟩,
        ⟨truncatedMethodsPayload, 17⟩, ""⟩) ∧
    Id.run ((readMethods 1 ⟨[97], 0, 100, 0, 0⟩ [(0, 0)]).run
        ⟨⟨[DexFileData.make [97] 0 0 0], .profileVersion, 0⟩,
          ⟨truncatedMethodsPayload, 17⟩, ""⟩) =
      (true, ⟨⟨[DexFileData.make [97] 0 0 0], .profileVersion, 0⟩,
        ⟨truncatedMethodsPayload, 17⟩, "Profile EOF reached prematurely for ReadMethod"⟩) ∧
    load .empty 1 truncatedMethodsPayload true (fun _ _ => true) =
      (true, ⟨[DexFileData.make [97] 0 0 0], .profileVersion, 0⟩) := by
  refine ⟨by decide, by decide, by decide, by decide⟩

/-- For a profile with counters: a payload of one line with no method and no class, then the
two bytes of the global aggregation count and nothing else. -/
def missingCountersPayload : List UInt8 :=
  [1, 0, 0, 0, 0, 0, 0, 0, 0, 0, 0, 0, 0, 0, 0, 0, 97, 5, 0]

/-- `Load` accepts the payload: `ReadAggregationCounters` finds fewer bytes than the two counts
of the line need and fails, reading none, but `ReadProfileLine` discards its result, and the
two bytes are taken for the global count. -/
theorem load_ignores_failed_aggregation_counters :
    Id.run ((readAggregationCounters 0).run
        ⟨⟨[DexFileData.make [97] 0 0 0], .profileVersionWithCounters, 0⟩,
          ⟨missingCountersPayload, 17⟩, ""⟩) =
      (false, ⟨⟨[DexFileData.make [97] 0 0 0], .profileVersionWithCounters, 0⟩,
        ⟨missingCountersPayload, 17⟩,
        "Profile EOF reached prematurely for ReadAggregationCounters"⟩) ∧
    load ProfileCompilationInfo.empty.prepareForAggregationCounters 1 missingCountersPayload true
        (fun _ _ => true) =
      (true, ⟨[DexFileData.make [97] 0 0 0], .profileVersionWithCounters, 5⟩) := by
  refine ⟨by decide, by decide⟩

/-- The profile of one class, of type index 0, of a dex file whose key is empty, as
`AddClassIndex` makes it. -/
def emptyKeyProfile : ProfileCompilationInfo :=
  ⟨[{ DexFileData.make [] 0 0 0 with classSet := [0] }], .profileVersion, 0⟩

/-- A profile built by `AddClassIndex` from the empty one, with one dex file, a key shorter than
`kMaxDexFileKeyLength` and no method, is saved, but its payload does not load:
`ReadProfileLineHeader` rejects the key size 0 that `Save` wrote. -/
theorem save_load_rejects_empty_key (isTargetBuild : Bool) :
    ProfileCompilationInfo.empty.addClassIndex [] 0 0 0 = some emptyKeyProfile ∧
      emptyKeyProfile.info.length ≤ 255 ∧
      (∀ d ∈ emptyKeyProfile.info,
        d.profileKey.length < kMaxDexFileKeyLength ∧ d.numMethodIds ≤ 65535) ∧
      save isTargetBuild emptyKeyProfile =
        some ⟨.profileVersion, 1, 18,
          [0, 0, 1, 0, 0, 0, 0, 0, 0, 0, 0, 0, 0, 0, 0, 0, 0, 0]⟩ ∧
      load .empty 1 [0, 0, 1, 0, 0, 0, 0, 0, 0, 0, 0, 0, 0, 0, 0, 0, 0, 0] true
        (fun _ _ => true) = (false, .empty) := by
  refine ⟨by decide, by decide, by decide, ?_, by decide⟩
  cases isTargetBuild <;> decide

end AndroidArt.Profile
