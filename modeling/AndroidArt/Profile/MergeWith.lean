/-
Module: AndroidArt.Profile.MergeWith
Purpose: `ProfileCompilationInfo::MergeWith(other, merge_classes)`: the checksum loop over the
  lines of `other`, the loop that gives each of them a line of this profile with
  `GetOrAddDexFileData` and builds `dex_profile_index_remap`, the loop that merges the
  aggregation counters, the class set, the methods with their inline caches and the bitmap of
  each line, and the global aggregation count.
Trusted boundary: the method-counter loop over a `uint16_t` index runs over every method index,
  as in `ProfileCompilationInfo`. `SafeMap::Get` of the remap on a profile index it does not hold
  (which it `DCHECK`s against) is taken as `0`; `MergeBitmap` reads a missing byte of `other`
  (which it `DCHECK`s against) as `0`.
Main exports: incrementAggregationCounter, ProfileCompilationInfo.mergeWith,
  remapDexFiles_eq_append, mergeWith_fails_before_merge_loop
-/
import AndroidArt.Profile.Load

namespace AndroidArt.Profile

/-- `IncrementAggregationCounter(counter, value)`: the sum, saturated at the `uint16_t`
maximum. -/
def incrementAggregationCounter (counter value : Nat) : Nat :=
  if counter < 65535 - value then counter + value else 65535

/-- `SafeMap::Get` on `dex_profile_index_remap`. -/
def getRemapped (remap : List (Nat × Nat)) (index : Nat) : Nat :=
  (remap.lookup index).getD 0

/-! ### Merging one line -/

namespace DexFileData

/-- `ContainsClass(type_index)`. -/
def containsClass (d : DexFileData) (typeIndex : Nat) : Bool :=
  decide (typeIndex ∈ d.classSet)

/-- `MergeBitmap(other)`: every byte of the bitmap or-ed with the byte of `other`. -/
def mergeBitmap (d other : DexFileData) : DexFileData :=
  { d with bitmapStorage := d.bitmapStorage.mapIdx fun i b => b ||| other.bitmapStorage.getD i 0 }

/-- The class counters of `MergeWith`: each class of `other` adds its counter of `other`, or,
when `other` keeps no counters, one if this line holds the class already. -/
def mergeClassCounters (otherStores : Bool) (other d : DexFileData) : DexFileData :=
  other.classSet.foldl (fun d typeIdx =>
    let amount :=
      if otherStores then counter other.classCounters typeIdx
      else if d.containsClass typeIdx then 1 else 0
    let value := incrementAggregationCounter (counter d.classCounters typeIdx) amount
    { d with classCounters := setCounter d.classCounters typeIdx value }) d

/-- The method counters of `MergeWith`, over the methods that are in the profile of `other`. -/
def mergeMethodCounters (otherStores : Bool) (other d : DexFileData) : DexFileData :=
  (List.range other.numMethodIds).foldl (fun d methodIdx =>
    if other.isInProfile methodIdx then
      let amount :=
        if otherStores then counter other.methodCounters methodIdx
        else if d.isInProfile methodIdx then 1 else 0
      let value := incrementAggregationCounter (counter d.methodCounters methodIdx) amount
      { d with methodCounters := setCounter d.methodCounters methodIdx value }
    else d) d

/-- `class_set.insert(other.class_set.begin(), other.class_set.end())`. -/
def mergeClassSet (other d : DexFileData) : DexFileData :=
  let insert := fun s typeIdx => insertOrdered (fun a b => decide (a < b)) typeIdx s
  { d with classSet := other.classSet.foldl insert d.classSet }

end DexFileData

/-- What the merge loop does to the cache of one dex pc with the cache `other` of `other`:
missing types win, then megamorphic, else each class is added under its remapped profile
index. -/
def mergeDexPcData (remap : List (Nat × Nat)) (other dexPcData : DexPcData) : DexPcData :=
  if other.isMissingTypes then dexPcData.setIsMissingTypes
  else if other.isMegamorphic then dexPcData.setIsMegamorphic
  else
    other.classes.foldl
      (fun dpd c => dpd.addClass (getRemapped remap c.dexProfileIndex) c.typeIndex) dexPcData

/-- The inline caches of one method of `other` merged into those of this line, one dex pc
after another through `FindOrAddDexPc`. -/
def mergeInlineCache (remap : List (Nat × Nat)) (inlineCache other : InlineCacheMap) :
    InlineCacheMap :=
  other.foldl (fun ic e => alterDexPc ic e.1 (mergeDexPcData remap e.2)) inlineCache

/-- The methods of `other` merged into the line: `false` at the first method that
`FindOrAddMethod` rejects, with the methods merged before it. -/
def mergeMethods (remap : List (Nat × Nat)) :
    DexFileData → List (Nat × InlineCacheMap) → Bool × DexFileData
  | d, [] => (true, d)
  | d, (methodIndex, otherInlineCache) :: rest =>
    match d.findOrAddMethod methodIndex with
    | none => (false, d)
    | some d =>
      mergeMethods remap
        (d.setInlineCache methodIndex
          (mergeInlineCache remap (d.inlineCache methodIndex) otherInlineCache)) rest

/-- The body of the merge loop for the line `d` of this profile and the line `other`: the
counters (before anything else, so that they see what the line held), the classes, the
methods and, when they all went in, the bitmap. -/
def mergeLine (selfStores otherStores mergeClasses : Bool) (remap : List (Nat × Nat))
    (other d : DexFileData) : Bool × DexFileData :=
  let d :=
    if selfStores then
      (if mergeClasses then d.mergeClassCounters otherStores other else d).mergeMethodCounters
        otherStores other
    else d
  let d := if mergeClasses then d.mergeClassSet other else d
  match mergeMethods remap d other.methodMap with
  | (false, d) => (false, d)
  | (true, d) => (true, d.mergeBitmap other)

/-! ### The three loops -/

namespace ProfileCompilationInfo

/-- The first loop of `MergeWith`: no line of `other` meets a line of this profile under its
key with another checksum. -/
def checksumsMatchForMerge (p other : ProfileCompilationInfo) : Bool :=
  other.info.all fun od =>
    match p.findDexData od.profileKey with
    | none => true
    | some (_, d) => d.checksum == od.checksum

/-- The second loop of `MergeWith`: `GetOrAddDexFileData` for each line of `other` and
`dex_profile_index_remap.Put(other profile index, profile index)`; `false` at the first line
it rejects, with the lines added before it. -/
def remapDexFiles : ProfileCompilationInfo → List (Nat × Nat) → List DexFileData →
    Bool × ProfileCompilationInfo × List (Nat × Nat)
  | p, remap, [] => (true, p, remap)
  | p, remap, od :: rest =>
    match p.getOrAddDexFileData od.profileKey od.checksum od.numMethodIds with
    | none => (false, p, remap)
    | some (index, p) => remapDexFiles p (remap ++ [(od.profileIndex, index)]) rest

/-- The third loop of `MergeWith`: each line of `other` merged into the line of its key, which
the second loop made; `false` at the first line whose methods do not all go in, with that line
merged up to the method that failed. -/
def mergeLines (mergeClasses otherStores : Bool) (remap : List (Nat × Nat)) :
    ProfileCompilationInfo → List DexFileData → Bool × ProfileCompilationInfo
  | p, [] => (true, p)
  | p, od :: rest =>
    match p.findDexData od.profileKey with
    -- the code `DCHECK`s that the line is there
    | none => mergeLines mergeClasses otherStores remap p rest
    | some (index, d) =>
      match mergeLine p.storesAggregationCounters otherStores mergeClasses remap od d with
      | (false, d) => (false, p.modifyLine index fun _ => d)
      | (true, d) => mergeLines mergeClasses otherStores remap (p.modifyLine index fun _ => d) rest

/-- `MergeWith(other, merge_classes)`: whether it succeeded, and the profile after it. -/
def mergeWith (p other : ProfileCompilationInfo) (mergeClasses : Bool) :
    Bool × ProfileCompilationInfo :=
  if !p.checksumsMatchForMerge other then (false, p)
  else
    match remapDexFiles p [] other.info with
    | (false, p, _) => (false, p)
    | (true, p, remap) =>
      match mergeLines mergeClasses other.storesAggregationCounters remap p other.info with
      | (false, p) => (false, p)
      | (true, p) =>
        if p.storesAggregationCounters then
          let amount := if other.storesAggregationCounters then other.aggregationCount else 1
          (true, { p with aggregationCount := incrementAggregationCounter p.aggregationCount amount })
        else (true, p)

/-! ### Before the merge loop: lines are only appended -/

/-- `GetOrAddDexFileData` changes nothing but appending lines. -/
theorem getOrAddDexFileData_eq_append {p p' : ProfileCompilationInfo} {key : List UInt8}
    {checksum numMethodIds index : Nat}
    (h : p.getOrAddDexFileData key checksum numMethodIds = some (index, p')) :
    ∃ added, p' = { p with info := p.info ++ added } := by
  unfold getOrAddDexFileData at h
  split at h
  · split_ifs at h
    cases h
    exact ⟨_, rfl⟩
  · split_ifs at h
    cases h
    exact ⟨[], by simp⟩

/-- The second loop changes nothing but appending lines, whether it ends or stops at a line
it rejects. -/
theorem remapDexFiles_eq_append :
    ∀ (p : ProfileCompilationInfo) (remap : List (Nat × Nat)) (lines : List DexFileData),
      ∃ added, (remapDexFiles p remap lines).2.1 = { p with info := p.info ++ added }
  | p, _, [] => ⟨[], by simp [remapDexFiles]⟩
  | p, remap, od :: rest => by
    unfold remapDexFiles
    split
    · exact ⟨[], by simp⟩
    · rename_i index p' hadd
      obtain ⟨added, rfl⟩ := getOrAddDexFileData_eq_append hadd
      obtain ⟨added', hrest⟩ := remapDexFiles_eq_append _ (remap ++ [(od.profileIndex, index)]) rest
      exact ⟨added ++ added', by rw [hrest, List.append_assoc]⟩

/-- A merge that fails in the checksum loop or in the second loop returns the profile with
lines appended and nothing else changed: the lines of `other` the second loop met before the
one it rejects stay in the profile. -/
theorem mergeWith_fails_before_merge_loop (p other : ProfileCompilationInfo)
    (mergeClasses : Bool)
    (h : p.checksumsMatchForMerge other = false ∨ (remapDexFiles p [] other.info).1 = false) :
    ∃ added, p.mergeWith other mergeClasses = (false, { p with info := p.info ++ added }) := by
  unfold mergeWith
  by_cases hsum : p.checksumsMatchForMerge other = false
  · exact ⟨[], by simp [hsum]⟩
  · have hremap := h.resolve_left hsum
    obtain ⟨added, hadded⟩ := remapDexFiles_eq_append p [] other.info
    rcases hr : remapDexFiles p [] other.info with ⟨b, p', remap⟩
    rw [hr] at hremap hadded
    dsimp only at hremap hadded
    subst hremap
    exact ⟨added, by simp [hsum, hadded]⟩

/-- A merge that returns `false` after adding a line: `other` holds the key `a`, new to this
profile, and then the key `b` with as many methods as the line of `b` here does not have.  The
second loop appends the line of `a` and then rejects `b`. -/
theorem mergeWith_false_after_adding_line (mergeClasses : Bool) :
    let p : ProfileCompilationInfo := ⟨[DexFileData.make [0x62] 2 0 2], .profileVersion, 0⟩
    let other : ProfileCompilationInfo :=
      ⟨[DexFileData.make [0x61] 1 0 1, DexFileData.make [0x62] 2 1 1], .profileVersion, 0⟩
    p.mergeWith other mergeClasses =
        (false, { p with info := p.info ++ [DexFileData.make [0x61] 1 1 1] }) ∧
      (p.mergeWith other mergeClasses).2.info.length = p.info.length + 1 := by
  cases mergeClasses <;> decide

end ProfileCompilationInfo

end AndroidArt.Profile
