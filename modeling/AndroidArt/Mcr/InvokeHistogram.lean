/-
Module: AndroidArt.Mcr.InvokeHistogram
Purpose: The invoke histogram as the compiler reads it. `Load` keeps the records of the file that
  come from the caller's dex file and method, except calls from the framework into an app, in
  `histogram_`, a `std::set` under `operator<`; `GenerateSpeculationMap` copies those of one dex
  pc into `speculations_`, a `std::set` under `SortedSpeculationReverseCmp`.
Trusted boundary: the file is its text; the logging and the 500-byte `dex_location_` buffer
  (which a longer location overflows) are left out.
Main exports: InvokeHistogram, InvokeHistogram.Load, InvokeHistogram.GenerateSpeculationMap,
  InvokeHistogram.create
-/
import Mathlib.Order.Basic
import AndroidArt.Mcr.InvokeInfo

namespace AndroidArt.Mcr

open AndroidArt.Lib AndroidArt.Lib.TextRecord AndroidArt.Lib.OrderedSet InvokeInfo

/-- `McrRT::IsFrameworkDexLocation`: the location starts with `/system/framework/` or
`/apex/`. -/
def IsFrameworkDexLocation (dexFilename : List Char) : Bool :=
  let sysFramework := "/system/framework/".toList
  let apex := "/apex/".toList
  strCompare (dexFilename.take sysFramework.length) sysFramework = .eq ||
    strCompare (dexFilename.take apex.length) apex = .eq

/-- `FileReader::GetData`: the lines of the file that a newline ends.  The read loop stops at
the end of the file, and a last line that no newline ends is dropped. -/
def FileReaderGetData (text : List Char) : List (List Char) :=
  (splitLines text).1

/-- `SortedSpeculationReverseCmp`: the record with the larger count first. -/
def SortedSpeculationReverseCmp (p1 p2 : InvokeInfo) : Bool :=
  if p2.invokeTimes ≠ p1.invokeTimes then p2.invokeTimes < p1.invokeTimes else false

/-- `art::InvokeHistogram`, its two sets as the sorted lists of their elements. -/
structure InvokeHistogram where
  loadAll : Bool
  filterCalleeDexfile : Bool
  callerMethodIdx : UInt32
  dexPc : UInt32
  dexLocation : List Char
  histogram : List InvokeInfo
  speculations : List InvokeInfo

namespace InvokeHistogram

/-- Whether `Load` inserts a parsed record: it comes from the caller's dex file when that is
filtered, from the caller method unless everything is loaded, and is not a call from the
framework into an app. -/
def keeps (h : InvokeHistogram) (info : InvokeInfo) : Bool :=
  if !h.filterCalleeDexfile || strCompare info.dexLocationCaller h.dexLocation = .eq then
    if h.loadAll || info.GetCallerMethodIdx = h.callerMethodIdx then
      !(IsFrameworkDexLocation info.dexLocationCaller && !IsFrameworkDexLocation info.dexLocation)
    else false
  else false

/-- One parsed line of `Load`: `histogram_.insert(info)` for a record it keeps. -/
def loadStep (h : InvokeHistogram) (hist : List InvokeInfo) (info : InvokeInfo) :
    List InvokeInfo :=
  if h.keeps info then insertBy InvokeInfo.lt info hist else hist

/-- `InvokeHistogram::Load` on the text of the histogram file (`none` when there is none).  It
returns `none` where a `CHECK` of `ParseLine` fails. -/
def Load (h : InvokeHistogram) (file : Option (List Char)) : Option InvokeHistogram :=
  match file with
  | none => some h
  | some text =>
    ((FileReaderGetData text).foldlM (fun hist line => (ParseLine line).map (h.loadStep hist))
      h.histogram).map fun hist => { h with histogram := hist }

/-- `InvokeHistogram::GenerateSpeculationMap`: the records of the histogram at the dex pc, or
all of them, inserted in the histogram's order. -/
def GenerateSpeculationMap (h : InvokeHistogram) : InvokeHistogram :=
  { h with
    speculations := h.histogram.foldl
      (fun s ii => if h.loadAll || ii.dexPc = h.dexPc then insertBy SortedSpeculationReverseCmp ii s
        else s)
      h.speculations }

/-- The members `InvokeHistogram(caller_method_idx, dex_pc, dex_location)` initializes, with
both sets empty. -/
def initial (callerMethodIdx dexPc : UInt32) (dexLocation : List Char) : InvokeHistogram :=
  { loadAll := false, filterCalleeDexfile := true, callerMethodIdx := callerMethodIdx,
    dexPc := dexPc, dexLocation := dexLocation, histogram := [], speculations := [] }

/-- `InvokeHistogram(caller_method_idx, dex_pc, dex_location)`: `Load`, then
`GenerateSpeculationMap`. -/
def create (callerMethodIdx dexPc : UInt32) (dexLocation : List Char)
    (file : Option (List Char)) : Option InvokeHistogram :=
  ((initial callerMethodIdx dexPc dexLocation).Load file).map GenerateSpeculationMap

/-- `InvokeHistogram::GetSize`. -/
def GetSize (h : InvokeHistogram) : UInt32 :=
  if h.loadAll then UInt32.ofNat h.histogram.length else UInt32.ofNat h.speculations.length

/-- `InvokeHistogram::HasSpeculation`. -/
def HasSpeculation (h : InvokeHistogram) : Bool :=
  if h.loadAll then 0 < h.histogram.length else h.speculations.length ≠ 0

end InvokeHistogram

/-- The records of a histogram from which a speculation for the call at `dexPc` of the method
`callerMethodIdx` of `dexLocation` is to be made: those of that call, but for calls from the
framework into an app. -/
def SpeculationSource (callerMethodIdx dexPc : UInt32) (dexLocation : List Char)
    (r : InvokeInfo) : Bool :=
  r.dexLocationCaller = dexLocation && r.GetCallerMethodIdx = callerMethodIdx &&
    r.dexPc = dexPc &&
    !(IsFrameworkDexLocation r.dexLocationCaller && !IsFrameworkDexLocation r.dexLocation)

/-! ## The comparator of the speculations -/

theorem sortedSpeculationReverseCmp_iff (a b : InvokeInfo) :
    SortedSpeculationReverseCmp a b = true ↔
      OrderDual.toDual a.invokeTimes.toNat < OrderDual.toDual b.invokeTimes.toNat := by
  rw [OrderDual.toDual_lt_toDual, ← UInt32.lt_iff_toNat_lt]
  unfold SortedSpeculationReverseCmp
  split
  · exact decide_eq_true_iff
  · rename_i h
    rw [not_not] at h
    simp [h]

instance : IsStrictWeakOrder InvokeInfo (fun a b => SortedSpeculationReverseCmp a b = true) :=
  isStrictWeakOrder_of_key _ sortedSpeculationReverseCmp_iff

/-- The comparator sees two records with the same count as one. -/
theorem incomp_sortedSpeculationReverseCmp_iff {a b : InvokeInfo} :
    incomp SortedSpeculationReverseCmp a b = true ↔ a.invokeTimes = b.invokeTimes := by
  rw [incomp_iff_of_key _ sortedSpeculationReverseCmp_iff, OrderDual.toDual_inj,
    UInt32.toNat_inj]

namespace InvokeHistogram

/-! ## Loading a histogram file -/

/-- `Load` of a histogram file of well-formed records inserts the records it keeps, in turn. -/
theorem load_histogramText (h : InvokeHistogram) {recs : List InvokeInfo}
    (hwf : ∀ r ∈ recs, r.WellFormed) :
    h.Load (some (histogramText recs)) =
      some { h with histogram := recs.foldl h.loadStep h.histogram } := by
  have hlines : FileReaderGetData (histogramText recs) =
      recs.map fun r => histogramLine (r.str, r.invokeTimes) := by
    apply congrArg Prod.fst (splitLines_flatMap _)
    intro l hl
    obtain ⟨r, hr, rfl⟩ := List.mem_map.mp hl
    exact newline_not_mem_histogramLine (hwf r hr) _
  rw [Load, hlines, foldlM_parseLine _ hwf, Option.map_some]

theorem generateSpeculationMap_speculations (h : InvokeHistogram) :
    (GenerateSpeculationMap h).speculations =
      (h.histogram.filter fun ii => h.loadAll || ii.dexPc = h.dexPc).foldl
        (fun s ii => insertBy SortedSpeculationReverseCmp ii s) h.speculations :=
  foldl_insertBy_ite _ _ _

/-- `Load` changes the histogram and nothing else. -/
theorem load_eq_with_histogram {h h' : InvokeHistogram} {file : Option (List Char)}
    (hload : h.Load file = some h') : h' = { h with histogram := h'.histogram } := by
  unfold Load at hload
  split at hload
  · cases hload
    rfl
  · obtain ⟨hist, -, rfl⟩ := Option.map_eq_some_iff.mp hload
    rfl

/-- Whatever the file, the speculations are the set built from the histogram's records at the
dex pc, in the histogram's order. -/
theorem speculations_of_create {callerMethodIdx dexPc : UInt32} {dexLocation : List Char}
    {file : Option (List Char)} {h : InvokeHistogram}
    (hcreate : create callerMethodIdx dexPc dexLocation file = some h) :
    h.speculations = ofListBy SortedSpeculationReverseCmp (h.histogram.filter fun ii =>
      ii.dexPc = dexPc) := by
  obtain ⟨h', hload, rfl⟩ := Option.map_eq_some_iff.mp hcreate
  rw [load_eq_with_histogram hload, generateSpeculationMap_speculations]
  rfl

/-- The constructor does not load everything, so `GetSize` counts the speculations. -/
theorem getSize_of_create {callerMethodIdx dexPc : UInt32} {dexLocation : List Char}
    {file : Option (List Char)} {h : InvokeHistogram}
    (hcreate : create callerMethodIdx dexPc dexLocation file = some h) :
    h.GetSize = UInt32.ofNat h.speculations.length := by
  obtain ⟨h', hload, rfl⟩ := Option.map_eq_some_iff.mp hcreate
  rw [load_eq_with_histogram hload]
  rfl

/-- The speculations are in strictly decreasing order of their counts: no two have the same
count, whatever the file. -/
theorem speculations_pairwise {callerMethodIdx dexPc : UInt32} {dexLocation : List Char}
    {file : Option (List Char)} {h : InvokeHistogram}
    (hcreate : create callerMethodIdx dexPc dexLocation file = some h) :
    h.speculations.Pairwise fun a b => b.invokeTimes < a.invokeTimes := by
  rw [speculations_of_create hcreate]
  refine (pairwise_ofListBy SortedSpeculationReverseCmp _).imp ?_
  intro a b hab
  rwa [sortedSpeculationReverseCmp_iff, OrderDual.toDual_lt_toDual,
    ← UInt32.lt_iff_toNat_lt] at hab

/-! ## The speculations of a histogram file with distinct keys -/

section Speculations

variable (callerMethodIdx dexPc : UInt32) (dexLocation : List Char)

/-- What the constructor keeps of a record and the dex pc select the sources of a speculation. -/
theorem keeps_and_dexPc (r : InvokeInfo) :
    ((initial callerMethodIdx dexPc dexLocation).keeps r && decide (r.dexPc = dexPc)) =
      SpeculationSource callerMethodIdx dexPc dexLocation r := by
  unfold keeps SpeculationSource initial
  by_cases h₁ : r.dexLocationCaller = dexLocation <;>
    by_cases h₂ : r.GetCallerMethodIdx = callerMethodIdx <;>
    simp [h₁, h₂, strCompare_eq_eq_iff, Bool.and_comm]

theorem create_histogramText {recs : List InvokeInfo} (hwf : ∀ r ∈ recs, r.WellFormed) :
    create callerMethodIdx dexPc dexLocation (some (histogramText recs)) =
      some (GenerateSpeculationMap { initial callerMethodIdx dexPc dexLocation with
        histogram := ofListBy InvokeInfo.lt
          (recs.filter (initial callerMethodIdx dexPc dexLocation).keeps) }) := by
  rw [create, load_histogramText _ hwf, Option.map_some]
  congr 3
  exact foldl_insertBy_ite _ _ _

/-- Records of distinct keys that the constructor keeps are never equivalent under
`operator<`: they share the caller's dex location, the one field it does not compare. -/
theorem pairwise_kept {recs : List InvokeInfo} (hkeys : (recs.map str).Nodup) :
    (recs.filter (initial callerMethodIdx dexPc dexLocation).keeps).Pairwise
      (incomp InvokeInfo.lt · · = false) := by
  have hne : (recs.filter (initial callerMethodIdx dexPc dexLocation).keeps).Pairwise
      (fun a b => a.str ≠ b.str) :=
    List.pairwise_map.mp (hkeys.sublist (List.filter_sublist.map str))
  refine hne.imp_of_mem ?_
  intro a b ha hb hab
  cases h : incomp InvokeInfo.lt a b
  · rfl
  · -- both come from the caller's dex location, so equivalent records would share a key
    have hloc : ∀ r ∈ recs.filter (initial callerMethodIdx dexPc dexLocation).keeps,
        r.dexLocationCaller = dexLocation := by
      intro r hr
      have hk := (List.mem_filter.mp hr).2
      unfold keeps initial at hk
      split at hk
      · rename_i hc
        simpa [strCompare_eq_eq_iff] using hc
      · exact absurd hk (by decide)
    exact absurd (str_eq_of_incomp h ((hloc a ha).trans (hloc b hb).symm)) hab

/-- The records of the histogram at the dex pc are the sources of a speculation, when the keys
of the file are distinct. -/
theorem mem_histogram_filter_iff {recs : List InvokeInfo} (hkeys : (recs.map str).Nodup)
    {y : InvokeInfo} :
    y ∈ (ofListBy InvokeInfo.lt (recs.filter (initial callerMethodIdx dexPc dexLocation).keeps)).filter
        (fun ii => decide (ii.dexPc = dexPc)) ↔
      y ∈ recs.filter (SpeculationSource callerMethodIdx dexPc dexLocation) := by
  rw [List.mem_filter, mem_ofListBy_of_pairwise (pairwise_kept callerMethodIdx dexPc dexLocation
    hkeys), List.mem_filter, List.mem_filter, ← keeps_and_dexPc, Bool.and_eq_true, and_assoc]

/-- For a histogram file of well-formed records with distinct keys, the speculations are the
records of the call that no record of the call with the same count precedes under `operator<`:
one record per count, the least of that count.  `GetSize` is the number of distinct counts. -/
theorem create_speculations {recs : List InvokeInfo} (hwf : ∀ r ∈ recs, r.WellFormed)
    (hkeys : (recs.map str).Nodup) :
    ∃ h, create callerMethodIdx dexPc dexLocation (some (histogramText recs)) = some h ∧
      (∀ y, y ∈ h.speculations ↔
        y ∈ recs.filter (SpeculationSource callerMethodIdx dexPc dexLocation) ∧
          ∀ z ∈ recs.filter (SpeculationSource callerMethodIdx dexPc dexLocation),
            z.invokeTimes = y.invokeTimes → InvokeInfo.lt z y = false) ∧
      h.GetSize = UInt32.ofNat
        ((recs.filter (SpeculationSource callerMethodIdx dexPc dexLocation)).map
          InvokeInfo.invokeTimes).toFinset.card := by
  have hcreate := create_histogramText callerMethodIdx dexPc dexLocation hwf
  refine ⟨_, hcreate, ?_⟩
  have hspec := speculations_of_create hcreate
  set P := (ofListBy InvokeInfo.lt (recs.filter (initial callerMethodIdx dexPc
    dexLocation).keeps)).filter (fun ii => decide (ii.dexPc = dexPc)) with hP
  have hmemP : ∀ y, y ∈ P ↔ y ∈ recs.filter (SpeculationSource callerMethodIdx dexPc dexLocation) :=
    fun y => mem_histogram_filter_iff callerMethodIdx dexPc dexLocation hkeys
  have hsorted : P.Pairwise (InvokeInfo.lt · · = true) := (pairwise_ofListBy InvokeInfo.lt _).filter _
  change _ = ofListBy SortedSpeculationReverseCmp P at hspec
  constructor
  · intro y
    rw [hspec, mem_ofListBy_iff, find?_eq_some_iff_of_pairwise hsorted, hmemP,
      incomp_refl SortedSpeculationReverseCmp y]
    simp only [true_and, hmemP, incomp_sortedSpeculationReverseCmp_iff,
      @eq_comm _ y.invokeTimes]
  · -- one speculation per count of the records at the dex pc
    have hcard := length_ofListBy InvokeInfo.invokeTimes
      (fun x y => incomp_sortedSpeculationReverseCmp_iff) P
    have hsame : (P.map InvokeInfo.invokeTimes).toFinset =
        ((recs.filter (SpeculationSource callerMethodIdx dexPc dexLocation)).map
          InvokeInfo.invokeTimes).toFinset := by
      ext t
      simp only [List.mem_toFinset, List.mem_map, hmemP]
    rw [getSize_of_create hcreate, hspec, hcard, hsame]

end Speculations


/-- Two resolutions of one call of an app to two methods, each seen once. -/
def tiedCalls : List InvokeInfo :=
  [{ appCall with invokeTimes := 1 }, { appCall with specMethodIdx := 43, invokeTimes := 1 }]

/-- Of two records of one call with the same count, the speculations keep one. -/
theorem speculations_drop_tied_record :
    (tiedCalls.filter (SpeculationSource 3 17 "/data/app/base.apk".toList)).length = 2 ∧
      (create 3 17 "/data/app/base.apk".toList (some (histogramText tiedCalls))).map GetSize =
        some 1 := by
  have hwf : ∀ r ∈ tiedCalls, r.WellFormed := by decide
  have hkeys : (tiedCalls.map str).Nodup := by decide
  obtain ⟨h, hcreate, -, hsize⟩ := create_speculations 3 17 "/data/app/base.apk".toList hwf hkeys
  refine ⟨by decide, ?_⟩
  rw [hcreate, Option.map_some, hsize]
  decide

end InvokeHistogram

end AndroidArt.Mcr
