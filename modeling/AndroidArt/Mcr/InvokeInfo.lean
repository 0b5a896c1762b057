/-
Module: AndroidArt.Mcr.InvokeInfo
Purpose: The invoke histogram of the runtime. An `InvokeInfo` says that the call at one dex pc of
  one caller was resolved to one method, and how many times.
Trusted boundary: a file is its text; the logging, the file name and `chmod` are left out.
Main exports: InvokeInfo, InvokeInfo.str, InvokeInfo.ParseLine, InvokeInfo.lt
-/
import Mathlib.Data.Char
import Mathlib.Data.List.Lex
import Mathlib.Data.Prod.Lex
import AndroidArt.Lib.OrderedSet
import AndroidArt.Lib.TextRecord

namespace AndroidArt.Mcr

open AndroidArt.Lib AndroidArt.Lib.TextRecord AndroidArt.Lib.OrderedSet

/-- `mcr::InvokeInfo`.  Both constructors take the caller's method index and the class index
as `uint16_t`, so every record has them below 2^16; the getters widen them to `uint32_t`. -/
structure InvokeInfo where
  callerMethodIdx : UInt16
  dexPc : UInt32
  specClassIdx : UInt16
  specMethodIdx : UInt32
  specInvokeType : UInt32
  dexLocationCaller : List Char
  dexFilename : List Char
  dexLocation : List Char
  invokeTimes : UInt32
deriving DecidableEq, Repr

/-- `UINT32_MAX`. -/
def kUint32Max : UInt32 := 4294967295

namespace InvokeInfo

/-- `InvokeInfo::sep_`. -/
def sep : Char := ','

def GetCallerMethodIdx (i : InvokeInfo) : UInt32 := i.callerMethodIdx.toUInt32

def GetSpecClassIdx (i : InvokeInfo) : UInt32 := i.specClassIdx.toUInt32

/-- `InvokeInfo::str()`: the key of a record, its eight fields but the count. -/
def str (i : InvokeInfo) : List Char :=
  decimal i.GetCallerMethodIdx.toNat ++ [sep] ++ i.dexLocationCaller ++ [sep] ++ i.dexFilename ++
    [sep] ++ i.dexLocation ++ [sep] ++ decimal i.dexPc.toNat ++ [sep] ++
    decimal i.GetSpecClassIdx.toNat ++ [sep] ++ decimal i.specMethodIdx.toNat ++ [sep] ++
    decimal i.specInvokeType.toNat

/-- `InvokeInfo::ParseLine`: nine fields cut at the separators, the numbers read by `stoul` and
narrowed to the types they are assigned to.  `none` is a failed `CHECK` or a `stoul` that
throws. -/
def ParseLine (line : List Char) : Option InvokeInfo :=
  if line.count sep ≠ 8 then none
  else do
    let (scallerMethodIdx, line) ← cutField sep line
    let (dexLocationCaller, line) ← cutField sep line
    let (dexFilename, line) ← cutField sep line
    let (dexLocation, line) ← cutField sep line
    let (sdexPc, line) ← cutField sep line
    let (sspecClassIdx, line) ← cutField sep line
    let (sspecMethodIdx, line) ← cutField sep line
    let (sspecInvokeType, sinvokeTimes) ← cutField sep line
    let callerMethodIdx ← stoul scallerMethodIdx
    let dexPc ← stoul sdexPc
    let specDexClassIdx ← stoul sspecClassIdx
    let specDexMethodIdx ← stoul sspecMethodIdx
    let specInvokeType ← stoul sspecInvokeType
    let invokeTimes ← stoul sinvokeTimes
    -- `uint32_t caller_method_idx` is then passed to the constructor's `uint16_t`
    pure { callerMethodIdx := (UInt32.ofNat callerMethodIdx).toUInt16
           dexPc := UInt32.ofNat dexPc
           specClassIdx := UInt16.ofNat specDexClassIdx
           specMethodIdx := UInt32.ofNat specDexMethodIdx
           specInvokeType := UInt32.ofNat specInvokeType
           dexLocationCaller := dexLocationCaller
           dexFilename := dexFilename
           dexLocation := dexLocation
           invokeTimes := UInt32.ofNat invokeTimes }

/-- `operator<(InvokeInfo, InvokeInfo)`. -/
def lt (lhs rhs : InvokeInfo) : Bool :=
  if lhs.GetCallerMethodIdx = rhs.GetCallerMethodIdx then
    let cmpDexFilename := strCompare lhs.dexFilename rhs.dexFilename
    if cmpDexFilename = .eq then
      let cmpDexLocation := strCompare lhs.dexLocation rhs.dexLocation
      if cmpDexLocation = .eq then
        if lhs.GetSpecClassIdx = rhs.GetSpecClassIdx then
          if lhs.specMethodIdx = rhs.specMethodIdx then
            if lhs.specInvokeType = rhs.specInvokeType then lhs.dexPc < rhs.dexPc
            else lhs.specInvokeType < rhs.specInvokeType
          else lhs.specMethodIdx < rhs.specMethodIdx
        else lhs.GetSpecClassIdx < rhs.GetSpecClassIdx
      else cmpDexLocation = .lt
    else cmpDexFilename = .lt
  else lhs.GetCallerMethodIdx < rhs.GetCallerMethodIdx

/-- The text fields of a record hold no separator and no newline, so that its line cuts back
into the same fields. -/
def WellFormed (i : InvokeInfo) : Prop :=
  sep ∉ i.dexLocationCaller ∧ sep ∉ i.dexFilename ∧ sep ∉ i.dexLocation ∧
    '\n' ∉ i.dexLocationCaller ∧ '\n' ∉ i.dexFilename ∧ '\n' ∉ i.dexLocation

instance : DecidablePred WellFormed := fun i =>
  inferInstanceAs (Decidable (sep ∉ i.dexLocationCaller ∧ sep ∉ i.dexFilename ∧
    sep ∉ i.dexLocation ∧ '\n' ∉ i.dexLocationCaller ∧ '\n' ∉ i.dexFilename ∧
    '\n' ∉ i.dexLocation))

/-- The line `UpdateHistogram` writes for the entry `(key, count)`, its newline aside. -/
def histogramLine (e : List Char × UInt32) : List Char :=
  e.1 ++ sep :: decimal e.2.toNat

/-- `InvokeInfo::AddToCache`: one more resolution of `newinfo`'s call, counted in
`shistogram_`, the `std::map` from a record's key to its count.  A count at `UINT32_MAX` stays
there. -/
def AddToCache (shistogram : List (List Char × UInt32)) (newinfo : InvokeInfo) :
    List (List Char × UInt32) :=
  match lookupKey newinfo.str shistogram with
  | some c => if c < kUint32Max then modifyKey newinfo.str (· + 1) shistogram else shistogram
  | none => insertKey newinfo.str 1 shistogram

/-- One line of the old file merged into the counts: `it->second += ii.GetInvokeTimes()`, which
wraps around in 32 bits, or a new entry with the line's count. -/
def mergeEntry (shistogram : List (List Char × UInt32)) (ii : InvokeInfo) :
    List (List Char × UInt32) :=
  match lookupKey ii.str shistogram with
  | some _ => modifyKey ii.str (· + ii.invokeTimes) shistogram
  | none => insertKey ii.str ii.invokeTimes shistogram

/-- `InvokeInfo::UpdateHistogram` on the text of the file (`none` when there is no file).  With
no new entries it returns at once.  Otherwise it merges the lines of the file into the counts,
writes one line per entry in the order of their keys, and clears the counts.  It returns the
counts and the file after it, or `none` where a `CHECK` of `ParseLine` fails. -/
def UpdateHistogram (shistogram : List (List Char × UInt32)) (file : Option (List Char)) :
    Option (List (List Char × UInt32) × Option (List Char)) :=
  if 0 < shistogram.length then do
    let merged ← match file with
      | none => pure shistogram
      | some text =>
        (getlines text).foldlM (fun m line => (ParseLine line).map (mergeEntry m)) shistogram
    pure ([], some (merged.flatMap fun e => histogramLine e ++ ['\n']))
  else some (shistogram, file)

/-! ## What the histogram should hold -/

/-- A histogram file holding the records `F`, one line each. -/
def histogramText (F : List InvokeInfo) : List Char :=
  (F.map fun r => histogramLine (r.str, r.invokeTimes)).flatMap (· ++ ['\n'])

/-- The count of the record of `F` with key `k`, or zero. -/
def fileCount (F : List InvokeInfo) (k : List Char) : Nat :=
  ((F.find? fun r => r.str = k).map fun r => r.invokeTimes.toNat).getD 0

/-- The count a key should have after `UpdateHistogram`: the count in the file plus the number
of calls for the key saturated at `UINT32_MAX`, as `AddToCache` counts them, the sum taken
modulo 2^32, as the merge adds it. -/
def mergedCount (F calls : List InvokeInfo) (k : List Char) : Nat :=
  (fileCount F k + min ((calls.map str).count k) kUint32Max.toNat) % 2 ^ 32

/-! ## Reading a line back -/

theorem sep_not_mem_decimal (n : Nat) : sep ∉ decimal n :=
  not_mem_decimal (by decide)

theorem newline_not_mem_decimal (n : Nat) : '\n' ∉ decimal n :=
  not_mem_decimal (by decide)

theorem stoul_decimal_uint32 (x : UInt32) : stoul (decimal x.toNat) = some x.toNat :=
  stoul_decimal (by have := x.toNat_lt; omega)

/-- The fields of a line in the order `ParseLine` cuts them. -/
theorem histogramLine_str (i : InvokeInfo) (c : UInt32) :
    histogramLine (i.str, c) =
      decimal i.GetCallerMethodIdx.toNat ++ sep :: (i.dexLocationCaller ++ sep ::
        (i.dexFilename ++ sep :: (i.dexLocation ++ sep :: (decimal i.dexPc.toNat ++ sep ::
          (decimal i.GetSpecClassIdx.toNat ++ sep :: (decimal i.specMethodIdx.toNat ++ sep ::
            (decimal i.specInvokeType.toNat ++ sep :: decimal c.toNat))))))) := by
  simp [histogramLine, str]

theorem count_sep_histogramLine {i : InvokeInfo} (hi : i.WellFormed) (c : UInt32) :
    (histogramLine (i.str, c)).count sep = 8 := by
  obtain ⟨h₁, h₂, h₃, -⟩ := hi
  simp [histogramLine_str, List.count_append, List.count_eq_zero_of_not_mem,
    sep_not_mem_decimal, h₁, h₂, h₃]

theorem newline_not_mem_histogramLine {i : InvokeInfo} (hi : i.WellFormed) (c : UInt32) :
    '\n' ∉ histogramLine (i.str, c) := by
  obtain ⟨-, -, -, h₁, h₂, h₃⟩ := hi
  simp [histogramLine_str, newline_not_mem_decimal, h₁, h₂, h₃, sep]

/-- `ParseLine` reads back every field of a well-formed record from the line written for its
key and a count. -/
theorem parseLine_histogramLine {i : InvokeInfo} (hi : i.WellFormed) (c : UInt32) :
    ParseLine (histogramLine (i.str, c)) = some { i with invokeTimes := c } := by
  have hcount := count_sep_histogramLine hi c
  obtain ⟨h₁, h₂, h₃, -⟩ := hi
  unfold ParseLine
  rw [if_neg (by rw [hcount]; decide), histogramLine_str]
  -- the eight cuts, one field at a time
  rw [cutField_append (sep_not_mem_decimal _)]
  dsimp only [Option.bind_eq_bind, Option.bind_some]
  rw [cutField_append h₁]
  dsimp only [Option.bind_some]
  rw [cutField_append h₂]
  dsimp only [Option.bind_some]
  rw [cutField_append h₃]
  dsimp only [Option.bind_some]
  rw [cutField_append (sep_not_mem_decimal _)]
  dsimp only [Option.bind_some]
  rw [cutField_append (sep_not_mem_decimal _)]
  dsimp only [Option.bind_some]
  rw [cutField_append (sep_not_mem_decimal _)]
  dsimp only [Option.bind_some]
  rw [cutField_append (sep_not_mem_decimal _)]
  dsimp only [Option.bind_some]
  -- the six numbers
  simp only [GetCallerMethodIdx, GetSpecClassIdx, stoul_decimal_uint32, Option.bind_some,
    Option.pure_def, UInt32.ofNat_toNat, UInt16.toUInt16_toUInt32]
  simp only [UInt16.toNat_toUInt32, UInt16.ofNat_toNat]

/-! ## The order of records -/

/-- What `operator<` compares, in the order it compares it. -/
def sortKey (i : InvokeInfo) :
    ℕ ×ₗ List Char ×ₗ List Char ×ₗ ℕ ×ₗ ℕ ×ₗ ℕ ×ₗ ℕ :=
  toLex (i.callerMethodIdx.toNat, toLex (i.dexFilename, toLex (i.dexLocation,
    toLex (i.specClassIdx.toNat, toLex (i.specMethodIdx.toNat, toLex (i.specInvokeType.toNat,
      i.dexPc.toNat))))))

/-- `operator<` compares records lexicographically by their sort keys. -/
theorem lt_iff_sortKey (a b : InvokeInfo) : lt a b = true ↔ sortKey a < sortKey b := by
  simp only [lt, sortKey, Prod.Lex.toLex_lt_toLex, GetCallerMethodIdx, GetSpecClassIdx,
    strCompare_eq_eq_iff, strCompare_eq_lt_iff, UInt32.lt_iff_toNat_lt,
    UInt16.toNat_toUInt32, ← UInt32.toNat_inj]
  split_ifs <;> simp_all

instance : IsStrictWeakOrder InvokeInfo (fun a b => lt a b = true) :=
  isStrictWeakOrder_of_key sortKey lt_iff_sortKey

/-- Two records are equivalent under `operator<` when they agree on everything it compares:
the caller's dex location and the count do not count. -/
theorem incomp_lt_iff {a b : InvokeInfo} : incomp lt a b = true ↔ sortKey a = sortKey b :=
  incomp_iff_of_key sortKey lt_iff_sortKey

/-- Records equivalent under `operator<` from the same caller dex location have the same key. -/
theorem str_eq_of_incomp {a b : InvokeInfo} (h : incomp lt a b = true)
    (hcaller : a.dexLocationCaller = b.dexLocationCaller) : a.str = b.str := by
  rw [incomp_lt_iff] at h
  simp only [sortKey, toLex_inj, Prod.mk.injEq, UInt16.toNat_inj, UInt32.toNat_inj] at h
  obtain ⟨h₁, h₂, h₃, h₄, h₅, h₆, h₇⟩ := h
  simp [str, GetCallerMethodIdx, GetSpecClassIdx, h₁, h₂, h₃, h₄, h₅, h₆, h₇, hcaller]

/-! ## The counts in memory -/

variable {m : List (List Char × UInt32)}

theorem toNat_kUint32Max : kUint32Max.toNat = 2 ^ 32 - 1 := rfl

/-- `AddToCache` counts one more call for its key, up to `UINT32_MAX`. -/
theorem lookupKey_AddToCache_self (m : List (List Char × UInt32)) (x : InvokeInfo) :
    lookupKey x.str (AddToCache m x) =
      some (UInt32.ofNat (min (((lookupKey x.str m).map UInt32.toNat).getD 0 + 1)
        kUint32Max.toNat)) := by
  unfold AddToCache
  cases h : lookupKey x.str m with
  | some c =>
    have hc := c.toNat_lt
    dsimp only
    split
    · rename_i hlt
      rw [lookupKey_modifyKey, if_pos rfl, h, Option.map_some, Option.map_some, Option.getD_some]
      rw [UInt32.lt_iff_toNat_lt, toNat_kUint32Max] at hlt
      congr 1
      apply UInt32.toNat_inj.mp
      rw [UInt32.toNat_add, UInt32.toNat_ofNat', toNat_kUint32Max, UInt32.toNat_one]
      omega
    · rename_i hge
      rw [UInt32.lt_iff_toNat_lt, toNat_kUint32Max] at hge
      rw [h, Option.map_some, Option.getD_some]
      congr 1
      apply UInt32.toNat_inj.mp
      rw [UInt32.toNat_ofNat', toNat_kUint32Max]
      omega
  | none =>
    rw [lookupKey_insertKey h, if_pos rfl]
    rfl

theorem lookupKey_AddToCache_of_ne {k : List Char} {x : InvokeInfo} (hk : k ≠ x.str) :
    lookupKey k (AddToCache m x) = lookupKey k m := by
  unfold AddToCache
  cases h : lookupKey x.str m with
  | some c =>
    dsimp only
    split
    · rw [lookupKey_modifyKey, if_neg hk]
    · rfl
  | none => rw [lookupKey_insertKey h, if_neg hk]

theorem pairwise_AddToCache (hm : m.Pairwise (keyLt · · = true)) (x : InvokeInfo) :
    (AddToCache m x).Pairwise (keyLt · · = true) := by
  unfold AddToCache
  split
  · split
    · exact pairwise_modifyKey hm
    · exact hm
  · exact pairwise_insertKey hm

/-- After a run of `AddToCache` from an empty map, each key called has the number of its calls,
saturated at `UINT32_MAX`, and no other key has an entry. -/
theorem lookupKey_foldl_AddToCache (calls : List InvokeInfo) (k : List Char) :
    lookupKey k (calls.foldl AddToCache []) =
      if k ∈ calls.map str then
        some (UInt32.ofNat (min ((calls.map str).count k) kUint32Max.toNat))
      else none := by
  induction calls using List.reverseRecOn with
  | nil => rfl
  | append_singleton calls x ih =>
    rw [List.foldl_append, List.foldl_cons, List.foldl_nil]
    by_cases hk : k = x.str
    · rw [hk] at ih ⊢
      -- the count before the call, whether or not the key was met already
      have hprev : ((lookupKey x.str (calls.foldl AddToCache [])).map UInt32.toNat).getD 0 =
          min ((calls.map str).count x.str) kUint32Max.toNat := by
        rw [ih]
        split
        · rw [Option.map_some, Option.getD_some, UInt32.toNat_ofNat', toNat_kUint32Max]
          omega
        · rename_i hmem
          rw [List.count_eq_zero_of_not_mem hmem]
          rfl
      rw [if_pos (by simp), lookupKey_AddToCache_self, hprev, List.map_append, List.count_append,
        List.map_singleton, List.count_singleton_self]
      congr 2
      rw [toNat_kUint32Max]
      omega
    · rw [lookupKey_AddToCache_of_ne hk, ih]
      simp [hk, Ne.symm hk]

theorem pairwise_foldl_AddToCache (calls : List InvokeInfo) :
    (calls.foldl AddToCache []).Pairwise (keyLt · · = true) := by
  induction calls using List.reverseRecOn with
  | nil => exact List.Pairwise.nil
  | append_singleton calls x ih =>
    rw [List.foldl_append, List.foldl_cons, List.foldl_nil]
    exact pairwise_AddToCache ih x

/-! ## Merging the file -/

theorem lookupKey_mergeEntry_self (m : List (List Char × UInt32)) (ii : InvokeInfo) :
    lookupKey ii.str (mergeEntry m ii) = some ((lookupKey ii.str m).getD 0 + ii.invokeTimes) := by
  unfold mergeEntry
  cases h : lookupKey ii.str m with
  | some c =>
    dsimp only
    rw [lookupKey_modifyKey, if_pos rfl, h]
    rfl
  | none =>
    rw [lookupKey_insertKey h, if_pos rfl, Option.getD_none, UInt32.zero_add]

theorem lookupKey_mergeEntry_of_ne {k : List Char} {ii : InvokeInfo} (hk : k ≠ ii.str) :
    lookupKey k (mergeEntry m ii) = lookupKey k m := by
  unfold mergeEntry
  cases h : lookupKey ii.str m with
  | some c =>
    dsimp only
    rw [lookupKey_modifyKey, if_neg hk]
  | none => rw [lookupKey_insertKey h, if_neg hk]

theorem pairwise_mergeEntry (hm : m.Pairwise (keyLt · · = true)) (ii : InvokeInfo) :
    (mergeEntry m ii).Pairwise (keyLt · · = true) := by
  unfold mergeEntry
  split
  · exact pairwise_modifyKey hm
  · exact pairwise_insertKey hm

theorem fileCount_cons (r : InvokeInfo) (F : List InvokeInfo) (k : List Char) :
    fileCount (r :: F) k = if r.str = k then r.invokeTimes.toNat else fileCount F k := by
  by_cases h : r.str = k <;> simp [fileCount, h]

theorem fileCount_of_not_mem {F : List InvokeInfo} {k : List Char} (h : k ∉ F.map str) :
    fileCount F k = 0 := by
  have hnone : (F.find? fun r => r.str = k) = none := by
    rw [List.find?_eq_none]
    intro r hr hrk
    exact h (List.mem_map.mpr ⟨r, hr, by simpa using hrk⟩)
  simp [fileCount, hnone]

theorem fileCount_of_mem {F : List InvokeInfo} (hF : (F.map str).Nodup) {r : InvokeInfo}
    (hr : r ∈ F) : fileCount F r.str = r.invokeTimes.toNat := by
  induction F with
  | nil => simp at hr
  | cons r' F ih =>
    rw [List.map_cons, List.nodup_cons] at hF
    rw [fileCount_cons]
    rcases List.mem_cons.mp hr with hrr | hr
    · rw [hrr, if_pos rfl]
    · -- a key of the rest is not the key of the head
      have hne : r'.str ≠ r.str := by
        intro h
        apply hF.1
        rw [h]
        exact List.mem_map_of_mem hr
      rw [if_neg hne, ih hF.2 hr]

/-- Merging the records of a file whose keys are distinct adds each one's count to the entry of
its key, and leaves the other entries alone. -/
theorem lookupKey_foldl_mergeEntry {F : List InvokeInfo} (hF : (F.map str).Nodup)
    (m : List (List Char × UInt32)) (k : List Char) :
    lookupKey k (F.foldl mergeEntry m) =
      if k ∈ F.map str then some ((lookupKey k m).getD 0 + UInt32.ofNat (fileCount F k))
      else lookupKey k m := by
  induction F generalizing m with
  | nil => simp
  | cons r F ih =>
    rw [List.map_cons, List.nodup_cons] at hF
    rw [List.foldl_cons, ih hF.2]
    by_cases hk : k = r.str
    · rw [hk, if_neg hF.1, lookupKey_mergeEntry_self, if_pos (by simp), fileCount_cons,
        if_pos rfl, UInt32.ofNat_toNat]
    · rw [lookupKey_mergeEntry_of_ne hk, fileCount_cons, if_neg (Ne.symm hk)]
      simp [hk]

theorem pairwise_foldl_mergeEntry (F : List InvokeInfo) (hm : m.Pairwise (keyLt · · = true)) :
    (F.foldl mergeEntry m).Pairwise (keyLt · · = true) := by
  induction F generalizing m with
  | nil => exact hm
  | cons r F ih => exact ih (pairwise_mergeEntry hm r)

/-- After the calls and the merge, each key of the file or of the calls has its merged count,
and no other key has an entry. -/
theorem lookupKey_merged {F : List InvokeInfo} (hF : (F.map str).Nodup) (calls : List InvokeInfo)
    (k : List Char) :
    lookupKey k (F.foldl mergeEntry (calls.foldl AddToCache [])) =
      if k ∈ F.map str ∨ k ∈ calls.map str then some (UInt32.ofNat (mergedCount F calls k))
      else none := by
  rw [lookupKey_foldl_mergeEntry hF, lookupKey_foldl_AddToCache]
  have hsat : min ((calls.map str).count k) kUint32Max.toNat < 2 ^ 32 := by
    rw [toNat_kUint32Max]
    omega
  by_cases hf : k ∈ F.map str <;> by_cases hc : k ∈ calls.map str
  · rw [if_pos hf, if_pos hc, if_pos (Or.inl hf), Option.getD_some]
    congr 1
    apply UInt32.toNat_inj.mp
    rw [UInt32.toNat_add, UInt32.toNat_ofNat', UInt32.toNat_ofNat', UInt32.toNat_ofNat',
      mergedCount]
    omega
  · rw [if_pos hf, if_neg hc, if_pos (Or.inl hf), Option.getD_none, UInt32.zero_add, mergedCount,
      List.count_eq_zero_of_not_mem hc, Nat.zero_min, Nat.add_zero]
    congr 1
    apply UInt32.toNat_inj.mp
    rw [UInt32.toNat_ofNat', UInt32.toNat_ofNat']
    omega
  · rw [if_neg hf, if_pos hc, if_pos (Or.inr hc), mergedCount, fileCount_of_not_mem hf,
      Nat.zero_add, Nat.mod_eq_of_lt hsat]
  · rw [if_neg hf, if_neg hc, if_neg (by tauto)]

/-! ## The file after `UpdateHistogram` -/

theorem getlines_histogramText {F : List InvokeInfo} (hF : ∀ r ∈ F, r.WellFormed) :
    getlines (histogramText F) = F.map fun r => histogramLine (r.str, r.invokeTimes) := by
  apply getlines_flatMap
  intro l hl
  obtain ⟨r, hr, rfl⟩ := List.mem_map.mp hl
  exact newline_not_mem_histogramLine (hF r hr) _

/-- Every line of a histogram file of well-formed records parses, so a loop over its lines that
parses each one and goes on with the record is the fold over its records. -/
theorem foldlM_parseLine {σ : Type} (step : σ → InvokeInfo → σ) {F : List InvokeInfo}
    (hF : ∀ r ∈ F, r.WellFormed) (m : σ) :
    (F.map fun r => histogramLine (r.str, r.invokeTimes)).foldlM
      (fun m line => (ParseLine line).map (step m)) m = some (F.foldl step m) := by
  induction F generalizing m with
  | nil => rfl
  | cons r F ih =>
    rw [List.map_cons, List.foldlM_cons, parseLine_histogramLine (hF r List.mem_cons_self),
      Option.map_some, Option.bind_eq_bind, Option.bind_some, List.foldl_cons]
    exact ih (fun r' hr' => hF r' (List.mem_cons_of_mem r hr')) _

theorem str_with_invokeTimes (r : InvokeInfo) (c : UInt32) :
    ({ r with invokeTimes := c } : InvokeInfo).str = r.str := rfl

/-- Lines written for entries that are, each, the key of a record of `F` or of the calls with
its merged count, one entry per key and one for every such record, are read back as that. -/
theorem holds_of_entries {F calls : List InvokeInfo} {es : List (List Char × UInt32)}
    (hwf : ∀ r ∈ F ++ calls, r.WellFormed) (hkeys : (es.map Prod.fst).Nodup)
    (hsound : ∀ e ∈ es, ∃ r ∈ F ++ calls, e = (r.str, UInt32.ofNat (mergedCount F calls r.str)))
    (hcomplete : ∀ r ∈ F ++ calls, (r.str, UInt32.ofNat (mergedCount F calls r.str)) ∈ es) :
    ((es.map histogramLine).map fun l => (ParseLine l).map str).Nodup ∧
      (∀ l ∈ es.map histogramLine, ∃ r ∈ F ++ calls,
        ParseLine l = some { r with invokeTimes := UInt32.ofNat (mergedCount F calls r.str) }) ∧
      ∀ r ∈ F ++ calls, ∃ l ∈ es.map histogramLine,
        ParseLine l = some { r with invokeTimes := UInt32.ofNat (mergedCount F calls r.str) } := by
  have hparse : ∀ e ∈ es, (ParseLine (histogramLine e)).map str = some e.1 := by
    intro e he
    obtain ⟨r, hr, rfl⟩ := hsound e he
    rw [parseLine_histogramLine (hwf r hr), Option.map_some, str_with_invokeTimes]
  refine ⟨?_, ?_, ?_⟩
  · have hmap : es.map ((fun l => (ParseLine l).map str) ∘ histogramLine) =
        es.map (some ∘ Prod.fst) := List.map_congr_left hparse
    rw [List.map_map, hmap, ← List.map_map]
    exact hkeys.map (Option.some_injective _)
  · intro l hl
    obtain ⟨e, he, rfl⟩ := List.mem_map.mp hl
    obtain ⟨r, hr, rfl⟩ := hsound e he
    exact ⟨r, hr, parseLine_histogramLine (hwf r hr) _⟩
  · intro r hr
    exact ⟨_, List.mem_map_of_mem (hcomplete r hr), parseLine_histogramLine (hwf r hr) _⟩

/-- The counts after the calls and the merge, in key order, are each the key of a record of the
file or of the calls with its merged count, and there is one for every such record. -/
theorem merged_entries {F : List InvokeInfo} (calls : List InvokeInfo) (hkeys : (F.map str).Nodup) :
    let merged := F.foldl mergeEntry (calls.foldl AddToCache [])
    (merged.map Prod.fst).Nodup ∧
      (∀ e ∈ merged, ∃ r ∈ F ++ calls, e = (r.str, UInt32.ofNat (mergedCount F calls r.str))) ∧
      ∀ r ∈ F ++ calls, (r.str, UInt32.ofNat (mergedCount F calls r.str)) ∈ merged := by
  intro merged
  have hsorted : merged.Pairwise (keyLt · · = true) :=
    pairwise_foldl_mergeEntry F (pairwise_foldl_AddToCache calls)
  refine ⟨?_, ?_, ?_⟩
  · refine List.Pairwise.map Prod.fst ?_ hsorted
    intro a b hab heq
    rw [keyLt_iff, heq] at hab
    exact lt_irrefl _ hab
  · intro e he
    have h := lookupKey_of_mem hsorted he
    rw [lookupKey_merged hkeys] at h
    split at h
    · rename_i hk
      -- the key is that of a record of the file or of the calls
      have hk' : e.1 ∈ (F ++ calls).map str := by simpa [or_comm] using hk
      obtain ⟨r, hr, hrk⟩ := List.mem_map.mp hk'
      refine ⟨r, hr, ?_⟩
      rw [hrk]
      exact Prod.ext rfl (Option.some_inj.mp h).symm
    · exact absurd h (by simp)
  · intro r hr
    apply (lookupKey_eq_some_iff hsorted).mp
    rw [lookupKey_merged hkeys, if_pos]
    have hk := List.mem_map_of_mem (f := str) hr
    rwa [List.map_append, List.mem_append] at hk

theorem updateHistogram_of_pos {m merged : List (List Char × UInt32)} {text : List Char}
    (hm : 0 < m.length)
    (hmerge : (getlines text).foldlM (fun m line => (ParseLine line).map (mergeEntry m)) m =
      some merged) :
    UpdateHistogram m (some text) =
      some ([], some (merged.flatMap fun e => histogramLine e ++ ['\n'])) := by
  rw [UpdateHistogram, if_pos hm]
  simp only [hmerge, Option.pure_def, Option.bind_eq_bind, Option.bind_some]

/-- With no call counted, the file keeps the counts of its records. -/
theorem mergedCount_nil {F : List InvokeInfo} (hkeys : (F.map str).Nodup) {r : InvokeInfo}
    (hr : r ∈ F) : UInt32.ofNat (mergedCount F [] r.str) = r.invokeTimes := by
  rw [mergedCount, fileCount_of_mem hkeys hr, List.map_nil, List.count_nil, Nat.zero_min,
    Nat.add_zero, Nat.mod_eq_of_lt r.invokeTimes.toNat_lt, UInt32.ofNat_toNat]

/-- A virtual call of an app resolved to one method of the app, seen five times. -/
def appCall : InvokeInfo where
  callerMethodIdx := 3
  dexPc := 17
  specClassIdx := 9
  specMethodIdx := 42
  specInvokeType := 2
  dexLocationCaller := "/data/app/base.apk".toList
  dexFilename := "/data/app/base.apk".toList
  dexLocation := "/data/app/base.apk".toList
  invokeTimes := 5

/-- The call with a count of `UINT32_MAX` in the file. -/
def saturatedCall : InvokeInfo := { appCall with invokeTimes := kUint32Max }

end InvokeInfo

end AndroidArt.Mcr
