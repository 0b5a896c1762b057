/-
Module: AndroidArt.Runtime.OatHeader
Purpose: The key-value store of `OatHeader` (runtime/oat.cc).
Trusted boundary: none
Main exports: OatHeader.parseString, OatHeader.getStoreValueByKey,
  OatHeader.getStoreKeyValuePairByIndex, OatHeader.SafeMap
-/
import Mathlib
import AndroidArt.Lib.CString

namespace AndroidArt.Runtime

open AndroidArt.Lib

namespace OatHeader

/-! ### The scanners -/

/-- The loop of `ParseString` for at most `fuel` bytes. -/
def parseStringFrom (store : List UInt8) : Nat → Nat → Nat
  | 0, start => start
  | fuel + 1, start =>
    if h : start < store.length then
      if store[start] = 0 then start else parseStringFrom store fuel (start + 1)
    else start

/-- `ParseString(start, end)`: advance `start` until it is `end` or at a NUL.  The loop runs at
most `end - start` times. -/
def parseString (store : List UInt8) (start : Nat) : Nat :=
  parseStringFrom store (store.length - start) start

/-- The loop of `GetStoreValueByKey` for at most `fuel` rounds, from `ptr`: `some (some p)` for
the value at `p`, `some none` for `nullptr`.  `key` holds the bytes of the key before its NUL,
so `strcmp(key, ptr) == 0` compares it with the string at `ptr`, which ends inside the store. -/
def getStoreValueByKeyFrom (store key : List UInt8) : Nat → Nat → Option (Option Nat)
  | 0, _ => none
  | fuel + 1, ptr =>
    if ptr < store.length then
      let strEnd := parseString store ptr
      if strEnd < store.length then
        if key = (store.drop ptr).take (strEnd - ptr) then
          -- the key: return the value if it is terminated, and otherwise go round again with
          -- `ptr` unchanged, as the source does
          if parseString store (strEnd + 1) < store.length then some (some (strEnd + 1))
          else getStoreValueByKeyFrom store key fuel ptr
        else getStoreValueByKeyFrom store key fuel (parseString store (strEnd + 1) + 1)
      else some none
    else some none

/-- `GetStoreValueByKey(key)`. -/
def getStoreValueByKey (store key : List UInt8) (fuel : Nat) : Option (Option Nat) :=
  getStoreValueByKeyFrom store key fuel 0

/-- The loop of `GetStoreKeyValuePairByIndex` for at most `fuel` rounds, from `ptr` with
`counter` entries still to skip: `some (some (k, v))` for the key at `k` and the value at `v`,
`some none` for `false`. -/
def getStoreKeyValuePairByIndexFrom (store : List UInt8) :
    Nat → Nat → Int → Option (Option (Nat × Nat))
  | 0, _, _ => none
  | fuel + 1, ptr, counter =>
    if ptr < store.length ∧ 0 ≤ counter then
      let strEnd := parseString store ptr
      if strEnd < store.length then
        let next := parseString store (strEnd + 1) + 1
        if next ≤ store.length then
          if counter = 0 then some (some (ptr, strEnd + 1))
          else getStoreKeyValuePairByIndexFrom store fuel next (counter - 1)
        else some none
      else some none
    else some none

/-- `GetStoreKeyValuePairByIndex(index, &key, &value)`, with the `size_t` index cast to
`ssize_t`. -/
def getStoreKeyValuePairByIndex (store : List UInt8) (index fuel : Nat) :
    Option (Option (Nat × Nat)) :=
  getStoreKeyValuePairByIndexFrom store fuel 0 ((index : Int).bmod (2 ^ 64))

/-! ### Flatten -/

/-- A `SafeMap<std::string, std::string>`: its entries in iteration order, with distinct keys.
`Flatten(nullptr)` writes what the empty map writes. -/
structure SafeMap where
  entries : List (List UInt8 × List UInt8)
  nodup : (entries.map Prod.fst).Nodup

/-- The bytes `Flatten` writes for the entries `es`: each key and each value copied with
`strlcpy` and followed by its NUL.  `strlcpy` copies a whole string when it has no NUL, the
only case the model writes out. -/
def flattenEntries (es : List (List UInt8 × List UInt8)) : List UInt8 :=
  es.flatMap fun e => e.1 ++ 0 :: e.2 ++ [0]

/-- `Flatten(key_value_store)`: the store, whose length is `key_value_store_size_`. -/
def flatten (m : SafeMap) : List UInt8 := flattenEntries m.entries

/-! ### `ParseString` ends each string where the library says it ends -/

theorem parseStringFrom_eq_nulFrom (store : List UInt8) (fuel : Nat) :
    ∀ start, store.length - start ≤ fuel →
      parseStringFrom store fuel start = CString.nulFrom store start := by
  induction fuel with
  | zero =>
    intro start hfuel
    rw [parseStringFrom, CString.nulFrom_of_le (by omega)]
  | succ fuel ih =>
    intro start hfuel
    unfold parseStringFrom
    split
    · rename_i hlt
      split
      · rename_i hz
        exact (CString.nulFrom_eq_self hlt hz).symm
      · rename_i hz
        rw [CString.nulFrom_eq_nulFrom_succ hlt hz]
        apply ih
        omega
    · rename_i hge
      rw [CString.nulFrom_of_le (by omega)]

@[simp] theorem parseString_eq_nulFrom (store : List UInt8) (start : Nat) :
    parseString store start = CString.nulFrom store start :=
  parseStringFrom_eq_nulFrom store _ start (Nat.le_refl _)

/-! ### What the scanners return on any store -/

section AnyStore

variable {store : List UInt8}

/-- A key found at `ptr` whose value runs off the end of the store: the loop of
`GetStoreValueByKey` compares the same key again on every round and never returns. -/
theorem getStoreValueByKeyFrom_stuck {key : List UInt8} {ptr : Nat}
    (hptr : ptr < store.length) (hkey : CString.read store ptr = some key)
    (hvalue : CString.read store (CString.nulFrom store ptr + 1) = none) (fuel : Nat) :
    getStoreValueByKeyFrom store key fuel ptr = none := by
  obtain ⟨hend, htake⟩ := CString.read_eq_some_iff.mp hkey
  have hrun := CString.read_eq_none_iff.mp hvalue
  induction fuel with
  | zero => rfl
  | succ fuel ih =>
    unfold getStoreValueByKeyFrom
    simp only [parseString_eq_nulFrom, if_pos hptr, if_pos hend, htake, if_true,
      if_neg (Nat.not_lt_of_le hrun)]
    exact ih

/-- The three-byte store `k NUL v`, whose value has no NUL: `GetStoreValueByKey("k")` finds the
key on every round and never returns. -/
theorem getStoreValueByKey_loops_on_unterminated_value (fuel : Nat) :
    getStoreValueByKey [0x6B, 0, 0x76] [0x6B] fuel = none :=
  getStoreValueByKeyFrom_stuck (by decide) (by decide) (by decide) fuel

/-- A value that `GetStoreValueByKey` returns is a string whose NUL lies inside the store. -/
theorem getStoreValueByKeyFrom_terminated {key : List UInt8} {p : Nat} (fuel : Nat) :
    ∀ ptr, getStoreValueByKeyFrom store key fuel ptr = some (some p) →
      ∃ value, CString.read store p = some value := by
  induction fuel with
  | zero =>
    intro ptr h
    cases h
  | succ fuel ih =>
    intro ptr h
    unfold getStoreValueByKeyFrom at h
    simp only [parseString_eq_nulFrom] at h
    split at h
    · split at h
      · split at h
        · split at h
          · rename_i hvalue
            cases h
            exact ⟨_, CString.read_eq_some_iff.mpr ⟨hvalue, rfl⟩⟩
          · exact ih ptr h
        · exact ih _ h
      · cases h
    · cases h

/-- `GetStoreKeyValuePairByIndex` returns on any store: every round moves `ptr` past a key and
a value, so the loop ends within one round more than the store has bytes. -/
theorem getStoreKeyValuePairByIndexFrom_isSome (fuel : Nat) :
    ∀ ptr counter, ptr ≤ store.length → store.length + 1 - ptr ≤ fuel →
      (getStoreKeyValuePairByIndexFrom store fuel ptr counter).isSome := by
  induction fuel with
  | zero =>
    intro ptr counter hptr hfuel
    omega
  | succ fuel ih =>
    intro ptr counter hptr hfuel
    unfold getStoreKeyValuePairByIndexFrom
    simp only [parseString_eq_nulFrom]
    split
    · split
      · split
        · rename_i hnext
          split
          · rfl
          · -- the next key starts past this key's NUL
            have hkey := CString.le_nulFrom store ptr
            have hvalue := CString.le_nulFrom store (CString.nulFrom store ptr + 1)
            apply ih _ _ hnext
            omega
        · rfl
      · rfl
    · rfl

/-- The key and the value that `GetStoreKeyValuePairByIndex` returns are strings whose NULs lie
inside the store. -/
theorem getStoreKeyValuePairByIndexFrom_terminated {k v : Nat} (fuel : Nat) :
    ∀ ptr counter, getStoreKeyValuePairByIndexFrom store fuel ptr counter = some (some (k, v)) →
      (∃ key, CString.read store k = some key) ∧ ∃ value, CString.read store v = some value := by
  induction fuel with
  | zero =>
    intro ptr counter h
    cases h
  | succ fuel ih =>
    intro ptr counter h
    unfold getStoreKeyValuePairByIndexFrom at h
    simp only [parseString_eq_nulFrom] at h
    split at h
    · split at h
      · rename_i hkey
        split at h
        · rename_i hnext
          split at h
          · cases h
            refine ⟨⟨_, CString.read_eq_some_iff.mpr ⟨hkey, rfl⟩⟩,
              ⟨_, CString.read_eq_some_iff.mpr ⟨by omega, rfl⟩⟩⟩
          · exact ih _ _ h
        · cases h
      · cases h
    · cases h

end AnyStore

/-! ### `Flatten`, read back -/

section Flatten

theorem flattenEntries_cons (e : List UInt8 × List UInt8) (es : List (List UInt8 × List UInt8)) :
    flattenEntries (e :: es) = e.1 ++ 0 :: (e.2 ++ 0 :: flattenEntries es) := by
  simp [flattenEntries]

theorem length_flattenEntries (es : List (List UInt8 × List UInt8)) :
    (flattenEntries es).length = (es.map fun e => e.1.length + e.2.length + 2).sum := by
  induction es with
  | nil => rfl
  | cons e es ih =>
    rw [flattenEntries_cons, List.map_cons, List.sum_cons, ← ih]
    simp
    omega

/-- `key_value_store_size_` after `Flatten`: each entry takes its key, its value and two NULs. -/
theorem length_flatten (m : SafeMap) :
    (flatten m).length = (m.entries.map fun e => e.1.length + e.2.length + 2).sum :=
  length_flattenEntries m.entries

/-- Where the two strings of an entry end, in a store that goes on after it. -/
theorem nulFrom_entry (pre k v rest : List UInt8) (hk : 0 ∉ k) (hv : 0 ∉ v) :
    CString.nulFrom (pre ++ k ++ 0 :: (v ++ 0 :: rest)) pre.length = pre.length + k.length ∧
      CString.nulFrom (pre ++ k ++ 0 :: (v ++ 0 :: rest)) (pre.length + k.length + 1) =
        pre.length + k.length + 1 + v.length := by
  have hsplit : pre ++ k ++ 0 :: (v ++ 0 :: rest) = (pre ++ k ++ [0]) ++ v ++ 0 :: rest := by
    simp
  have hlen : (pre ++ k ++ [0]).length = pre.length + k.length + 1 := by
    simp only [List.length_append, List.length_singleton]
  constructor
  · exact CString.nulFrom_append pre k _ hk
  · rw [hsplit, ← hlen]
    exact CString.nulFrom_append _ v rest hv

/-- The strings of an entry, read where the scanners find them. -/
theorem read_entry (pre k v rest : List UInt8) (hk : 0 ∉ k) (hv : 0 ∉ v) :
    CString.read (pre ++ k ++ 0 :: (v ++ 0 :: rest)) pre.length = some k ∧
      CString.read (pre ++ k ++ 0 :: (v ++ 0 :: rest)) (pre.length + k.length + 1) = some v := by
  have hsplit : pre ++ k ++ 0 :: (v ++ 0 :: rest) = (pre ++ k ++ [0]) ++ v ++ 0 :: rest := by
    simp
  have hlen : (pre ++ k ++ [0]).length = pre.length + k.length + 1 := by
    simp only [List.length_append, List.length_singleton]
  constructor
  · exact CString.read_append pre k _ hk
  · rw [hsplit, ← hlen]
    exact CString.read_append _ v rest hv

/-- The store after one entry is the store with the entry moved into the prefix. -/
theorem append_flattenEntries_cons (pre k v : List UInt8) (es : List (List UInt8 × List UInt8)) :
    pre ++ flattenEntries ((k, v) :: es) = (pre ++ k ++ 0 :: (v ++ [0])) ++ flattenEntries es := by
  simp [flattenEntries_cons]

/-- The loop of `GetStoreValueByKey` over flattened entries after any prefix: it returns the
value of the first entry whose key is `key`, or `nullptr` when there is none. -/
theorem getStoreValueByKeyFrom_flattenEntries {key : List UInt8}
    (es : List (List UInt8 × List UInt8)) :
    ∀ (pre : List UInt8) (fuel : Nat), (∀ e ∈ es, 0 ∉ e.1 ∧ 0 ∉ e.2) → es.length < fuel →
      ∃ r, getStoreValueByKeyFrom (pre ++ flattenEntries es) key fuel pre.length = some r ∧
        r.map (CString.read (pre ++ flattenEntries es)) = (es.lookup key).map some := by
  induction es with
  | nil =>
    intro pre fuel _ hfuel
    obtain ⟨fuel, rfl⟩ : ∃ f, fuel = f + 1 := ⟨fuel - 1, by simp at hfuel; omega⟩
    refine ⟨none, ?_, rfl⟩
    simp [getStoreValueByKeyFrom, flattenEntries]
  | cons e es ih =>
    intro pre fuel hnul hfuel
    obtain ⟨k, v⟩ := e
    obtain ⟨hk, hv⟩ := hnul (k, v) List.mem_cons_self
    obtain ⟨fuel, rfl⟩ : ∃ f, fuel = f + 1 := ⟨fuel - 1, by simp at hfuel; omega⟩
    rw [append_flattenEntries_cons]
    obtain ⟨hkeyEnd, hvalueEnd⟩ := nulFrom_entry pre k v (flattenEntries es) hk hv
    obtain ⟨-, hvalueRead⟩ := read_entry pre k v (flattenEntries es) hk hv
    have hstore : pre ++ k ++ 0 :: (v ++ [0]) ++ flattenEntries es =
        pre ++ k ++ 0 :: (v ++ 0 :: flattenEntries es) := by
      simp
    rw [hstore]
    set store := pre ++ k ++ 0 :: (v ++ 0 :: flattenEntries es) with hstoreDef
    have hlen : store.length = pre.length + k.length + 1 + v.length + 1 +
        (flattenEntries es).length := by
      simp only [hstoreDef, List.length_append, List.length_cons]
      omega
    have htake : (store.drop pre.length).take (pre.length + k.length - pre.length) = k := by
      simp [hstoreDef]
    unfold getStoreValueByKeyFrom
    simp only [parseString_eq_nulFrom, hkeyEnd, hvalueEnd, htake,
      if_pos (show pre.length < store.length by omega),
      if_pos (show pre.length + k.length < store.length by omega)]
    by_cases hkey : key = k
    · -- the first entry holds the key, and its value is terminated
      refine ⟨some (pre.length + k.length + 1), ?_, ?_⟩
      · rw [if_pos hkey, if_pos (show pre.length + k.length + 1 + v.length < store.length by omega)]
      · rw [hkey, List.lookup_cons_self, Option.map_some, Option.map_some, hvalueRead]
    · -- another key: the loop moves on to the next entry
      have hnext : (pre ++ k ++ 0 :: (v ++ [0])).length =
          pre.length + k.length + 1 + v.length + 1 := by
        simp only [List.length_append, List.length_cons, List.length_nil]
        omega
      obtain ⟨r, hrun, hr⟩ := ih (pre ++ k ++ 0 :: (v ++ [0])) fuel
        (fun e he => hnul e (List.mem_cons_of_mem _ he)) (by simp at hfuel; omega)
      rw [hstore, hnext] at hrun
      rw [hstore] at hr
      refine ⟨r, ?_, ?_⟩
      · rw [if_neg hkey]
        exact hrun
      · rw [hr, List.lookup_cons, beq_eq_false_iff_ne.mpr hkey]

/-- The loop of `GetStoreKeyValuePairByIndex` over flattened entries after any prefix, with
`counter` entries to skip: it returns the key and the value of entry `counter`, or `false` when
there are not that many entries. -/
theorem getStoreKeyValuePairByIndexFrom_flattenEntries (es : List (List UInt8 × List UInt8)) :
    ∀ (pre : List UInt8) (fuel counter : Nat), (∀ e ∈ es, 0 ∉ e.1 ∧ 0 ∉ e.2) → es.length < fuel →
      ∃ r, getStoreKeyValuePairByIndexFrom (pre ++ flattenEntries es) fuel pre.length counter =
          some r ∧
        r.map (fun kv => (CString.read (pre ++ flattenEntries es) kv.1,
          CString.read (pre ++ flattenEntries es) kv.2)) = es[counter]?.map fun e => (some e.1, some e.2) := by
  induction es with
  | nil =>
    intro pre fuel counter _ hfuel
    obtain ⟨fuel, rfl⟩ : ∃ f, fuel = f + 1 := ⟨fuel - 1, by simp at hfuel; omega⟩
    refine ⟨none, ?_, by simp⟩
    simp [getStoreKeyValuePairByIndexFrom, flattenEntries]
  | cons e es ih =>
    intro pre fuel counter hnul hfuel
    obtain ⟨k, v⟩ := e
    obtain ⟨hk, hv⟩ := hnul (k, v) List.mem_cons_self
    obtain ⟨fuel, rfl⟩ : ∃ f, fuel = f + 1 := ⟨fuel - 1, by simp at hfuel; omega⟩
    rw [append_flattenEntries_cons]
    obtain ⟨hkeyEnd, hvalueEnd⟩ := nulFrom_entry pre k v (flattenEntries es) hk hv
    obtain ⟨hkeyRead, hvalueRead⟩ := read_entry pre k v (flattenEntries es) hk hv
    have hstore : pre ++ k ++ 0 :: (v ++ [0]) ++ flattenEntries es =
        pre ++ k ++ 0 :: (v ++ 0 :: flattenEntries es) := by
      simp
    rw [hstore]
    set store := pre ++ k ++ 0 :: (v ++ 0 :: flattenEntries es) with hstoreDef
    have hlen : store.length = pre.length + k.length + 1 + v.length + 1 +
        (flattenEntries es).length := by
      simp only [hstoreDef, List.length_append, List.length_cons]
      omega
    have hnext : (pre ++ k ++ 0 :: (v ++ [0])).length =
        pre.length + k.length + 1 + v.length + 1 := by
      simp only [List.length_append, List.length_cons, List.length_nil]
      omega
    unfold getStoreKeyValuePairByIndexFrom
    simp only [parseString_eq_nulFrom, hkeyEnd, hvalueEnd,
      if_pos (show pre.length < store.length ∧ (0 : Int) ≤ counter by omega),
      if_pos (show pre.length + k.length < store.length by omega),
      if_pos (show pre.length + k.length + 1 + v.length + 1 ≤ store.length by omega)]
    cases counter with
    | zero =>
      -- the entry asked for
      refine ⟨some (pre.length, pre.length + k.length + 1), by simp, ?_⟩
      simp [hkeyRead, hvalueRead]
    | succ counter =>
      -- skip this entry
      obtain ⟨r, hrun, hr⟩ := ih (pre ++ k ++ 0 :: (v ++ [0])) fuel counter
        (fun e he => hnul e (List.mem_cons_of_mem _ he)) (by simp at hfuel; omega)
      rw [hstore, hnext] at hrun
      rw [hstore] at hr
      refine ⟨r, ?_, ?_⟩
      · rw [if_neg (by omega)]
        simpa using hrun
      · rw [hr, List.getElem?_cons_succ]

/-- `GetStoreValueByKey` after `Flatten` of a map without NULs: the value `m[key]` for a key of
`m`, and `nullptr` for any other key. -/
theorem getStoreValueByKey_flatten (m : SafeMap) (key : List UInt8) {fuel : Nat}
    (hnul : ∀ e ∈ m.entries, 0 ∉ e.1 ∧ 0 ∉ e.2) (hfuel : m.entries.length < fuel) :
    ∃ r, getStoreValueByKey (flatten m) key fuel = some r ∧
      r.map (CString.read (flatten m)) = (m.entries.lookup key).map some :=
  getStoreValueByKeyFrom_flattenEntries m.entries [] fuel hnul hfuel

/-- `GetStoreKeyValuePairByIndex(index)` after `Flatten` of a map without NULs, for an index that
stays non-negative as an `ssize_t`: entry `index` in iteration order, or `false` past the last
entry. -/
theorem getStoreKeyValuePairByIndex_flatten (m : SafeMap) {index fuel : Nat}
    (hindex : index < 2 ^ 63) (hnul : ∀ e ∈ m.entries, 0 ∉ e.1 ∧ 0 ∉ e.2)
    (hfuel : m.entries.length < fuel) :
    ∃ r, getStoreKeyValuePairByIndex (flatten m) index fuel = some r ∧
      r.map (fun kv => (CString.read (flatten m) kv.1, CString.read (flatten m) kv.2)) =
        m.entries[index]?.map fun e => (some e.1, some e.2) := by
  have hcast : (index : Int).bmod (2 ^ 64) = index := by
    rw [Int.bmod_def, Int.emod_eq_of_lt (by omega) (by omega), if_pos (by omega)]
  unfold getStoreKeyValuePairByIndex
  rw [hcast]
  exact getStoreKeyValuePairByIndexFrom_flattenEntries m.entries [] fuel index hnul hfuel

/-- An index of `2^63` or more is a negative `ssize_t`, and the loop does not start. -/
theorem getStoreKeyValuePairByIndex_of_negative (store : List UInt8) {index fuel : Nat}
    (hlow : 2 ^ 63 ≤ index) (hhigh : index < 2 ^ 64) (hfuel : 0 < fuel) :
    getStoreKeyValuePairByIndex store index fuel = some none := by
  have hcast : (index : Int).bmod (2 ^ 64) = index - ((2 ^ 64 : Nat) : Int) := by
    rw [Int.bmod_def, Int.emod_eq_of_lt (by omega) (by omega), if_neg (by omega)]
  obtain ⟨fuel, rfl⟩ : ∃ f, fuel = f + 1 := ⟨fuel - 1, by omega⟩
  unfold getStoreKeyValuePairByIndex
  rw [hcast]
  unfold getStoreKeyValuePairByIndexFrom
  rw [if_neg (by omega)]

end Flatten

end OatHeader

end AndroidArt.Runtime
