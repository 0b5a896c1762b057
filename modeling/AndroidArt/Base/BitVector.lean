/-
Module: AndroidArt.Base.BitVector
Purpose: libartbase/base/bit_vector.{h,cc}: a growable bit vector over 32-bit words, with
  IsBitSet, EnsureSize, SetBit, ClearAllBits, GetHighestBitSet, NumSetBits, Copy, Intersect,
  Union, UnionIfNotIn, Subtract, SameBitsSet and IsSubsetOf.
Trusted boundary: indices are naturals, so `storage_size_ * kWordBits` and the `int` that
  GetHighestBitSet returns are taken not to overflow (storage below 2^26 words); the allocator,
  and the expandable flag that only a DCHECK reads, are left out.
Main exports: BitVector, isBitSet, toSet, getHighestBitSet
-/
import AndroidArt.Lib.PackedBits
import AndroidArt.Lib.BitScan
import AndroidArt.Base.BitMemoryRegion
import Mathlib.Data.Set.Card
import Mathlib.Order.Bounds.Basic

namespace AndroidArt.Base

open AndroidArt.Lib

def kWordBits : Nat := 32

/-- A bit vector; `storage_size_` is the length of `storage`. -/
structure BitVector where
  storage : List (BitVec 32)
deriving DecidableEq, Repr

namespace BitVector

def storageSize (v : BitVector) : Nat := v.storage.length

def bitsToWords (bits : Nat) : Nat := roundUp bits kWordBits / kWordBits

def wordIndex (idx : Nat) : Nat := idx >>> 5

def bitMask (idx : Nat) : BitVec 32 := 1#32 <<< (idx &&& 0x1f)

/-- `storage_[idx]`; every caller stays inside the storage. -/
def getRawStorageWord (v : BitVector) (idx : Nat) : BitVec 32 := v.storage.getD idx 0

def isBitSet (v : BitVector) (idx : Nat) : Bool :=
  decide (idx < v.storageSize * kWordBits) && (v.getRawStorageWord (wordIndex idx) &&& bitMask idx != 0)

/-- The set the vector stands for. -/
def toSet (v : BitVector) : Set Nat := {i | v.isBitSet i = true}

/-- `EnsureSize`: grow to the words that hold bit `idx`, the new words zero. -/
def ensureSize (v : BitVector) (idx : Nat) : BitVector :=
  if idx ≥ v.storageSize * kWordBits then
    ⟨v.storage ++ List.replicate (bitsToWords (idx + 1) - v.storageSize) 0⟩
  else v

def setBit (v : BitVector) (idx : Nat) : BitVector :=
  let v := if idx ≥ v.storageSize * kWordBits then v.ensureSize idx else v
  ⟨v.storage.modify (wordIndex idx) (· ||| bitMask idx)⟩

def clearAllBits (v : BitVector) : BitVector := ⟨List.replicate v.storageSize 0⟩

/-- The loop of `GetHighestBitSet` over the words below `idx`, from the top. -/
def highestBitBelow (v : BitVector) : Nat → Int
  | 0 => -1
  | idx + 1 =>
    let value := v.getRawStorageWord idx
    if value ≠ 0 then 31 - (value.clz.toNat : Int) + idx * kWordBits else v.highestBitBelow idx

def getHighestBitSet (v : BitVector) : Int := v.highestBitBelow v.storageSize

def numSetBits (v : BitVector) : Nat := (v.storage.map fun word => word.cpop.toNat).sum

/-- One round of the loops of `Union` and `UnionIfNotIn`: or `word idx` into `storage_[idx]`, and
note whether that changed it. -/
def orWord (word : Nat → BitVec 32) (st : Bool × List (BitVec 32)) (idx : Nat) :
    Bool × List (BitVec 32) :=
  let existing := st.2.getD idx 0
  let update := existing ||| word idx
  if existing ≠ update then (true, st.2.set idx update) else st

def union (v src : BitVector) : Bool × BitVector :=
  let highestBit := src.getHighestBitSet
  if highestBit = -1 then (false, v)
  else
    let srcSize := bitsToWords (highestBit + 1).toNat
    -- a vector too small for `src` is grown, which counts as a change
    let grow := decide (v.storageSize < srcSize)
    let v := if grow then v.ensureSize highestBit.toNat else v
    let r := (List.range srcSize).foldl (orWord src.getRawStorageWord) (grow, v.storage)
    (r.1, ⟨r.2⟩)

def unionIfNotIn (v unionWith notIn : BitVector) : Bool × BitVector :=
  let highestBit := unionWith.getHighestBitSet
  if highestBit = -1 then (false, v)
  else
    let unionWithSize := bitsToWords (highestBit + 1).toNat
    -- growing does not count as a change here
    let v := if v.storageSize < unionWithSize then v.ensureSize highestBit.toNat else v
    let split := min notIn.storageSize unionWithSize
    let st := (List.range split).foldl
      (orWord fun idx => unionWith.getRawStorageWord idx &&& ~~~notIn.getRawStorageWord idx)
      (false, v.storage)
    let r := (List.range' split (unionWithSize - split)).foldl (orWord unionWith.getRawStorageWord) st
    (r.1, ⟨r.2⟩)

def intersect (v src : BitVector) : BitVector :=
  let minSize := min v.storageSize src.storageSize
  ⟨v.storage.mapIdx fun idx word => if idx < minSize then word &&& src.getRawStorageWord idx else 0⟩

def subtract (v src : BitVector) : BitVector :=
  let minSize := min v.storageSize src.storageSize
  ⟨v.storage.mapIdx fun idx word =>
    if idx < minSize then word &&& ~~~src.getRawStorageWord idx else word⟩

def copy (v src : BitVector) : BitVector :=
  let highestBit := src.getHighestBitSet
  if highestBit = -1 then v.clearAllBits
  else
    let v := v.setBit highestBit.toNat
    let size := 1 + highestBit.toNat / kWordBits
    ⟨src.storage.take size ++ List.replicate (v.storageSize - size) 0⟩

/-- `SameBitsSet`: the highest bits agree, then the words below the highest bit's word are
compared, the highest bit's word itself only when that bit is not its bit 0. -/
def sameBitsSet (v src : BitVector) : Bool :=
  let ourHighest := v.getHighestBitSet
  let srcHighest := src.getHighestBitSet
  if ourHighest ≠ srcHighest then false
  else if ourHighest ≤ 0 then true
  else
    let ourHighestIndex := bitsToWords ourHighest.toNat
    decide (v.storage.take ourHighestIndex = src.storage.take ourHighestIndex)

def isSubsetOf (v other : BitVector) : Bool :=
  let thisHighest := v.getHighestBitSet
  let otherHighest := other.getHighestBitSet
  if thisHighest < 0 then true
  else if thisHighest > otherHighest then false
  else
    let thisHighestIndex := bitsToWords (thisHighest + 1).toNat
    (List.range thisHighestIndex).all fun i =>
      (v.getRawStorageWord i ||| other.getRawStorageWord i) == other.getRawStorageWord i

/-! ### The set of a bit vector -/

section Bits

variable {v v' : BitVector}

theorem isBitSet_eq_wordBit (v : BitVector) (i : Nat) : v.isBitSet i = wordBit v.storage i := by
  have hindex : wordIndex i = i / 32 := by
    simp only [wordIndex, Nat.shiftRight_eq_div_pow]
  have hmask : bitMask i = 1#32 <<< (i % 32) := by
    rw [bitMask, show (0x1f : Nat) = 2 ^ 5 - 1 from rfl, Nat.and_two_pow_sub_one_eq_mod]
  by_cases hi : i < v.storageSize * kWordBits
  · rw [isBitSet, decide_eq_true hi, Bool.true_and, hindex, hmask, getRawStorageWord]
    exact and_one_shiftLeft_ne_zero (Nat.mod_lt _ (by decide))
  · -- past the storage no bit is set, whatever the words say
    rw [isBitSet, decide_eq_false hi, Bool.false_and,
      wordBit_eq_false_of_length_le (by simp only [storageSize, kWordBits] at hi; omega)]

@[simp] theorem mem_toSet {i : Nat} : i ∈ v.toSet ↔ wordBit v.storage i = true := by
  show v.isBitSet i = true ↔ _
  rw [isBitSet_eq_wordBit]

/-- Two vectors stand for the same set exactly when their words agree, a missing word being
zero. -/
theorem toSet_eq_iff : v.toSet = v'.toSet ↔ ∀ k, v.storage.getD k 0 = v'.storage.getD k 0 := by
  simp only [Set.ext_iff, mem_toSet, ← Bool.eq_iff_iff, wordBit_ext_iff]

/-- The set of a vector given word by word. -/
theorem mem_toSet_of_getD {word : Nat → BitVec 32} (h : ∀ k, v.storage.getD k 0 = word k) {i : Nat} :
    i ∈ v.toSet ↔ (word (i / 32)).getLsbD (i % 32) = true := by
  rw [mem_toSet, wordBit_of_getD h]

theorem lt_length_of_mem_toSet {i : Nat} (h : i ∈ v.toSet) : i / 32 < v.storage.length := by
  have := lt_of_wordBit (mem_toSet.mp h)
  omega

end Bits

/-! ### The highest set bit -/

section Highest

variable {v : BitVector}

/-- The search from word `n - 1` down finds no nonzero word, or the highest set bit below word
`n`. -/
theorem highestBitBelow_cases (v : BitVector) (n : Nat) :
    (v.highestBitBelow n = -1 ∧ ∀ k < n, v.storage.getD k 0 = 0) ∨
      ∃ h : Nat, v.highestBitBelow n = h ∧ h < n * 32 ∧ wordBit v.storage h = true ∧
        ∀ i, h < i → i < n * 32 → wordBit v.storage i = false := by
  induction n with
  | zero => exact .inl ⟨rfl, fun k hk => absurd hk (Nat.not_lt_zero k)⟩
  | succ n ih =>
    by_cases hvalue : v.storage.getD n 0 = 0
    · -- word `n` is zero: the search goes on below it
      have hbelow : v.highestBitBelow (n + 1) = v.highestBitBelow n := by
        simp only [highestBitBelow, getRawStorageWord, hvalue, ne_eq, not_true_eq_false, if_false]
      rcases ih with ⟨hneg, hzero⟩ | ⟨h, heq, hlt, hset, habove⟩
      · refine .inl ⟨hbelow ▸ hneg, fun k hk => ?_⟩
        rcases Nat.lt_succ_iff_lt_or_eq.mp hk with hk | rfl
        · exact hzero k hk
        · exact hvalue
      · refine .inr ⟨h, hbelow ▸ heq, by omega, hset, fun i hi hi' => ?_⟩
        by_cases hin : i < n * 32
        · exact habove i hi hin
        · -- bit `i` lies in word `n`
          have hbit := wordBit_mul_add v.storage (k := n) (j := i - n * 32) (by omega)
          rw [show n * 32 + (i - n * 32) = i by omega, hvalue] at hbit
          simpa using hbit
    · -- word `n` is the highest nonzero word: its highest bit is the answer
      have hclz := clz_lt hvalue
      refine .inr ⟨n * 32 + (32 - 1 - (v.storage.getD n 0).clz.toNat), ?_, by omega, ?_,
        fun i hi hi' => ?_⟩
      · simp only [highestBitBelow, getRawStorageWord, ne_eq, hvalue, not_false_eq_true, if_true,
          kWordBits]
        omega
      · rw [wordBit_mul_add _ (by omega)]
        exact getLsbD_highest hvalue
      · rw [show i = n * 32 + (i - n * 32) by omega, wordBit_mul_add _ (by omega)]
        exact getLsbD_eq_false_of_highest_lt hvalue (by omega)

/-- `GetHighestBitSet` is `-1` on the empty set and the largest element of any other. -/
theorem getHighestBitSet_cases (v : BitVector) :
    (v.getHighestBitSet = -1 ∧ v.toSet = ∅) ∨
      ∃ h : Nat, v.getHighestBitSet = h ∧ IsGreatest v.toSet h := by
  rcases highestBitBelow_cases v v.storageSize with ⟨hneg, hzero⟩ | ⟨h, heq, -, hset, habove⟩
  · refine .inl ⟨hneg, Set.eq_empty_of_forall_notMem fun i hi => ?_⟩
    have hword := hzero (i / 32) (lt_length_of_mem_toSet hi)
    rw [mem_toSet, wordBit, hword] at hi
    simp at hi
  · refine .inr ⟨h, heq, mem_toSet.mpr hset, fun i hi => ?_⟩
    by_contra hgt
    have hlt := lt_of_wordBit (mem_toSet.mp hi)
    rw [mem_toSet, habove i (by omega) hlt] at hi
    exact Bool.false_ne_true hi

theorem getD_eq_zero_of_getHighestBitSet_neg (hv : v.getHighestBitSet = -1) (k : Nat) :
    v.storage.getD k 0 = 0 := by
  rcases getHighestBitSet_cases v with ⟨-, hempty⟩ | ⟨h, hh, -⟩
  · exact getD_eq_zero_of_wordBit fun j _ => by
      have : k * 32 + j ∉ v.toSet := hempty ▸ Set.notMem_empty _
      simpa using this
  · omega

/-- The words above the highest bit's word are zero. -/
theorem getD_eq_zero_of_getHighestBitSet {h : Nat} (hv : v.getHighestBitSet = h) {k : Nat}
    (hk : h / 32 < k) : v.storage.getD k 0 = 0 := by
  rcases getHighestBitSet_cases v with ⟨hneg, -⟩ | ⟨h', hh', hgreat⟩
  · omega
  · have hh : h' = h := by omega
    subst hh
    exact getD_eq_zero_of_wordBit fun j _ => by
      have : k * 32 + j ∉ v.toSet := fun hmem => by
        have := hgreat.2 hmem
        omega
      simpa using this

end Highest

/-! ### Growing, and the or-loops -/

section Words

variable {v : BitVector}

theorem bitsToWords_eq (n : Nat) : bitsToWords n = (n + 31) / 32 := by
  simp only [bitsToWords, roundUp, kWordBits]
  omega

/-- Growing adds zero words only. -/
theorem getD_ensureSize (v : BitVector) (idx k : Nat) :
    (v.ensureSize idx).storage.getD k 0 = v.storage.getD k 0 := by
  unfold ensureSize
  split_ifs
  · simp only [List.getD_eq_getElem?_getD, List.getElem?_append, List.getElem?_replicate]
    split_ifs <;> simp_all
  · rfl

/-- After `EnsureSize(idx)` the words reach bit `idx`. -/
theorem le_length_ensureSize (v : BitVector) (idx : Nat) :
    bitsToWords (idx + 1) ≤ (v.ensureSize idx).storage.length := by
  unfold ensureSize
  split_ifs with hgrow
  · simp only [List.length_append, List.length_replicate, storageSize]
    omega
  · simp only [storageSize, kWordBits] at hgrow
    rw [bitsToWords_eq]
    omega

theorem orWord_spec (word : Nat → BitVec 32) (st : Bool × List (BitVec 32)) {idx : Nat}
    (hidx : idx < st.2.length) :
    (orWord word st idx).2.length = st.2.length ∧
      (∀ k, (orWord word st idx).2.getD k 0 =
        if k = idx then st.2.getD idx 0 ||| word idx else st.2.getD k 0) ∧
      ((orWord word st idx).1 = true ↔
        st.1 = true ∨ (st.2.getD idx 0 ||| word idx) ≠ st.2.getD idx 0) := by
  dsimp only [orWord]
  split_ifs with hchange
  · refine ⟨List.length_set, fun k => ?_, ?_⟩
    · rw [getD_set]
      by_cases hk : k = idx
      · simp only [hk, hidx, and_self, if_true]
      · simp only [Ne.symm hk, hk, false_and, if_false]
    · exact iff_of_true rfl (.inr (Ne.symm hchange))
  · -- the word already had the bits: nothing is written
    have hsame : (st.2.getD idx 0 ||| word idx) = st.2.getD idx 0 := (not_not.mp hchange).symm
    refine ⟨rfl, fun k => ?_, ?_⟩
    · split_ifs with hk
      · rw [hk, hsame]
      · rfl
    · simp only [hsame, ne_eq, not_true_eq_false, or_false]

/-- An or-loop over distinct words inside the storage ors each of them once, and reports a change
exactly when one of them changed. -/
theorem foldl_orWord (word : Nat → BitVec 32) :
    ∀ (idxs : List Nat) (st : Bool × List (BitVec 32)), idxs.Nodup → (∀ k ∈ idxs, k < st.2.length) →
      (idxs.foldl (orWord word) st).2.length = st.2.length ∧
      (∀ k, (idxs.foldl (orWord word) st).2.getD k 0 =
        if k ∈ idxs then st.2.getD k 0 ||| word k else st.2.getD k 0) ∧
      ((idxs.foldl (orWord word) st).1 = true ↔
        st.1 = true ∨ ∃ k ∈ idxs, (st.2.getD k 0 ||| word k) ≠ st.2.getD k 0)
  | [], st, _, _ => ⟨rfl, fun _ => rfl, by simp⟩
  | idx :: idxs, st, hnd, hin => by
    obtain ⟨hlen₁, hget₁, hchanged₁⟩ := orWord_spec word st (hin idx List.mem_cons_self)
    have hnotin : idx ∉ idxs := (List.nodup_cons.mp hnd).1
    obtain ⟨hlen, hget, hchanged⟩ := foldl_orWord word idxs (orWord word st idx)
      (List.nodup_cons.mp hnd).2 fun k hk => hlen₁ ▸ hin k (List.mem_cons_of_mem idx hk)
    -- the later rounds read the words the first round left alone
    have hrest : ∀ k ∈ idxs, (orWord word st idx).2.getD k 0 = st.2.getD k 0 := fun k hk => by
      rw [hget₁, if_neg (fun h : k = idx => hnotin (h ▸ hk))]
    refine ⟨hlen.trans hlen₁, fun k => ?_, ?_⟩
    · rw [List.foldl_cons, hget, hget₁]
      by_cases hk : k ∈ idxs
      · have hne : k ≠ idx := fun h => hnotin (h ▸ hk)
        simp only [hk, hne, List.mem_cons, or_true, if_true, if_false]
      · by_cases hki : k = idx
        · subst hki
          simp only [hk, List.mem_cons, true_or, if_true, if_false]
        · simp only [hk, hki, List.mem_cons, or_false, if_false]
    · rw [List.foldl_cons, hchanged, hchanged₁]
      constructor
      · rintro ((hc | hc) | ⟨k, hk, hne⟩)
        · exact .inl hc
        · exact .inr ⟨idx, List.mem_cons_self, hc⟩
        · exact .inr ⟨k, List.mem_cons_of_mem idx hk, by rwa [hrest k hk] at hne⟩
      · rintro (hc | ⟨k, hk, hne⟩)
        · exact .inl (.inl hc)
        · rcases List.mem_cons.mp hk with rfl | hk
          · exact .inl (.inr hne)
          · exact .inr ⟨k, hk, by rwa [hrest k hk]⟩

/-- Growing a vector that is shorter than the words up to bit `h`'s keeps its words and reaches
that word. -/
theorem grow_spec (v : BitVector) (h : Nat) (c : Prop) [Decidable c]
    (hc : ¬c → h / 32 + 1 ≤ v.storageSize) :
    (∀ k, (if c then v.ensureSize h else v).storage.getD k 0 = v.storage.getD k 0) ∧
      h / 32 + 1 ≤ (if c then v.ensureSize h else v).storage.length := by
  split_ifs with hgrow
  · have hlen := le_length_ensureSize v h
    rw [bitsToWords_eq] at hlen
    exact ⟨getD_ensureSize v h, by omega⟩
  · exact ⟨fun _ => rfl, hc hgrow⟩

/-- What is left to `Union` once `src`'s highest bit `h` is known: grow to the words up to `h`'s,
which counts as a change, then or those words in. -/
theorem union_of_getHighestBitSet {src : BitVector} {h : Nat} (hh : src.getHighestBitSet = h) :
    v.union src =
      let grow := decide (v.storageSize < h / 32 + 1)
      let r := (List.range (h / 32 + 1)).foldl (orWord src.getRawStorageWord)
        (grow, (if grow then v.ensureSize h else v).storage)
      (r.1, ⟨r.2⟩) := by
  have hne : ((h : Nat) : Int) ≠ -1 := by omega
  have hsize : bitsToWords ((h : Int) + 1).toNat = h / 32 + 1 := by
    rw [bitsToWords_eq]
    omega
  simp only [union, hh, hne, if_false, hsize, Int.toNat_natCast]

/-- `Union` ors the words of `src` into the vector, and reports a change exactly when a word
changes. -/
theorem union_words (v src : BitVector) :
    (∀ k, (v.union src).2.storage.getD k 0 = v.storage.getD k 0 ||| src.storage.getD k 0) ∧
      ((v.union src).1 = true ↔
        ∃ k, (v.storage.getD k 0 ||| src.storage.getD k 0) ≠ v.storage.getD k 0) := by
  rcases getHighestBitSet_cases src with ⟨hneg, -⟩ | ⟨h, hh, hgreat⟩
  · -- `src` is empty: nothing changes
    have hzero := getD_eq_zero_of_getHighestBitSet_neg hneg
    have hunion : v.union src = (false, v) := by simp only [union, hneg, if_true]
    rw [hunion]
    refine ⟨fun k => by rw [hzero, or_zero_word], ?_⟩
    simp only [hzero, or_zero_word, ne_eq, not_true_eq_false, exists_false, iff_false]
    exact Bool.false_ne_true
  · obtain ⟨hwords, hlen⟩ := grow_spec v h (decide (v.storageSize < h / 32 + 1) = true)
      fun hgrow => by simpa using hgrow
    obtain ⟨-, hget, hchanged⟩ := foldl_orWord src.getRawStorageWord (List.range (h / 32 + 1))
      (decide (v.storageSize < h / 32 + 1),
        (if decide (v.storageSize < h / 32 + 1) = true then v.ensureSize h else v).storage)
      List.nodup_range fun k hk => lt_of_lt_of_le (List.mem_range.mp hk) hlen
    -- past the highest bit's word, `src` has only zero words
    have habove : ∀ k, h / 32 + 1 ≤ k → src.storage.getD k 0 = 0 := fun k hk =>
      getD_eq_zero_of_getHighestBitSet hh (by omega)
    rw [union_of_getHighestBitSet hh]
    refine ⟨fun k => ?_, ?_⟩
    · simp only [hget, hwords, List.mem_range, getRawStorageWord]
      split_ifs with hk
      · rfl
      · rw [habove k (by omega), or_zero_word]
    · simp only [hchanged, hwords, List.mem_range, getRawStorageWord]
      constructor
      · rintro (hgrow | ⟨k, -, hk⟩)
        · -- the vector was grown: the highest bit's word was past its storage
          refine ⟨h / 32, ?_⟩
          have hv : v.storage.getD (h / 32) 0 = 0 :=
            getD_of_length_le (by have := of_decide_eq_true hgrow; simp only [storageSize] at this; omega) 0
          rw [hv, zero_or_word]
          intro hzero
          have hset := mem_toSet.mp hgreat.1
          rw [wordBit, hzero] at hset
          simp at hset
        · exact ⟨k, hk⟩
      · rintro ⟨k, hk⟩
        refine .inr ⟨k, Nat.lt_of_not_le fun hle => hk ?_, hk⟩
        rw [habove k hle, or_zero_word]

/-- What is left to `UnionIfNotIn` once `unionWith`'s highest bit `h` is known: grow without
counting it as a change, or in `unionWith` without `notIn` up to the end of `notIn`, then
`unionWith` alone up to `h`'s word. -/
theorem unionIfNotIn_of_getHighestBitSet {unionWith notIn : BitVector} {h : Nat}
    (hh : unionWith.getHighestBitSet = h) :
    v.unionIfNotIn unionWith notIn =
      let v' := if v.storageSize < h / 32 + 1 then v.ensureSize h else v
      let split := min notIn.storageSize (h / 32 + 1)
      let st := (List.range split).foldl
        (orWord fun idx => unionWith.getRawStorageWord idx &&& ~~~notIn.getRawStorageWord idx)
        (false, v'.storage)
      let r := (List.range' split (h / 32 + 1 - split)).foldl (orWord unionWith.getRawStorageWord) st
      (r.1, ⟨r.2⟩) := by
  have hne : ((h : Nat) : Int) ≠ -1 := by omega
  have hsize : bitsToWords ((h : Int) + 1).toNat = h / 32 + 1 := by
    rw [bitsToWords_eq]
    omega
  simp only [unionIfNotIn, hh, hne, if_false, hsize, Int.toNat_natCast]

/-- `UnionIfNotIn` ors in the words of `unionWith` without those of `notIn`, and reports a change
exactly when a word changes. -/
theorem unionIfNotIn_words (v unionWith notIn : BitVector) :
    (∀ k, (v.unionIfNotIn unionWith notIn).2.storage.getD k 0 =
      v.storage.getD k 0 ||| (unionWith.storage.getD k 0 &&& ~~~notIn.storage.getD k 0)) ∧
      ((v.unionIfNotIn unionWith notIn).1 = true ↔
        ∃ k, (v.storage.getD k 0 ||| (unionWith.storage.getD k 0 &&& ~~~notIn.storage.getD k 0)) ≠
          v.storage.getD k 0) := by
  rcases getHighestBitSet_cases unionWith with ⟨hneg, -⟩ | ⟨h, hh, -⟩
  · -- `unionWith` is empty: nothing changes
    have hzero := getD_eq_zero_of_getHighestBitSet_neg hneg
    have hunion : v.unionIfNotIn unionWith notIn = (false, v) := by
      simp only [unionIfNotIn, hneg, if_true]
    rw [hunion]
    refine ⟨fun k => by rw [hzero, zero_and_word, or_zero_word], ?_⟩
    simp only [hzero, zero_and_word, or_zero_word, ne_eq, not_true_eq_false, exists_false, iff_false]
    exact Bool.false_ne_true
  · obtain ⟨hwords, hlen⟩ := grow_spec v h (v.storageSize < h / 32 + 1) Nat.le_of_not_lt
    rw [unionIfNotIn_of_getHighestBitSet hh]
    dsimp only
    set v' := if v.storageSize < h / 32 + 1 then v.ensureSize h else v with hv'
    set split := min notIn.storageSize (h / 32 + 1) with hsplit
    set f : Nat → BitVec 32 :=
      fun idx => unionWith.getRawStorageWord idx &&& ~~~notIn.getRawStorageWord idx with hf
    -- the first loop runs to the end of `notIn` or of `unionWith`'s words, the second on to the end
    -- of `unionWith`'s words
    obtain ⟨hlen₁, hget₁, hchanged₁⟩ := foldl_orWord f (List.range split) (false, v'.storage)
      List.nodup_range fun k hk => by
        have := List.mem_range.mp hk
        simp only
        omega
    set st := (List.range split).foldl (orWord f) (false, v'.storage) with hst
    obtain ⟨-, hget₂, hchanged₂⟩ := foldl_orWord unionWith.getRawStorageWord
      (List.range' split (h / 32 + 1 - split)) st List.nodup_range' fun k hk => by
        have := List.mem_range'_1.mp hk
        rw [hlen₁]
        simp only
        omega
    have habove : ∀ k, h / 32 + 1 ≤ k → unionWith.storage.getD k 0 = 0 := fun k hk =>
      getD_eq_zero_of_getHighestBitSet hh (by omega)
    -- where only the second loop runs, `notIn` has no word
    have hnotIn : ∀ k, split ≤ k → k < h / 32 + 1 → notIn.storage.getD k 0 = 0 := fun k hk hk' =>
      getD_of_length_le (by simp only [storageSize] at hsplit; omega) 0
    refine ⟨fun k => ?_, ?_⟩
    · rw [hget₂, hget₁]
      simp only [hwords, List.mem_range, List.mem_range'_1, hf, getRawStorageWord]
      by_cases hk₁ : k < split
      · rw [if_neg (by omega), if_pos hk₁]
      · by_cases hk₂ : k < h / 32 + 1
        · rw [if_pos (by omega), if_neg hk₁, hnotIn k (by omega) hk₂, and_not_zero_word]
        · rw [if_neg (by omega), if_neg hk₁, habove k (by omega), zero_and_word, or_zero_word]
    · rw [hchanged₂, hchanged₁]
      simp only [hget₁, hwords, List.mem_range, List.mem_range'_1, hf, getRawStorageWord]
      constructor
      · rintro ((hfalse | ⟨k, -, hne⟩) | ⟨k, hk, hne⟩)
        · exact absurd hfalse Bool.false_ne_true
        · exact ⟨k, hne⟩
        · refine ⟨k, ?_⟩
          rw [if_neg (by omega)] at hne
          rwa [hnotIn k hk.1 (by omega), and_not_zero_word]
      · rintro ⟨k, hne⟩
        by_cases hk₁ : k < split
        · exact .inl (.inr ⟨k, hk₁, hne⟩)
        · by_cases hk₂ : k < h / 32 + 1
          · -- the second loop ors `unionWith` alone, which is the same word here
            have hword : unionWith.storage.getD k 0 &&& ~~~notIn.storage.getD k 0 =
                unionWith.storage.getD k 0 := by
              rw [hnotIn k (by omega) hk₂, and_not_zero_word]
            refine .inr ⟨k, ⟨by omega, by omega⟩, ?_⟩
            rw [if_neg hk₁]
            rwa [hword] at hne
          · rw [habove k (by omega), zero_and_word, or_zero_word] at hne
            exact absurd rfl hne

theorem intersect_words (v src : BitVector) (k : Nat) :
    (v.intersect src).storage.getD k 0 = v.storage.getD k 0 &&& src.storage.getD k 0 := by
  rw [intersect, getD_mapIdx]
  by_cases hk : k < v.storage.length
  · by_cases hmin : k < min v.storageSize src.storageSize
    · simp only [hk, hmin, if_true, getRawStorageWord]
    · -- past the end of `src`, whose missing words are zero
      have hsrc : src.storage.length ≤ k := by
        simp only [storageSize] at hmin
        omega
      simp only [hk, hmin, if_true, if_false, getD_of_length_le hsrc, and_zero_word]
  · simp only [hk, if_false, getD_of_length_le (Nat.le_of_not_lt hk), zero_and_word]

theorem subtract_words (v src : BitVector) (k : Nat) :
    (v.subtract src).storage.getD k 0 = v.storage.getD k 0 &&& ~~~src.storage.getD k 0 := by
  rw [subtract, getD_mapIdx]
  by_cases hk : k < v.storage.length
  · by_cases hmin : k < min v.storageSize src.storageSize
    · simp only [hk, hmin, if_true, getRawStorageWord]
    · -- past the end of `src` the words stay
      have hsrc : src.storage.length ≤ k := by
        simp only [storageSize] at hmin
        omega
      simp only [hk, hmin, if_true, if_false, getD_of_length_le hsrc, and_not_zero_word]
  · simp only [hk, if_false, getD_of_length_le (Nat.le_of_not_lt hk), zero_and_word]

theorem copy_words (v src : BitVector) (k : Nat) :
    (v.copy src).storage.getD k 0 = src.storage.getD k 0 := by
  rcases getHighestBitSet_cases src with ⟨hneg, -⟩ | ⟨h, hh, hgreat⟩
  · -- an empty `src` clears every word
    simp only [copy, hneg, if_true, clearAllBits]
    rw [getD_replicate_self, getD_eq_zero_of_getHighestBitSet_neg hneg]
  · have hne : ((h : Nat) : Int) ≠ -1 := by omega
    have hlen : 1 + h / 32 ≤ src.storage.length := by
      have := lt_length_of_mem_toSet hgreat.1
      omega
    simp only [copy, hh, hne, if_false, Int.toNat_natCast, kWordBits]
    by_cases hk : k < 1 + h / 32
    · -- the words up to the highest bit's are copied
      rw [getD_append_left (by rw [List.length_take]; omega), List.getD_eq_getElem?_getD,
        List.getElem?_take, if_pos hk, ← List.getD_eq_getElem?_getD]
    · -- the rest are cleared, as the words of `src` are zero there
      rw [getD_eq_zero_of_getHighestBitSet hh (by omega), List.getD_eq_getElem?_getD,
        List.getElem?_append_right (by rw [List.length_take]; omega), List.getElem?_replicate]
      split_ifs <;> rfl

end Words

/-! ### The operations on sets -/

section Sets

variable {v v' : BitVector}

theorem toSet_ne_iff : v'.toSet ≠ v.toSet ↔ ∃ k, v'.storage.getD k 0 ≠ v.storage.getD k 0 := by
  simp only [ne_eq, toSet_eq_iff, not_forall]

theorem toSet_union (v src : BitVector) : (v.union src).2.toSet = v.toSet ∪ src.toSet := by
  ext i
  rw [mem_toSet_of_getD (union_words v src).1, BitVec.getLsbD_or, Set.mem_union, mem_toSet,
    mem_toSet, Bool.or_eq_true]
  rfl

/-- `Union` returns whether the set changed. -/
theorem union_changed_iff (v src : BitVector) :
    (v.union src).1 = true ↔ (v.union src).2.toSet ≠ v.toSet := by
  rw [(union_words v src).2, toSet_ne_iff]
  simp only [(union_words v src).1]

theorem toSet_unionIfNotIn (v unionWith notIn : BitVector) :
    (v.unionIfNotIn unionWith notIn).2.toSet = v.toSet ∪ (unionWith.toSet \ notIn.toSet) := by
  ext i
  have hbit : i % 32 < 32 := Nat.mod_lt _ (by decide)
  rw [mem_toSet_of_getD (unionIfNotIn_words v unionWith notIn).1]
  simp only [BitVec.getLsbD_or, BitVec.getLsbD_and, BitVec.getLsbD_not, hbit, decide_true,
    Bool.true_and, Set.mem_union, Set.mem_sdiff, mem_toSet, wordBit, Bool.or_eq_true,
    Bool.and_eq_true, Bool.not_eq_true', Bool.not_eq_true]

theorem unionIfNotIn_changed_iff (v unionWith notIn : BitVector) :
    (v.unionIfNotIn unionWith notIn).1 = true ↔ (v.unionIfNotIn unionWith notIn).2.toSet ≠ v.toSet := by
  rw [(unionIfNotIn_words v unionWith notIn).2, toSet_ne_iff]
  simp only [(unionIfNotIn_words v unionWith notIn).1]

theorem toSet_intersect (v src : BitVector) : (v.intersect src).toSet = v.toSet ∩ src.toSet := by
  ext i
  rw [mem_toSet_of_getD (intersect_words v src), BitVec.getLsbD_and, Set.mem_inter_iff, mem_toSet,
    mem_toSet, Bool.and_eq_true]
  rfl

theorem toSet_subtract (v src : BitVector) : (v.subtract src).toSet = v.toSet \ src.toSet := by
  ext i
  have hbit : i % 32 < 32 := Nat.mod_lt _ (by decide)
  rw [mem_toSet_of_getD (subtract_words v src)]
  simp only [BitVec.getLsbD_and, BitVec.getLsbD_not, hbit, decide_true, Bool.true_and,
    Set.mem_sdiff, mem_toSet, wordBit, Bool.and_eq_true, Bool.not_eq_true', Bool.not_eq_true]

theorem toSet_copy (v src : BitVector) : (v.copy src).toSet = src.toSet :=
  toSet_eq_iff.mpr (copy_words v src)

theorem getHighestBitSet_eq_neg_one_iff (v : BitVector) : v.getHighestBitSet = -1 ↔ v.toSet = ∅ := by
  rcases getHighestBitSet_cases v with ⟨hv, hempty⟩ | ⟨h, hv, hgreat⟩
  · exact iff_of_true hv hempty
  · refine iff_of_false (by omega) fun hempty => ?_
    rw [hempty] at hgreat
    exact hgreat.1

theorem getHighestBitSet_eq_iff (v : BitVector) (h : Nat) :
    v.getHighestBitSet = h ↔ IsGreatest v.toSet h := by
  rcases getHighestBitSet_cases v with ⟨hv, hempty⟩ | ⟨h', hv, hgreat⟩
  · refine iff_of_false (by omega) fun hgreat => ?_
    rw [hempty] at hgreat
    exact hgreat.1
  · rw [hv, Int.natCast_inj]
    exact ⟨fun heq => heq ▸ hgreat, fun hgreat' => hgreat.unique hgreat'⟩

/-- The highest bit is a function of the set. -/
theorem getHighestBitSet_eq_of_toSet_eq (h : v.toSet = v'.toSet) :
    v.getHighestBitSet = v'.getHighestBitSet := by
  rcases getHighestBitSet_cases v with ⟨hv, hempty⟩ | ⟨a, hv, hgreat⟩
  · rw [hv, eq_comm, getHighestBitSet_eq_neg_one_iff, ← h, hempty]
  · rw [hv, eq_comm, getHighestBitSet_eq_iff, ← h]
    exact hgreat

/-- Two vectors with the same highest bit `h` stand for the same set once their words agree
below word `bitsToWords h`: from there on the only bit either has is `h`. -/
theorem toSet_eq_of_isGreatest {h : Nat} (hv : IsGreatest v.toSet h) (hv' : IsGreatest v'.toSet h)
    (hwords : ∀ k < (h + 31) / 32, v.storage.getD k 0 = v'.storage.getD k 0) :
    v.toSet = v'.toSet := by
  ext i
  by_cases hi : i < (h + 31) / 32 * 32
  · rw [mem_toSet, mem_toSet, wordBit, wordBit, hwords (i / 32) (by omega)]
  · rcases Nat.lt_or_ge h i with hlt | hle
    · exact iff_of_false (fun hm => absurd (hv.2 hm) (by omega))
        (fun hm => absurd (hv'.2 hm) (by omega))
    · have hih : i = h := by omega
      subst hih
      exact iff_of_true hv.1 hv'.1

/-- `SameBitsSet` decides equality of the sets: comparing the words below `BitsToWords(highest)`
is enough, as the highest bit's word, when it is not among them, holds that bit alone. -/
theorem sameBitsSet_iff (v src : BitVector) : v.sameBitsSet src = true ↔ v.toSet = src.toSet := by
  constructor
  · intro hsame
    dsimp only [sameBitsSet] at hsame
    split_ifs at hsame with hne hle
    · have heq : v.getHighestBitSet = src.getHighestBitSet := not_not.mp hne
      rcases getHighestBitSet_cases v with ⟨hv, hempty⟩ | ⟨h, hv, hgreat⟩
      · rw [hempty, eq_comm, ← getHighestBitSet_eq_neg_one_iff, ← heq, hv]
      · -- the highest bit is bit 0, so both sets are `{0}`
        have hsrc : IsGreatest src.toSet h := (getHighestBitSet_eq_iff src h).mp (heq ▸ hv)
        exact toSet_eq_of_isGreatest hgreat hsrc fun k hk => by omega
    · have heq : v.getHighestBitSet = src.getHighestBitSet := not_not.mp hne
      rcases getHighestBitSet_cases v with ⟨hv, -⟩ | ⟨h, hv, hgreat⟩
      · omega
      · have hsrc : IsGreatest src.toSet h := (getHighestBitSet_eq_iff src h).mp (heq ▸ hv)
        rw [hv, Int.toNat_natCast, bitsToWords_eq] at hsame
        exact toSet_eq_of_isGreatest hgreat hsrc fun k hk =>
          getD_eq_of_take_eq (of_decide_eq_true hsame) hk 0
  · intro hsets
    have heq := getHighestBitSet_eq_of_toSet_eq hsets
    dsimp only [sameBitsSet]
    rw [if_neg (not_not.mpr heq)]
    split_ifs with hle
    · rfl
    · rcases getHighestBitSet_cases v with ⟨hv, -⟩ | ⟨h, hv, hgreat⟩
      · omega
      · -- both have the words up to the highest bit's, and they agree
        have hsrc : h ∈ src.toSet := hsets ▸ hgreat.1
        have hlen := lt_length_of_mem_toSet hgreat.1
        have hlen' := lt_length_of_mem_toSet hsrc
        rw [hv, Int.toNat_natCast, bitsToWords_eq]
        exact decide_eq_true (take_eq_take_of_getD (by omega) (by omega) 0
          fun k _ => toSet_eq_iff.mp hsets k)

/-- `IsSubsetOf` decides inclusion: past the highest bit's word there is nothing to compare. -/
theorem isSubsetOf_iff (v other : BitVector) : v.isSubsetOf other = true ↔ v.toSet ⊆ other.toSet := by
  rcases getHighestBitSet_cases v with ⟨hv, hempty⟩ | ⟨h, hv, hgreat⟩
  · -- an empty set is a subset
    have hsub : v.isSubsetOf other = true := by
      simp only [isSubsetOf, hv]
      rfl
    exact iff_of_true hsub (hempty ▸ Set.empty_subset _)
  · rcases getHighestBitSet_cases other with ⟨ho, hoempty⟩ | ⟨h', ho, hogreat⟩
    · -- `other` is empty and `v` is not
      have hsub : v.isSubsetOf other = false := by
        simp only [isSubsetOf, hv, ho]
        rw [if_neg (by omega), if_pos (by omega)]
      rw [hsub]
      exact iff_of_false Bool.false_ne_true fun hsub => by
        have := hsub hgreat.1
        rw [hoempty] at this
        exact this
    · by_cases hlt : h' < h
      · -- the highest bit of `v` is not in `other`
        have hsub : v.isSubsetOf other = false := by
          simp only [isSubsetOf, hv, ho]
          rw [if_neg (by omega), if_pos (by omega)]
        rw [hsub]
        exact iff_of_false Bool.false_ne_true fun hsub => by
          have := hogreat.2 (hsub hgreat.1)
          omega
      · have hsub : v.isSubsetOf other =
            (List.range (h / 32 + 1)).all fun i =>
              (v.getRawStorageWord i ||| other.getRawStorageWord i) == other.getRawStorageWord i := by
          have hsize : bitsToWords ((h : Int) + 1).toNat = h / 32 + 1 := by
            rw [bitsToWords_eq]
            omega
          simp only [isSubsetOf, hv, ho]
          rw [if_neg (by omega), if_neg (by omega), hsize]
        rw [hsub, List.all_eq_true]
        simp only [List.mem_range, beq_iff_eq, getRawStorageWord, or_eq_right_iff]
        constructor
        · intro hwords i hi
          have hle := hgreat.2 hi
          rw [mem_toSet] at hi ⊢
          rw [wordBit] at hi ⊢
          exact hwords (i / 32) (by omega) (i % 32) (Nat.mod_lt _ (by decide)) hi
        · intro hsubset k _ j hj hbit
          have hmem := hsubset (mem_toSet.mpr (by rwa [wordBit_mul_add _ hj]))
          rwa [mem_toSet, wordBit_mul_add _ hj] at hmem

/-- `NumSetBits` counts the set. -/
theorem numSetBits_eq_ncard (v : BitVector) : v.numSetBits = v.toSet.ncard := by
  have hset : v.toSet = ↑((List.range (v.storage.length * 32)).filter (wordBit v.storage)).toFinset := by
    ext i
    simp only [mem_toSet, Finset.mem_coe, List.mem_toFinset, List.mem_filter, List.mem_range]
    exact ⟨fun h => ⟨lt_of_wordBit h, h⟩, fun h => h.2⟩
  rw [hset, Set.ncard_coe_finset, List.toFinset_card_of_nodup (List.nodup_range.filter _),
    ← List.countP_eq_length_filter, countP_wordBit (by decide), numSetBits]

end Sets

end BitVector

/-- The operations of a bit vector are the set operations on the indices of its set bits,
whatever the storage sizes of the operands. -/
theorem bitVector_set_semantics (a b c : BitVector) :
    ((a.union b).2.toSet = a.toSet ∪ b.toSet ∧
      ((a.union b).1 = true ↔ (a.union b).2.toSet ≠ a.toSet)) ∧
    (a.intersect b).toSet = a.toSet ∩ b.toSet ∧
    (a.subtract b).toSet = a.toSet \ b.toSet ∧
    ((a.unionIfNotIn b c).2.toSet = a.toSet ∪ (b.toSet \ c.toSet) ∧
      ((a.unionIfNotIn b c).1 = true ↔ (a.unionIfNotIn b c).2.toSet ≠ a.toSet)) ∧
    (a.sameBitsSet b = true ↔ a.toSet = b.toSet) ∧
    (a.isSubsetOf b = true ↔ a.toSet ⊆ b.toSet) ∧
    (a.getHighestBitSet = -1 ↔ a.toSet = ∅) ∧
    (∀ h : Nat, a.getHighestBitSet = h ↔ IsGreatest a.toSet h) ∧
    a.numSetBits = a.toSet.ncard ∧
    (a.copy b).toSet = b.toSet :=
  ⟨⟨BitVector.toSet_union a b, BitVector.union_changed_iff a b⟩, BitVector.toSet_intersect a b,
    BitVector.toSet_subtract a b,
    ⟨BitVector.toSet_unionIfNotIn a b c, BitVector.unionIfNotIn_changed_iff a b c⟩,
    BitVector.sameBitsSet_iff a b, BitVector.isSubsetOf_iff a b,
    BitVector.getHighestBitSet_eq_neg_one_iff a, BitVector.getHighestBitSet_eq_iff a,
    BitVector.numSetBits_eq_ncard a, BitVector.toSet_copy a b⟩

end AndroidArt.Base
