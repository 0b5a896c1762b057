/-
Module: AndroidArt.Base.HashSet
Purpose: art::HashSet (libartbase/base/hash_set.h): open addressing with linear probing over a
  table of slots, erase by backward shift, and a table that is resized through `double` load
  factors.
Trusted boundary: none
Main exports: HashSet, HashSet.insert, HashSet.find, HashSet.erase
-/
import Mathlib
import AndroidArt.Lib.BinaryFloat

namespace AndroidArt.Base

open AndroidArt.Lib

/-- `HashSet::kMinBuckets`. -/
def kMinBuckets : Nat := 1000

/-- `static_cast<double>` of a `size_t`. -/
def toDouble (n : Nat) : BinaryFloat := BinaryFloat.ofNat .binary64 n

/-- `static_cast<size_t>` of a `double`: `none` where the conversion is undefined. -/
def toSize (x : BinaryFloat) : Option Nat := x.truncate 64

/-- `kDefaultMinLoadFactor`, the `double` nearest `0.4`. -/
def kDefaultMinLoadFactor : BinaryFloat := FloatFormat.binary64.roundScaled 2 5 0

/-- `kDefaultMaxLoadFactor`, the `double` nearest `0.7`. -/
def kDefaultMaxLoadFactor : BinaryFloat := FloatFormat.binary64.roundScaled 7 10 0

/-- The `double` `0.5`. -/
def half : BinaryFloat := .finite 1 (-1)

/-- The fields of `HashSet<T>` that its operations read: the count, the threshold at which it
expands, the two load factors, and the slots `data_[0 .. num_buckets_)`. -/
structure HashSet (α : Type) where
  numElements : Nat
  elementsUntilExpand : Nat
  minLoadFactor : BinaryFloat
  maxLoadFactor : BinaryFloat
  data : List (Option α)

namespace HashSet

variable {α : Type}

/-- `HashSet(min_load_factor, max_load_factor)`: no storage until the first insert. -/
def create (minLoadFactor maxLoadFactor : BinaryFloat) : HashSet α :=
  ⟨0, 0, minLoadFactor, maxLoadFactor, []⟩

/-- `HashSet()`. -/
def empty : HashSet α := create kDefaultMinLoadFactor kDefaultMaxLoadFactor

section Slots

variable (s : HashSet α)

/-- `NumBuckets()`. -/
def numBuckets : Nat := s.data.length

/-- `ElementForIndex`. -/
def elementForIndex (index : Nat) : Option α := s.data.getD index none

/-- `IsFreeSlot`. -/
def isFreeSlot (index : Nat) : Bool := (s.elementForIndex index).isNone

/-- `IndexForHash`: `0` for a table without slots. -/
def indexForHash (hash : Nat) : Nat := if s.numBuckets = 0 then 0 else hash % s.numBuckets

/-- `NextIndex`: the next slot, around the end of the table. -/
def nextIndex (index : Nat) : Nat := if s.numBuckets ≤ index + 1 then 0 else index + 1

/-- The slot `index` overwritten. -/
def setSlot (index : Nat) (slot : Option α) : HashSet α := { s with data := s.data.set index slot }

/-- The loop of `FirstAvailableSlot` for at most `fuel` slots. -/
def firstAvailableSlotFrom : Nat → Nat → Option Nat
  | 0, _ => none
  | fuel + 1, index =>
    if s.isFreeSlot index then some index else firstAvailableSlotFrom fuel (s.nextIndex index)

/-- `FirstAvailableSlot`: the first empty slot from `index` on, around the table; `none` where
there is none and the C++ loop never ends. -/
def firstAvailableSlot (index : Nat) : Option Nat := s.firstAvailableSlotFrom s.numBuckets index

/-- The loop of `NextNonEmptySlot`, for at most `fuel` slots. -/
def nextNonEmptySlotFrom : Nat → Nat → Nat
  | 0, index => index
  | fuel + 1, index =>
    if index + 1 < s.numBuckets ∧ s.isFreeSlot (index + 1) then
      nextNonEmptySlotFrom fuel (index + 1)
    else index + 1

/-- `NextNonEmptySlot`, which `++` of an iterator calls: the next occupied slot after `index`,
or `NumBuckets()`. -/
def nextNonEmptySlot (index : Nat) : Nat := s.nextNonEmptySlotFrom s.numBuckets index

end Slots

section Operations

variable (hashFn : α → Nat) (pred : α → α → Bool)

/-- The loop of `FindIndex` for at most `fuel` slots: the slot of an element equal to `key`, or
`NumBuckets()` at the first empty slot. -/
def findIndexFrom (s : HashSet α) (key : α) : Nat → Nat → Option Nat
  | 0, _ => none
  | fuel + 1, index =>
    match s.elementForIndex index with
    | none => some s.numBuckets
    | some slot =>
      if pred slot key then some index else findIndexFrom s key fuel (s.nextIndex index)

/-- `FindIndex`: `none` where the C++ loop never ends, when no slot is empty and none holds an
element equal to `key`. -/
def findIndex (s : HashSet α) (key : α) (hash : Nat) : Option Nat :=
  if s.numBuckets = 0 then some 0 else findIndexFrom pred s key s.numBuckets (s.indexForHash hash)

/-- `find`: the index of the iterator it returns, `NumBuckets()` for `end()`. -/
def find (s : HashSet α) (key : α) : Option Nat := findIndex pred s key (hashFn key)

/-- The loop of `Resize` that moves every element of the old slots, in the order of their
indices, into the first available slot from its ideal index. -/
def reinsert (s : HashSet α) : List (Option α) → Option (HashSet α)
  | [] => some s
  | none :: rest => reinsert s rest
  | some element :: rest => do
    let index ← s.firstAvailableSlot (s.indexForHash (hashFn element))
    reinsert (s.setSlot index (some element)) rest

/-- `Resize`: at least `kMinBuckets` new slots, the elements moved over, and the threshold
`NumBuckets() * max_load_factor_`. -/
def resize (s : HashSet α) (newSize : Nat) : Option (HashSet α) := do
  let newSize := if newSize < kMinBuckets then kMinBuckets else newSize
  let s' ← reinsert hashFn { s with data := List.replicate newSize none } s.data
  let elementsUntilExpand ← toSize (BinaryFloat.mul .binary64 (toDouble s'.numBuckets)
    s.maxLoadFactor)
  pure { s' with elementsUntilExpand }

/-- `Expand`: a resize to `size() / min_load_factor_` slots. -/
def expand (s : HashSet α) : Option (HashSet α) := do
  let minIndex ← toSize (BinaryFloat.div .binary64 (toDouble s.numElements) s.minLoadFactor)
  resize hashFn s minIndex

/-- `InsertWithHash`: expand when the count has reached the threshold, then fill the first
available slot from the ideal index.  Returns the set and the index of the new element. -/
def insertWithHash (s : HashSet α) (element : α) (hash : Nat) : Option (HashSet α × Nat) := do
  let s ← if s.elementsUntilExpand ≤ s.numElements then expand hashFn s else pure s
  let index ← s.firstAvailableSlot (s.indexForHash hash)
  pure ({ s.setSlot index (some element) with numElements := s.numElements + 1 }, index)

/-- `insert`. -/
def insert (s : HashSet α) (element : α) : Option (HashSet α × Nat) :=
  insertWithHash hashFn s element (hashFn element)

/-- The loop of `erase` for at most `fuel` slots.  `emptyIndex` is the slot that will become
empty, `nextIdx` the last slot looked at, and `filled` whether the erased slot was filled. -/
def eraseFrom (s : HashSet α) : Nat → Nat → Nat → Bool → Option (HashSet α × Bool)
  | 0, _, _, _ => none
  | fuel + 1, emptyIndex, nextIdx, filled =>
    let nextIdx := s.nextIndex nextIdx
    match s.elementForIndex nextIdx with
    | none => some (s.setSlot emptyIndex none, filled)
    | some nextElement =>
      let nextIdealIndex := s.indexForHash (hashFn nextElement)
      -- both indices unwrapped past `emptyIndex`, as the source compares them
      let unwrappedNextIndex :=
        if nextIdx < emptyIndex then nextIdx + s.numBuckets else nextIdx
      let unwrappedNextIdealIndex :=
        if nextIdealIndex < emptyIndex then nextIdealIndex + s.numBuckets else nextIdealIndex
      if unwrappedNextIdealIndex ≤ emptyIndex ∨ unwrappedNextIndex < unwrappedNextIdealIndex then
        eraseFrom (s.setSlot emptyIndex (some nextElement)) fuel nextIdx nextIdx true
      else eraseFrom s fuel emptyIndex nextIdx filled

/-- `erase(it)` at the slot `index`: the backward shift, then `--num_elements_`.  Returns the set
and the index of the iterator it returns: the same slot if it was filled, else the next occupied
one. -/
def erase (s : HashSet α) (index : Nat) : Option (HashSet α × Nat) := do
  let (s', filled) ← eraseFrom hashFn s s.numBuckets index index false
  let s' := { s' with numElements := s'.numElements - 1 }
  pure (s', if filled then index else s'.nextNonEmptySlot index)

/-- `clear`: the storage freed. -/
def clear (s : HashSet α) : HashSet α :=
  { s with numElements := 0, elementsUntilExpand := 0, data := [] }

/-- The loop of `reserve` that adds a bucket while `num_buckets * max_load_factor_`, truncated,
is at most `num_elements + 1`, for at most `fuel` rounds. -/
def reserveLoop (maxLoadFactor : BinaryFloat) (numElements : Nat) : Nat → Nat → Option Nat
  | 0, _ => none
  | fuel + 1, numBuckets => do
    let threshold ← toSize (BinaryFloat.mul .binary64 (toDouble numBuckets) maxLoadFactor)
    if threshold ≤ numElements + 1 then reserveLoop maxLoadFactor numElements fuel (numBuckets + 1)
    else pure numBuckets

/-- `reserve`: resize to the bucket count the loop finds, if it is more than there are.  The loop
is bounded by the `2^64` values of `size_t`. -/
def reserve (s : HashSet α) (numElements : Nat) : Option (HashSet α) := do
  let numBuckets ← toSize (BinaryFloat.div .binary64 (toDouble numElements) s.maxLoadFactor)
  let numBuckets ← reserveLoop s.maxLoadFactor numElements (2 ^ 64) numBuckets
  if s.numBuckets < numBuckets then resize hashFn s numBuckets else pure s

/-- `ShrinkToMaximumLoad`: a resize to `size() / max_load_factor_` slots. -/
def shrinkToMaximumLoad (s : HashSet α) : Option (HashSet α) := do
  let newSize ← toSize (BinaryFloat.div .binary64 (toDouble s.numElements) s.maxLoadFactor)
  resize hashFn s newSize

/-- `CalculateLoadFactor`: `0.0 / 0.0`, NaN, for a set without slots. -/
def calculateLoadFactor (s : HashSet α) : BinaryFloat :=
  BinaryFloat.div .binary64 (toDouble s.numElements) (toDouble s.numBuckets)

/-- `SetLoadFactor`: the new factors and threshold, and a resize to the mean of the factors if
the load is above the new maximum. -/
def setLoadFactor (s : HashSet α) (minLoadFactor maxLoadFactor : BinaryFloat) :
    Option (HashSet α) := do
  let elementsUntilExpand ← toSize (BinaryFloat.mul .binary64 (toDouble s.numBuckets)
    maxLoadFactor)
  let s := { s with minLoadFactor, maxLoadFactor, elementsUntilExpand }
  if BinaryFloat.lt maxLoadFactor s.calculateLoadFactor then
    let mean := BinaryFloat.mul .binary64 (BinaryFloat.add .binary64 minLoadFactor maxLoadFactor)
      half
    let newSize ← toSize (BinaryFloat.div .binary64 (toDouble s.numElements) mean)
    resize hashFn s newSize
  else pure s

/-- The operations of the set on which its contract is stated. -/
inductive Op (α : Type) where
  | insert (element : α)
  | find (key : α)
  | erase (index : Nat)
  | clear
  | reserve (numElements : Nat)
  | shrinkToMaximumLoad
  | setLoadFactor (minLoadFactor maxLoadFactor : BinaryFloat)

/-- One operation; `none` where the C++ code does not return or its behaviour is undefined. -/
def step (s : HashSet α) : Op α → Option (HashSet α)
  | .insert element => (insert hashFn s element).map Prod.fst
  | .find key => (find hashFn pred s key).map fun _ => s
  | .erase index => (erase hashFn s index).map Prod.fst
  | .clear => some (clear s)
  | .reserve numElements => reserve hashFn s numElements
  | .shrinkToMaximumLoad => shrinkToMaximumLoad hashFn s
  | .setLoadFactor minLoadFactor maxLoadFactor => setLoadFactor hashFn s minLoadFactor maxLoadFactor

/-- A sequence of operations. -/
def run (s : HashSet α) : List (Op α) → Option (HashSet α)
  | [] => some s
  | op :: ops => (step hashFn pred s op).bind fun s' => run s' ops

end Operations

section SlotLemmas

variable {s : HashSet α} {i j : Nat} {v : Option α}

@[simp] theorem numBuckets_setSlot : (s.setSlot i v).numBuckets = s.numBuckets := by
  simp [setSlot, numBuckets]

@[simp] theorem indexForHash_setSlot (hash : Nat) :
    (s.setSlot i v).indexForHash hash = s.indexForHash hash := by
  simp [indexForHash]

theorem indexForHash_lt (hN : 0 < s.numBuckets) (hash : Nat) :
    s.indexForHash hash < s.numBuckets := by
  unfold indexForHash
  rw [if_neg (by omega)]
  exact Nat.mod_lt _ hN

theorem elementForIndex_setSlot_self (hi : i < s.numBuckets) :
    (s.setSlot i v).elementForIndex i = v := by
  simp [setSlot, elementForIndex, List.getD_eq_getElem?_getD, List.getElem?_set_self hi]

theorem elementForIndex_setSlot_ne (hij : i ≠ j) :
    (s.setSlot i v).elementForIndex j = s.elementForIndex j := by
  simp [setSlot, elementForIndex, List.getD_eq_getElem?_getD, List.getElem?_set_ne hij]

/-- Filling a slot leaves every occupied slot occupied. -/
theorem isFreeSlot_setSlot_some {x : α} (hi : i < s.numBuckets) (hj : s.isFreeSlot j = false) :
    (s.setSlot i (some x)).isFreeSlot j = false := by
  by_cases hij : i = j
  · subst hij
    simp [isFreeSlot, elementForIndex_setSlot_self hi]
  · simpa [isFreeSlot, elementForIndex_setSlot_ne hij] using hj

end SlotLemmas

section Probing

variable {s : HashSet α}

/-- `NextIndex` steps around the table. -/
theorem nextIndex_eq {i : Nat} (hi : i < s.numBuckets) :
    s.nextIndex i = (i + 1) % s.numBuckets := by
  unfold nextIndex
  split
  · rw [show i + 1 = s.numBuckets by omega, Nat.mod_self]
  · rw [Nat.mod_eq_of_lt (by omega)]

theorem nextIndex_lt {i : Nat} (hi : i < s.numBuckets) : s.nextIndex i < s.numBuckets := by
  rw [nextIndex_eq hi]
  exact Nat.mod_lt _ (by omega)

/-- A walk from the next slot is a walk one step longer. -/
theorem nextIndex_add_mod {i : Nat} (hi : i < s.numBuckets) (k : Nat) :
    (s.nextIndex i + k) % s.numBuckets = (i + (k + 1)) % s.numBuckets := by
  rw [nextIndex_eq hi, Nat.mod_add_mod, Nat.add_assoc, Nat.add_comm 1 k]

/-- What `FirstAvailableSlot` returns: a free slot `k` steps on, with every slot before it
occupied. -/
theorem firstAvailableSlotFrom_eq_some :
    ∀ {fuel i j : Nat}, i < s.numBuckets → s.firstAvailableSlotFrom fuel i = some j →
      ∃ k < fuel, j = (i + k) % s.numBuckets ∧ s.isFreeSlot j = true ∧
        ∀ k' < k, s.isFreeSlot ((i + k') % s.numBuckets) = false
  | 0, _, _, _, h => by cases h
  | fuel + 1, i, j, hi, h => by
    unfold firstAvailableSlotFrom at h
    split at h
    · -- the slot at `i` is free
      rename_i hfree
      cases h
      refine ⟨0, by omega, by rw [Nat.add_zero, Nat.mod_eq_of_lt hi], hfree, ?_⟩
      intro _ hk
      omega
    · rename_i hocc
      obtain ⟨k, hk, rfl, hfree, hbefore⟩ := firstAvailableSlotFrom_eq_some (nextIndex_lt hi) h
      rw [nextIndex_add_mod hi] at hfree ⊢
      refine ⟨k + 1, by omega, rfl, hfree, ?_⟩
      intro k' hk'
      cases k' with
      | zero =>
        rw [Nat.add_zero, Nat.mod_eq_of_lt hi]
        simpa using hocc
      | succ k' =>
        rw [← nextIndex_add_mod hi]
        exact hbefore k' (by omega)

/-- A free slot within `fuel` steps is found. -/
theorem firstAvailableSlotFrom_isSome :
    ∀ {fuel i k : Nat}, i < s.numBuckets → k < fuel →
      s.isFreeSlot ((i + k) % s.numBuckets) = true → ∃ j, s.firstAvailableSlotFrom fuel i = some j
  | 0, _, _, _, hk, _ => absurd hk (Nat.not_lt_zero _)
  | fuel + 1, i, k, hi, hk, hfree => by
    unfold firstAvailableSlotFrom
    split
    · exact ⟨i, rfl⟩
    · rename_i hocc
      cases k with
      | zero =>
        rw [Nat.add_zero, Nat.mod_eq_of_lt hi] at hfree
        exact absurd hfree hocc
      | succ k =>
        rw [← nextIndex_add_mod hi] at hfree
        exact firstAvailableSlotFrom_isSome (nextIndex_lt hi) (by omega) hfree

/-- Where every slot is occupied the loop finds none, for any number of rounds: the C++ loop
does not end. -/
theorem firstAvailableSlotFrom_eq_none (hfull : ∀ j < s.numBuckets, s.isFreeSlot j = false) :
    ∀ fuel i, i < s.numBuckets → s.firstAvailableSlotFrom fuel i = none
  | 0, _, _ => rfl
  | fuel + 1, i, hi => by
    unfold firstAvailableSlotFrom
    rw [if_neg (by simp [hfull i hi])]
    exact firstAvailableSlotFrom_eq_none hfull fuel _ (nextIndex_lt hi)

/-- With a free slot, `FirstAvailableSlot` returns. -/
theorem firstAvailableSlot_isSome {i j : Nat} (hi : i < s.numBuckets) (hj : j < s.numBuckets)
    (hfree : s.isFreeSlot j = true) : ∃ j', s.firstAvailableSlot i = some j' := by
  -- `j` is `(j + N - i) % N` steps on from `i`
  have hN : 0 < s.numBuckets := by omega
  have hwalk : (i + (j + s.numBuckets - i) % s.numBuckets) % s.numBuckets = j := by
    rw [Nat.add_mod_mod, show i + (j + s.numBuckets - i) = j + s.numBuckets by omega,
      Nat.add_mod_right, Nat.mod_eq_of_lt hj]
  exact firstAvailableSlotFrom_isSome hi (Nat.mod_lt _ hN) (hwalk ▸ hfree)

end Probing

/-- Filling an empty cell of a list of optional values adds its value to the values. -/
theorem filterMap_set_some_perm {x : α} :
    ∀ {l : List (Option α)} {i : Nat}, l[i]? = some none →
      ((l.set i (some x)).filterMap id).Perm (x :: l.filterMap id)
  | [], _, h => by simp at h
  | a :: l, 0, h => by
    simp only [List.getElem?_cons_zero, Option.some.injEq] at h
    subst h
    simp
  | a :: l, i + 1, h => by
    simp only [List.getElem?_cons_succ] at h
    have ih := filterMap_set_some_perm (x := x) h
    cases a with
    | none => simpa using ih
    | some y =>
      simp only [List.set_cons_succ, List.filterMap_cons, id]
      exact (ih.cons y).trans (List.Perm.swap x y _)

section Invariant

variable (hashFn : α → Nat)

/-- The linear-probing invariant that `Verify()` checks: going around the table from an
element's ideal index to its slot, no slot is empty. -/
def ProbeOk (s : HashSet α) : Prop :=
  ∀ j x, s.elementForIndex j = some x →
    ∃ k < s.numBuckets, (s.indexForHash (hashFn x) + k) % s.numBuckets = j ∧
      ∀ k' < k, s.isFreeSlot ((s.indexForHash (hashFn x) + k') % s.numBuckets) = false

/-- The elements, in the order of their slots. -/
def elements (s : HashSet α) : List α := s.data.filterMap id

/-- A well-formed set: the count is the number of elements, and every element can be found by
probing from its ideal index. -/
structure WellFormed (s : HashSet α) : Prop where
  count : s.numElements = s.elements.length
  probe : s.ProbeOk hashFn

variable {hashFn} {s : HashSet α} {i : Nat} {x : α}

/-- Filling the slot that probing from `x`'s ideal index reaches first keeps the invariant. -/
theorem ProbeOk.setSlot (hp : s.ProbeOk hashFn) (hi : i < s.numBuckets) {k : Nat}
    (hk : k < s.numBuckets) (hwalk : (s.indexForHash (hashFn x) + k) % s.numBuckets = i)
    (hbefore : ∀ k' < k, s.isFreeSlot ((s.indexForHash (hashFn x) + k') % s.numBuckets) = false) :
    (s.setSlot i (some x)).ProbeOk hashFn := by
  intro j y hj
  simp only [numBuckets_setSlot, indexForHash_setSlot]
  by_cases hij : i = j
  · -- the new element: its probe is the one `FirstAvailableSlot` made
    subst hij
    rw [elementForIndex_setSlot_self hi] at hj
    cases hj
    exact ⟨k, hk, hwalk, fun k' hk' => isFreeSlot_setSlot_some hi (hbefore k' hk')⟩
  · rw [elementForIndex_setSlot_ne hij] at hj
    obtain ⟨k, hk, hwalk, hbefore⟩ := hp j y hj
    exact ⟨k, hk, hwalk, fun k' hk' => isFreeSlot_setSlot_some hi (hbefore k' hk')⟩

/-- Filling a free slot adds the element to the elements. -/
theorem elements_setSlot_perm (hi : i < s.numBuckets) (hfree : s.isFreeSlot i = true) :
    (s.setSlot i (some x)).elements.Perm (x :: s.elements) := by
  have hnone : s.data[i]? = some none := by
    have hlt : i < s.data.length := hi
    simp only [isFreeSlot, elementForIndex, List.getD_eq_getElem?_getD,
      List.getElem?_eq_getElem hlt, Option.getD_some, Option.isNone_iff_eq_none] at hfree
    rw [List.getElem?_eq_getElem hlt, hfree]
  exact filterMap_set_some_perm hnone

theorem length_elements (s : HashSet α) :
    s.elements.length = s.data.countP fun slot => slot.isSome := by
  simp [elements, List.length_filterMap_eq_countP]

/-- Fewer elements than slots leaves a slot free. -/
theorem exists_isFreeSlot_of_length_lt (h : s.elements.length < s.numBuckets) :
    ∃ j < s.numBuckets, s.isFreeSlot j = true := by
  have hsplit := List.length_eq_countP_add_countP (fun slot : Option α => slot.isSome) (l := s.data)
  rw [length_elements] at h
  have hpos : 0 < s.data.countP fun slot => ¬slot.isSome := by
    simp only [numBuckets] at h
    omega
  obtain ⟨slot, hmem, hnone⟩ := List.countP_pos_iff.mp hpos
  obtain ⟨j, hj, hget⟩ := List.getElem_of_mem hmem
  refine ⟨j, hj, ?_⟩
  have hslot : slot = none := by
    cases slot with
    | none => rfl
    | some _ => simp at hnone
  simp [isFreeSlot, elementForIndex, List.getD_eq_getElem?_getD, List.getElem?_eq_getElem hj, hget,
    hslot]

/-- As many elements as slots leaves none free. -/
theorem isFreeSlot_eq_false_of_length_eq (h : s.elements.length = s.numBuckets) {j : Nat}
    (hj : j < s.numBuckets) : s.isFreeSlot j = false := by
  rw [length_elements] at h
  have hall := List.countP_eq_length.mp h
  have hsome := hall _ (List.getElem_mem hj)
  simp only [isFreeSlot, elementForIndex, List.getD_eq_getElem?_getD, List.getElem?_eq_getElem hj,
    Option.getD_some]
  simpa using hsome

/-- One element placed into a set with room: `FirstAvailableSlot` returns, and filling its slot
keeps the invariant and adds the element. -/
theorem ProbeOk.place (hp : s.ProbeOk hashFn) (hroom : s.elements.length < s.numBuckets) (x : α) :
    ∃ j, s.firstAvailableSlot (s.indexForHash (hashFn x)) = some j ∧ j < s.numBuckets ∧
      (s.setSlot j (some x)).ProbeOk hashFn ∧
      (s.setSlot j (some x)).elements.Perm (x :: s.elements) := by
  have hN : 0 < s.numBuckets := by omega
  have hideal := indexForHash_lt hN (hashFn x)
  obtain ⟨free, hfree, hisfree⟩ := exists_isFreeSlot_of_length_lt hroom
  obtain ⟨j, hj⟩ := firstAvailableSlot_isSome hideal hfree hisfree
  obtain ⟨k, hk, rfl, hjfree, hbefore⟩ := firstAvailableSlotFrom_eq_some hideal hj
  have hjN := Nat.mod_lt (s.indexForHash (hashFn x) + k) hN
  exact ⟨_, hj, hjN, hp.setSlot hjN hk rfl hbefore, elements_setSlot_perm hjN hjfree⟩

/-- The reinsertion loop of `Resize` places every element of the old slots while there is room,
and changes nothing but the slots. -/
theorem reinsert_spec :
    ∀ {l : List (Option α)} {s : HashSet α}, s.ProbeOk hashFn →
      s.elements.length + (l.filterMap id).length ≤ s.numBuckets →
      ∃ s', reinsert hashFn s l = some s' ∧ (∃ data, s' = { s with data }) ∧
        s'.numBuckets = s.numBuckets ∧ s'.ProbeOk hashFn ∧
        s'.elements.Perm (l.filterMap id ++ s.elements)
  | [], s, hp, _ => ⟨s, rfl, ⟨s.data, rfl⟩, rfl, hp, by simp⟩
  | none :: l, s, hp, hroom => by
    simpa [reinsert] using reinsert_spec (l := l) hp (by simpa using hroom)
  | some x :: l, s, hp, hroom => by
    have hcons : (some x :: l).filterMap id = x :: l.filterMap id := rfl
    rw [hcons, List.length_cons] at hroom
    obtain ⟨j, hj, hjN, hp', hperm⟩ := hp.place (by omega) x
    have hroom' : (s.setSlot j (some x)).elements.length + (l.filterMap id).length ≤
        (s.setSlot j (some x)).numBuckets := by
      rw [hperm.length_eq, numBuckets_setSlot, List.length_cons]
      omega
    obtain ⟨s', hrun, ⟨data, hdata⟩, hN', hp'', hperm'⟩ := reinsert_spec hp' hroom'
    refine ⟨s', ?_, ⟨data, hdata⟩, by rw [hN', numBuckets_setSlot], hp'', ?_⟩
    · simp only [reinsert, hj, Option.bind_eq_bind, Option.bind_some]
      exact hrun
    · rw [hcons, List.cons_append]
      refine hperm'.trans ?_
      exact ((List.Perm.append_left _ hperm).trans List.perm_middle)

/-- A table of empty slots holds nothing and keeps the invariant. -/
theorem fresh_spec (hashFn : α → Nat) (s : HashSet α) (n : Nat) :
    ({ s with data := List.replicate n none } : HashSet α).ProbeOk hashFn ∧
      ({ s with data := List.replicate n none } : HashSet α).elements = [] := by
  constructor
  · intro j y hj
    simp only [elementForIndex, List.getD_eq_getElem?_getD, List.getElem?_replicate] at hj
    split at hj <;> simp at hj
  · simp [elements]

/-- `Resize` to a size with room for every element keeps the elements and the invariant, and
changes nothing but the slots, `max newSize kMinBuckets` of them, and the threshold it computes
from them. -/
theorem resize_spec (hw : s.WellFormed hashFn) {newSize elementsUntilExpand : Nat}
    (hroom : s.numElements ≤ max newSize kMinBuckets)
    (hthreshold : toSize (BinaryFloat.mul .binary64 (toDouble (max newSize kMinBuckets))
      s.maxLoadFactor) = some elementsUntilExpand) :
    ∃ s', resize hashFn s newSize = some s' ∧
      (∃ data, s' = { s with elementsUntilExpand, data }) ∧
      s'.numBuckets = max newSize kMinBuckets ∧ s'.WellFormed hashFn ∧
      s'.elements.Perm s.elements := by
  have hsize : (if newSize < kMinBuckets then kMinBuckets else newSize) =
      max newSize kMinBuckets := by
    split <;> omega
  obtain ⟨hfp, hfe⟩ := fresh_spec hashFn s (max newSize kMinBuckets)
  -- the fresh table has room for every element of the old one
  have hroom' :
      ({ s with data := List.replicate (max newSize kMinBuckets) none } : HashSet α).elements.length
          + (s.data.filterMap id).length ≤
        ({ s with data := List.replicate (max newSize kMinBuckets) none } : HashSet α).numBuckets := by
    have hcount : (s.data.filterMap id).length = s.numElements := hw.count.symm
    rw [hfe, List.length_nil, Nat.zero_add, hcount]
    simpa [numBuckets] using hroom
  obtain ⟨s', hrun, ⟨data, rfl⟩, hN, hp, hperm⟩ := reinsert_spec hfp hroom'
  have hN' : data.length = max newSize kMinBuckets := hN.trans List.length_replicate
  rw [hfe, List.append_nil] at hperm
  refine ⟨{ s with elementsUntilExpand, data }, ?_, ⟨data, rfl⟩, hN', ⟨?_, hp⟩, hperm⟩
  · simp only [resize, hsize, hrun, Option.bind_eq_bind, Option.bind_some]
    rw [show ({ s with data } : HashSet α).numBuckets = max newSize kMinBuckets from hN',
      hthreshold]
    rfl
  · exact hw.count.trans hperm.length_eq.symm

/-- The insertion proper, once the set has room: `FirstAvailableSlot` returns, and the filled
slot and the count keep the set well formed with one more element. -/
theorem WellFormed.insertAt (hw : s.WellFormed hashFn) (hroom : s.numElements < s.numBuckets)
    (x : α) :
    ∃ index, s.firstAvailableSlot (s.indexForHash (hashFn x)) = some index ∧
      ({ s.setSlot index (some x) with numElements := s.numElements + 1 } : HashSet α).WellFormed
        hashFn ∧
      (s.setSlot index (some x)).elements.Perm (x :: s.elements) := by
  rw [hw.count] at hroom
  obtain ⟨index, hj, -, hp, hperm⟩ := hw.probe.place hroom x
  refine ⟨index, hj, ⟨?_, hp⟩, hperm⟩
  show s.numElements + 1 = (s.setSlot index (some x)).elements.length
  rw [hperm.length_eq, List.length_cons, hw.count]

/-- `insert` into a set below its threshold, with a free slot. -/
theorem insert_spec (hw : s.WellFormed hashFn) (hroom : s.numElements < s.numBuckets)
    (hbelow : s.numElements < s.elementsUntilExpand) (x : α) :
    ∃ s' index, insert hashFn s x = some (s', index) ∧
      (∃ data, s' = { s with numElements := s.numElements + 1, data }) ∧
      s'.numBuckets = s.numBuckets ∧ s'.WellFormed hashFn ∧ s'.elements.Perm (x :: s.elements) := by
  obtain ⟨index, hj, hw', hperm⟩ := hw.insertAt hroom x
  refine ⟨{ s.setSlot index (some x) with numElements := s.numElements + 1 }, index, ?_,
    ⟨_, rfl⟩, numBuckets_setSlot, hw', hperm⟩
  simp only [insert, insertWithHash, if_neg (Nat.not_le_of_lt hbelow), hj, Option.pure_def,
    Option.bind_eq_bind, Option.bind_some]

/-- `insert` into a set at its threshold: `Expand` to `size() / min_load_factor_` slots first,
when that conversion is defined and leaves a slot for the new element. -/
theorem insert_expand_spec (hw : s.WellFormed hashFn)
    (hreached : s.elementsUntilExpand ≤ s.numElements) {minIndex elementsUntilExpand : Nat}
    (hmin : toSize (BinaryFloat.div .binary64 (toDouble s.numElements) s.minLoadFactor) =
      some minIndex)
    (hroom : s.numElements < max minIndex kMinBuckets)
    (hthreshold : toSize (BinaryFloat.mul .binary64 (toDouble (max minIndex kMinBuckets))
      s.maxLoadFactor) = some elementsUntilExpand) (x : α) :
    ∃ s' index, insert hashFn s x = some (s', index) ∧
      (∃ data, s' = { s with numElements := s.numElements + 1, elementsUntilExpand, data }) ∧
      s'.numBuckets = max minIndex kMinBuckets ∧ s'.WellFormed hashFn ∧
      s'.elements.Perm (x :: s.elements) := by
  obtain ⟨t, hresize, ⟨data, rfl⟩, htN, htw, htperm⟩ :=
    resize_spec hw (Nat.le_of_lt hroom) hthreshold
  have hexpand : expand hashFn s = some { s with elementsUntilExpand, data } := by
    simp only [expand, hmin, Option.bind_eq_bind, Option.bind_some, hresize]
  obtain ⟨index, hj, hw', hperm⟩ := htw.insertAt (htN ▸ hroom) x
  refine ⟨_, index, ?_, ⟨_, rfl⟩, numBuckets_setSlot.trans htN, hw',
    hperm.trans (htperm.cons x)⟩
  simp only [insert, insertWithHash, if_pos hreached, hexpand, hj, Option.pure_def,
    Option.bind_eq_bind, Option.bind_some]
  rfl

theorem mem_elements_of_elementForIndex {j : Nat} {y : α} (h : s.elementForIndex j = some y) :
    y ∈ s.elements := by
  simp only [elementForIndex, List.getD_eq_getElem?_getD] at h
  cases hj : s.data[j]? with
  | none => simp [hj] at h
  | some slot =>
    rw [hj, Option.getD_some] at h
    subst h
    exact List.mem_filterMap.mpr ⟨some y, List.mem_of_getElem? hj, rfl⟩

end Invariant

section Runs

variable (hashFn : α → Nat) (pred : α → α → Bool)

theorem run_append (s : HashSet α) (ops₁ ops₂ : List (Op α)) :
    run hashFn pred s (ops₁ ++ ops₂) =
      (run hashFn pred s ops₁).bind fun s' => run hashFn pred s' ops₂ := by
  induction ops₁ generalizing s with
  | nil => rfl
  | cons op ops₁ ih =>
    simp only [List.cons_append, run, ih, Option.bind_assoc]

variable {hashFn} {s s' : HashSet α}

theorem run_insert_cons {x : α} {index : Nat} (h : insert hashFn s x = some (s', index))
    (ops : List (Op α)) : run hashFn pred s (.insert x :: ops) = run hashFn pred s' ops := by
  simp only [run, step, h, Option.map_some, Option.bind_some]

/-- With every slot occupied and no element equal to `key`, the loop of `FindIndex` never reaches
an empty slot nor the key, for any number of rounds. -/
theorem findIndexFrom_eq_none {key : α} (hfull : ∀ j < s.numBuckets, s.isFreeSlot j = false)
    (hne : ∀ y ∈ s.elements, pred y key = false) :
    ∀ (fuel : Nat) {index : Nat}, index < s.numBuckets → findIndexFrom pred s key fuel index = none
  | 0, _, _ => rfl
  | fuel + 1, index, hi => by
    have hfree := hfull index hi
    unfold findIndexFrom
    cases hslot : s.elementForIndex index with
    | none => simp [isFreeSlot, hslot] at hfree
    | some y =>
      simp only [hne y (mem_elements_of_elementForIndex hslot), Bool.false_eq_true, if_false]
      exact findIndexFrom_eq_none hfull hne fuel (nextIndex_lt hi)

/-- A run of inserts that keeps the count below the threshold, itself at most the number of
slots: no expansion, and every element is added. -/
theorem run_insert_spec : ∀ (l : List α) {s : HashSet α}, s.WellFormed hashFn →
    s.numElements + l.length ≤ s.elementsUntilExpand → s.elementsUntilExpand ≤ s.numBuckets →
    ∃ s', run hashFn pred s (l.map .insert) = some s' ∧
      (∃ data, s' = { s with numElements := s.numElements + l.length, data }) ∧
      s'.numBuckets = s.numBuckets ∧ s'.WellFormed hashFn ∧
      s'.elements.Perm (l.reverse ++ s.elements)
  | [], s, hw, _, _ => ⟨s, rfl, ⟨s.data, rfl⟩, rfl, hw, by simp⟩
  | x :: l, s, hw, hbelow, hcap => by
    rw [List.length_cons] at hbelow
    obtain ⟨s₁, index, hins, ⟨data₁, rfl⟩, hN₁, hw₁, hperm₁⟩ :=
      insert_spec hw (by omega) (by omega) x
    obtain ⟨s', hrun, ⟨data, rfl⟩, hN', hw', hperm'⟩ :=
      run_insert_spec l hw₁ (by simp only; omega) (by simp only [hN₁]; omega)
    refine ⟨_, ?_, ⟨data, ?_⟩, hN'.trans hN₁, hw', ?_⟩
    · rw [List.map_cons, run_insert_cons pred hins, hrun]
    · simp only [List.length_cons, Nat.add_assoc, Nat.add_comm 1]
    · rw [List.reverse_cons, List.append_assoc, List.singleton_append]
      exact hperm'.trans (hperm₁.append_left _)

/-- `SetLoadFactor(0.5, 0.9999999999999999)`, then `insert` of `1 .. 1000` and
`ShrinkToMaximumLoad()`, on a `HashSet<size_t>` with the identity hash.  The last
`Resize(1000 / max_load_factor_)` truncates `1000 + 2^-43` to `1000` slots, and all of them are
filled: `find(1001)` then probes for ever. -/
theorem shrinkToMaximumLoad_fills_every_slot :
    ∃ s, run id (· == ·) empty (.setLoadFactor half (.finite (2 ^ 53 - 1) (-53)) ::
        ((List.range' 1 1000).map .insert ++ [.shrinkToMaximumLoad])) = some s ∧
      s.numBuckets = 1000 ∧ (∀ j < s.numBuckets, s.isFreeSlot j = false) ∧
      ∀ fuel, findIndexFrom (· == ·) s 1001 fuel (s.indexForHash 1001) = none := by
  -- the factors are set on the table without slots, whose load `0.0 / 0.0` is NaN: no resize
  have hset : setLoadFactor id (empty : HashSet Nat) half (.finite (2 ^ 53 - 1) (-53)) =
      some ⟨0, 0, half, .finite (2 ^ 53 - 1) (-53), []⟩ := rfl
  have hw₀ : (⟨0, 0, half, .finite (2 ^ 53 - 1) (-53), []⟩ : HashSet Nat).WellFormed id :=
    ⟨rfl, fun j y h => by simp [elementForIndex] at h⟩
  -- insert 1: the first `Expand` makes `kMinBuckets` slots, with threshold `999`
  have hmin₁ : toSize (BinaryFloat.div .binary64 (toDouble 0) half) = some 0 := by decide
  have hmax₁ : toSize (BinaryFloat.mul .binary64 (toDouble (max 0 kMinBuckets))
      (.finite (2 ^ 53 - 1) (-53))) = some 999 := by decide
  obtain ⟨s₁, i₁, hins₁, ⟨d₁, rfl⟩, hN₁, hw₁, hperm₁⟩ :=
    insert_expand_spec hw₀ (Nat.le_refl 0) hmin₁ (by decide) hmax₁ 1
  -- insert 2 .. 999, below the threshold
  obtain ⟨s₂, hrun₂, ⟨d₂, rfl⟩, hN₂, hw₂, hperm₂⟩ :=
    run_insert_spec (· == ·) (List.range' 2 998) hw₁ (by simp) (by rw [hN₁]; simp [kMinBuckets])
  -- insert 1000 reaches the threshold: `Expand` to `999 / 0.5 = 1998` slots
  have hmin₃ : toSize (BinaryFloat.div .binary64 (toDouble 999) half) = some 1998 := by decide
  have hmax₃ : toSize (BinaryFloat.mul .binary64 (toDouble (max 1998 kMinBuckets))
      (.finite (2 ^ 53 - 1) (-53))) = some 1997 := by decide
  obtain ⟨s₃, i₃, hins₃, ⟨d₃, rfl⟩, hN₃, hw₃, hperm₃⟩ :=
    insert_expand_spec hw₂ (by simp) (by simpa using hmin₃) (by simp [kMinBuckets]) hmax₃ 1000
  -- `ShrinkToMaximumLoad`: `1000 / max_load_factor_` is `1000 + 2^-43`, truncated to `1000`
  have hshrink : toSize (BinaryFloat.div .binary64 (toDouble 1000)
      (.finite (2 ^ 53 - 1) (-53))) = some 1000 := by decide
  have hmax₄ : toSize (BinaryFloat.mul .binary64 (toDouble (max 1000 kMinBuckets))
      (.finite (2 ^ 53 - 1) (-53))) = some 999 := by decide
  obtain ⟨s₄, hres, ⟨d₄, hs₄⟩, hN₄, hw₄, hperm₄⟩ :=
    resize_spec hw₃ (by simp [kMinBuckets]) hmax₄
  have hsplit : List.range' 1 1000 = 1 :: (List.range' 2 998 ++ [1000]) := by
    nth_rewrite 1 [show (1000 : Nat) = 1 + (998 + 1) from rfl]
    rw [← List.range'_append_1, ← List.range'_append_1]
    rfl
  have hrun : run id (· == ·) empty (.setLoadFactor half (.finite (2 ^ 53 - 1) (-53)) ::
      ((List.range' 1 1000).map .insert ++ [.shrinkToMaximumLoad])) = some s₄ := by
    rw [run, step, hset, Option.bind_some, hsplit, List.map_cons, List.cons_append,
      run_insert_cons _ hins₁, List.map_append, List.append_assoc, run_append, hrun₂,
      Option.bind_some, List.map_cons, List.map_nil, List.cons_append, List.nil_append,
      run_insert_cons _ hins₃, run, step]
    simp only [shrinkToMaximumLoad, List.length_range', hshrink, Option.bind_eq_bind,
      Option.bind_some]
    simp only [List.length_range'] at hres
    rw [hres]
    rfl
  have hlen : s₄.elements.length = s₄.numBuckets := by
    rw [← hw₄.count, hN₄, hs₄]
    simp [kMinBuckets]
  have hne : ∀ y ∈ s₄.elements, (y == 1001) = false := by
    intro y hy
    rw [hperm₄.mem_iff, hperm₃.mem_iff, List.mem_cons, hperm₂.mem_iff, List.mem_append,
      List.mem_reverse, List.mem_range'_1, hperm₁.mem_iff] at hy
    simp [elements] at hy
    simp
    omega
  exact ⟨s₄, hrun, hN₄.trans (by decide), fun j hj => isFreeSlot_eq_false_of_length_eq hlen hj,
    fun fuel => findIndexFrom_eq_none _ (fun j hj => isFreeSlot_eq_false_of_length_eq hlen hj) hne
      fuel (indexForHash_lt (by rw [hN₄]; decide) 1001)⟩

end Runs

end HashSet

end AndroidArt.Base
