/-
Module: AndroidArt.Gc.SpaceBitmap
Purpose: art::gc::accounting::SpaceBitmap (runtime/gc/accounting/space_bitmap.h and
  space_bitmap-inl.h): one bit for each `kAlignment` bytes of a heap, packed into 64-bit words,
  `Test`, and the optimized `VisitMarkedRange`, which masks the first and the last word of the
  range and drains each word with `CTZ`.
Trusted boundary: the word loads are relaxed loads with no concurrent writer (the visitor does
  not change the bitmap); a load past the last word of the bitmap is `none`.
Main exports: SpaceBitmap, SpaceBitmap.create, SpaceBitmap.test, SpaceBitmap.visitMarkedRange
-/
import AndroidArt.Lib.BitScan
import Mathlib.Tactic.Ring

namespace AndroidArt.Gc

open AndroidArt.Lib

/-- `kBitsPerIntPtrT` of a 64-bit target. -/
def kBitsPerIntPtrT : Nat := 64

/-- `RoundUp(x, n)`, for the power of two `n`. -/
def roundUp (x n : Nat) : Nat := (x + n - 1) / n * n

/-- A `SpaceBitmap<kAlignment>`: the words `bitmap_begin_[0, bitmap_size_ / sizeof(intptr_t))`
and the heap `[heap_begin_, heap_limit_)` they cover, one bit for each `kAlignment` bytes. -/
structure SpaceBitmap (kAlignment : Nat) where
  bitmap : Array (BitVec 64)
  heapBegin : Nat
  heapLimit : Nat
  begin_le_limit : heapBegin ≤ heapLimit
  /-- The words reach at least to the limit of the heap. -/
  limit_le : heapLimit - heapBegin ≤ bitmap.size * (kAlignment * kBitsPerIntPtrT)

namespace SpaceBitmap

variable {kAlignment : Nat}

/-- `OffsetToIndex`: the word of the bit of a heap offset. -/
def offsetToIndex (kAlignment offset : Nat) : Nat := offset / kAlignment / kBitsPerIntPtrT

/-- `IndexToOffset`: the heap offset of the first bit of a word. -/
def indexToOffset (kAlignment index : Nat) : Nat := index * kAlignment * kBitsPerIntPtrT

/-- `OffsetBitIndex`: the bit of a heap offset within its word. -/
def offsetBitIndex (kAlignment offset : Nat) : Nat := offset / kAlignment % kBitsPerIntPtrT

/-- `OffsetToMask`. -/
def offsetToMask (kAlignment offset : Nat) : BitVec 64 := 1#64 <<< offsetBitIndex kAlignment offset

/-- `ComputeBitmapSize`: the bytes of the words that cover `capacity` bytes of heap. -/
def computeBitmapSize (kAlignment capacity : Nat) : Nat :=
  let kBytesCoveredPerWord := kAlignment * kBitsPerIntPtrT
  roundUp capacity kBytesCoveredPerWord / kBytesCoveredPerWord * 8

theorem le_computeBitmapSize (hA : 0 < kAlignment) (capacity : Nat) :
    capacity ≤ computeBitmapSize kAlignment capacity / 8 * (kAlignment * kBitsPerIntPtrT) := by
  have hword : 0 < kAlignment * kBitsPerIntPtrT := Nat.mul_pos hA (by decide)
  simp only [computeBitmapSize, roundUp, Nat.mul_div_cancel _ (by decide : 0 < 8),
    Nat.mul_div_cancel _ hword]
  -- the words are `⌈capacity / (64 * kAlignment)⌉`
  have hdiv := Nat.div_add_mod (capacity + kAlignment * kBitsPerIntPtrT - 1)
    (kAlignment * kBitsPerIntPtrT)
  have hmod := Nat.mod_lt (capacity + kAlignment * kBitsPerIntPtrT - 1) hword
  rw [Nat.mul_comm]
  omega

/-- `SpaceBitmap::Create(name, heap_begin, heap_capacity)`: the words of `ComputeBitmapSize`,
all clear, as the anonymous mapping gives them. -/
def create (kAlignment heapBegin heapCapacity : Nat) (hA : 0 < kAlignment) :
    SpaceBitmap kAlignment where
  bitmap := Array.replicate (computeBitmapSize kAlignment heapCapacity / 8) 0#64
  heapBegin := heapBegin
  heapLimit := heapBegin + heapCapacity
  begin_le_limit := Nat.le_add_right _ _
  limit_le := by
    rw [Array.size_replicate, Nat.add_sub_cancel_left]
    exact le_computeBitmapSize hA heapCapacity

/-- `Test(obj)`: the bit of the object at address `obj`. -/
def test (b : SpaceBitmap kAlignment) (obj : Nat) : Option Bool := do
  let offset := obj - b.heapBegin
  let index := offsetToIndex kAlignment offset
  return ((← b.bitmap[index]?) &&& offsetToMask kAlignment offset) != 0#64

/-- The objects of the marked bits of `word`, the word whose first bit is the object at
`ptrBase`, lowest first: each `do { shift = CTZ(w); visitor(ptr_base + shift * kAlignment); ... }`
loop of `VisitMarkedRange`. -/
def visitWord (kAlignment ptrBase : Nat) (word : BitVec 64) : List Nat :=
  (drainBits word).map fun shift => ptrBase + shift * kAlignment

/-- `VisitMarkedRange(visit_begin, visit_end, visitor)`: the objects passed to `visitor`, in
order; `none` where it loads a word past the end of the bitmap. -/
def visitMarkedRange (b : SpaceBitmap kAlignment) (visitBegin visitEnd : Nat) :
    Option (List Nat) := do
  let offsetStart := visitBegin - b.heapBegin
  let offsetEnd := visitEnd - b.heapBegin
  let indexStart := offsetToIndex kAlignment offsetStart
  let indexEnd := offsetToIndex kAlignment offsetEnd
  let bitStart := offsetStart / kAlignment % kBitsPerIntPtrT
  let bitEnd := offsetEnd / kAlignment % kBitsPerIntPtrT
  -- the left edge, without the bits below `visit_begin`
  let leftEdge := (← b.bitmap[indexStart]?) &&& ~~~((1#64 <<< bitStart) - 1#64)
  if indexStart < indexEnd then
    let left := visitWord kAlignment (indexToOffset kAlignment indexStart + b.heapBegin) leftEdge
    let middle ← (List.range' (indexStart + 1) (indexEnd - (indexStart + 1))).mapM fun i =>
      return visitWord kAlignment (indexToOffset kAlignment i + b.heapBegin) (← b.bitmap[i]?)
    -- a `visit_end` that starts a new word: the right edge is not loaded
    let rightEdge ← if bitEnd = 0 then pure 0#64 else b.bitmap[indexEnd]?
    return left ++ middle.flatten ++ visitWord kAlignment
      (indexToOffset kAlignment indexEnd + b.heapBegin) (rightEdge &&& ((1#64 <<< bitEnd) - 1#64))
  else
    -- the right edge is the left edge
    return visitWord kAlignment (indexToOffset kAlignment indexEnd + b.heapBegin)
      (leftEdge &&& ((1#64 <<< bitEnd) - 1#64))

/-- The reference loop of the `#if 0` branch,
`for (uintptr_t i = visit_begin; i < visit_end; i += kAlignment) if (Test(i)) visitor(i)`, from
`i` for its `n` remaining passes. -/
def referenceLoop (b : SpaceBitmap kAlignment) (i : Nat) : Nat → Option (List Nat)
  | 0 => some []
  | n + 1 => do
    let marked ← b.test i
    let rest ← b.referenceLoop (i + kAlignment) n
    return if marked then i :: rest else rest

/-- The reference loop over `[visit_begin, visit_end)`, which passes
`⌈(visit_end - visit_begin) / kAlignment⌉` times. -/
def referenceVisitMarkedRange (b : SpaceBitmap kAlignment) (visitBegin visitEnd : Nat) :
    Option (List Nat) :=
  b.referenceLoop visitBegin ((visitEnd - visitBegin + kAlignment - 1) / kAlignment)

/-! ### The marked slots of a range -/

/-- Word `i` of the bitmap (`0` past its end). -/
def word (b : SpaceBitmap kAlignment) (i : Nat) : BitVec 64 := b.bitmap.getD i 0#64

/-- Whether slot `k`, the object at `heap_begin_ + k * kAlignment`, is marked. -/
def marked (b : SpaceBitmap kAlignment) (k : Nat) : Bool :=
  (b.word (k / 64)).getLsbD (k % 64)

/-- The marked slots of `[s, e)`, in increasing order. -/
def markedSlots (b : SpaceBitmap kAlignment) (s e : Nat) : List Nat :=
  (List.range' s (e - s)).filter b.marked

/-- The slots of the set bits of `word`, word `i` of the bitmap, lowest first. -/
def wordSlots (i : Nat) (word : BitVec 64) : List Nat :=
  (drainBits word).map (64 * i + ·)

section Slots

variable {b : SpaceBitmap kAlignment}

theorem getElem?_bitmap {i : Nat} (hi : i < b.bitmap.size) : b.bitmap[i]? = some (b.word i) := by
  rw [word, Array.getD_eq_getD_getElem?, Array.getElem?_eq_getElem hi, Option.getD_some]

theorem test_slot (hA : 0 < kAlignment) {k : Nat} (hk : k / 64 < b.bitmap.size) :
    b.test (b.heapBegin + k * kAlignment) = some (b.marked k) := by
  have hoffset : b.heapBegin + k * kAlignment - b.heapBegin = k * kAlignment := by omega
  simp only [test, offsetToIndex, offsetToMask, offsetBitIndex, kBitsPerIntPtrT, hoffset,
    Nat.mul_div_cancel k hA, getElem?_bitmap hk, Option.pure_def, Option.bind_eq_bind,
    Option.bind_some, marked]
  rw [and_one_shiftLeft_ne_zero (Nat.mod_lt k (by decide))]

theorem mem_wordSlots {i k : Nat} {word : BitVec 64} :
    k ∈ wordSlots i word ↔ k / 64 = i ∧ word.getLsbD (k % 64) = true := by
  simp only [wordSlots, List.mem_map, mem_drainBits]
  constructor
  · rintro ⟨j, hj, rfl⟩
    have hj64 : j < 64 := BitVec.lt_of_getLsbD hj
    refine ⟨by omega, ?_⟩
    rwa [show (64 * i + j) % 64 = j by omega]
  · rintro ⟨rfl, hk⟩
    exact ⟨k % 64, hk, by omega⟩

theorem pairwise_wordSlots (i : Nat) (word : BitVec 64) : (wordSlots i word).Pairwise (· < ·) := by
  rw [wordSlots, List.pairwise_map]
  exact (pairwise_drainBits word).imp fun hlt => by omega

theorem mem_markedSlots {s e k : Nat} : k ∈ b.markedSlots s e ↔ s ≤ k ∧ k < e ∧ b.marked k = true := by
  rw [markedSlots, List.mem_filter, List.mem_range'_1]
  constructor
  · rintro ⟨⟨hs, he⟩, hk⟩
    exact ⟨hs, by omega, hk⟩
  · rintro ⟨hs, he, hk⟩
    exact ⟨⟨hs, by omega⟩, hk⟩

theorem pairwise_markedSlots (s e : Nat) : (b.markedSlots s e).Pairwise (· < ·) :=
  (List.pairwise_lt_range' (s := s) (n := e - s)).filter _

/-- The slots of a word whose bits are those of word `i` of the bitmap that `P` keeps. -/
theorem mem_wordSlots_of_getLsbD {i : Nat} {x : BitVec 64} {P : Nat → Bool}
    (hx : ∀ j, x.getLsbD j = ((b.word i).getLsbD j && P j)) {k : Nat} :
    k ∈ wordSlots i x ↔
      k / 64 = i ∧ P (k % 64) = true ∧ b.marked k = true := by
  rw [mem_wordSlots, hx, Bool.and_eq_true]
  constructor
  · rintro ⟨rfl, hword, hP⟩
    exact ⟨rfl, hP, hword⟩
  · rintro ⟨rfl, hP, hword⟩
    exact ⟨rfl, hword, hP⟩

/-- The slots of the full words `a, a + 1, ..., a + n - 1`. -/
theorem mem_flatten_wordSlots {a n k : Nat} :
    k ∈ ((List.range' a n).map fun i => wordSlots i (b.word i)).flatten ↔
      a ≤ k / 64 ∧ k / 64 < a + n ∧ b.marked k = true := by
  simp only [List.mem_flatten, List.mem_map, List.mem_range'_1]
  constructor
  · rintro ⟨_, ⟨i, hi, rfl⟩, hk⟩
    obtain ⟨rfl, hword⟩ := mem_wordSlots.mp hk
    exact ⟨hi.1, hi.2, hword⟩
  · rintro ⟨ha, hn, hword⟩
    exact ⟨_, ⟨k / 64, ⟨ha, hn⟩, rfl⟩, mem_wordSlots.mpr ⟨rfl, hword⟩⟩

theorem pairwise_flatten_wordSlots (a n : Nat) :
    (((List.range' a n).map fun i => wordSlots i (b.word i)).flatten).Pairwise (· < ·) := by
  rw [List.pairwise_flatten, List.pairwise_map]
  refine ⟨?_, (List.pairwise_lt_range' (s := a) (n := n)).imp fun hij x hx y hy => ?_⟩
  · simp only [List.mem_map]
    rintro _ ⟨i, -, rfl⟩
    exact pairwise_wordSlots i _
  · -- the slots of a word come before those of every later word
    rw [mem_wordSlots] at hx hy
    omega

end Slots

/-! ### The words of a range -/

section Range

variable {b : SpaceBitmap kAlignment} {s e : Nat}

/-- Over different words, the masked left edge, the full middle words and the masked right edge
hold the marked slots of `[s, e)`, in order. -/
theorem markedSlots_of_lt (hse : s / 64 < e / 64) (right : BitVec 64)
    (hright : e % 64 ≠ 0 → right = b.word (e / 64)) :
    wordSlots (s / 64)
        (b.word (s / 64) &&& ~~~((1#64 <<< (s % 64)) - 1#64)) ++
      ((List.range' (s / 64 + 1) (e / 64 - (s / 64 + 1))).map
        fun i => wordSlots i (b.word i)).flatten ++
      wordSlots (e / 64) (right &&& ((1#64 <<< (e % 64)) - 1#64)) =
      b.markedSlots s e := by
  have hs : s % 64 < 64 := Nat.mod_lt s (by decide)
  have he : e % 64 < 64 := Nat.mod_lt e (by decide)
  have hleft (k : Nat) := mem_wordSlots_of_getLsbD (b := b) (k := k) (i := s / 64)
    (P := fun j => decide (s % 64 ≤ j)) (getLsbD_and_not_lowMask hs _)
  have hrightEdge (k : Nat) := mem_wordSlots_of_getLsbD (b := b) (k := k)
    (i := e / 64) (x := right &&& ((1#64 <<< (e % 64)) - 1#64))
    (P := fun j => decide (j < e % 64)) (fun j => by
      rw [getLsbD_and_lowMask he]
      by_cases he0 : e % 64 = 0
      · -- an empty right edge keeps no bit
        simp [he0]
      · rw [hright he0])
  apply List.Pairwise.eq_of_mem_iff (r := (· < ·))
  · rw [List.pairwise_append, List.pairwise_append]
    refine ⟨⟨pairwise_wordSlots _ _, pairwise_flatten_wordSlots _ _, fun x hx y hy => ?_⟩,
      pairwise_wordSlots _ _, fun x hx y hy => ?_⟩
    · rw [hleft] at hx
      rw [mem_flatten_wordSlots] at hy
      omega
    · rw [hrightEdge] at hy
      rw [List.mem_append, hleft, mem_flatten_wordSlots] at hx
      omega
  · exact pairwise_markedSlots s e
  · intro k
    rw [List.mem_append, List.mem_append, hleft, mem_flatten_wordSlots, hrightEdge, mem_markedSlots]
    simp only [decide_eq_true_eq] at hse ⊢
    constructor
    · rintro ((⟨hk, hbit, hmark⟩ | ⟨hk, hk', hmark⟩) | ⟨hk, hbit, hmark⟩) <;>
        exact ⟨by omega, by omega, hmark⟩
    · rintro ⟨hsk, hke, hmark⟩
      -- the word of `k` is the left edge, a middle word or the right edge
      rcases Nat.lt_trichotomy (k / 64) (s / 64) with hlt | heq | hgt
      · omega
      · exact Or.inl (Or.inl ⟨heq, by omega, hmark⟩)
      · rcases Nat.lt_or_ge (k / 64) (e / 64) with hmid | hlast
        · exact Or.inl (Or.inr ⟨by omega, by omega, hmark⟩)
        · exact Or.inr ⟨by omega, by omega, hmark⟩

/-- Within one word, the edge masked on both sides holds the marked slots of `[s, e)`. -/
theorem markedSlots_of_eq (hse : s ≤ e) (hword : e / 64 ≤ s / 64) :
    wordSlots (e / 64)
        (b.word (s / 64) &&& ~~~((1#64 <<< (s % 64)) - 1#64) &&&
          ((1#64 <<< (e % 64)) - 1#64)) =
      b.markedSlots s e := by
  have hs : s % 64 < 64 := Nat.mod_lt s (by decide)
  have he : e % 64 < 64 := Nat.mod_lt e (by decide)
  have hsame : s / 64 = e / 64 :=
    Nat.le_antisymm (Nat.div_le_div_right hse) hword
  have hedge (k : Nat) := mem_wordSlots_of_getLsbD (b := b) (k := k) (i := e / 64)
    (x := b.word (s / 64) &&& ~~~((1#64 <<< (s % 64)) - 1#64) &&&
      ((1#64 <<< (e % 64)) - 1#64))
    (P := fun j => decide (s % 64 ≤ j) && decide (j < e % 64))
    (fun j => by rw [getLsbD_and_lowMask he, getLsbD_and_not_lowMask hs, hsame, Bool.and_assoc])
  apply List.Pairwise.eq_of_mem_iff (pairwise_wordSlots _ _) (pairwise_markedSlots s e)
  intro k
  rw [hedge, mem_markedSlots]
  simp only [Bool.and_eq_true, decide_eq_true_eq] at hse hword hsame ⊢
  constructor
  · rintro ⟨hk, ⟨hlo, hhi⟩, hmark⟩
    exact ⟨by omega, by omega, hmark⟩
  · rintro ⟨hsk, hke, hmark⟩
    exact ⟨by omega, ⟨by omega, by omega⟩, hmark⟩

end Range

/-! ### `VisitMarkedRange` -/

theorem mapM_eq_some_map {α β : Type} {f : α → Option β} {g : α → β} {l : List α}
    (h : ∀ a ∈ l, f a = some (g a)) : l.mapM f = some (l.map g) := by
  induction l with
  | nil => rfl
  | cons a l ih =>
    rw [List.mapM_cons, h a List.mem_cons_self, ih fun a ha => h a (List.mem_cons_of_mem _ ha)]
    rfl

/-- The objects of a word are those of its slots. -/
theorem visitWord_indexToOffset (i heapBegin : Nat) (x : BitVec 64) :
    visitWord kAlignment (indexToOffset kAlignment i + heapBegin) x =
      (wordSlots i x).map fun k => heapBegin + k * kAlignment := by
  rw [visitWord, wordSlots, List.map_map]
  apply List.map_congr_left
  intro j _
  simp only [Function.comp, indexToOffset, kBitsPerIntPtrT]
  ring

/-- The objects of the left edge, the middle words and the right edge are those of their slots. -/
theorem visitEdges_eq {b : SpaceBitmap kAlignment} (i j n : Nat) (left right : BitVec 64) :
    visitWord kAlignment (indexToOffset kAlignment i + b.heapBegin) left ++
        ((List.range' (i + 1) n).map fun m =>
          visitWord kAlignment (indexToOffset kAlignment m + b.heapBegin) (b.word m)).flatten ++
        visitWord kAlignment (indexToOffset kAlignment j + b.heapBegin) right =
      (wordSlots i left ++ ((List.range' (i + 1) n).map fun m => wordSlots m (b.word m)).flatten ++
        wordSlots j right).map fun k => b.heapBegin + k * kAlignment := by
  simp only [visitWord_indexToOffset, List.map_append, List.map_flatten, List.map_map,
    Function.comp_def]

section Visit

variable {b : SpaceBitmap kAlignment} {visitBegin visitEnd : Nat}

/-- From a range that starts below `HeapLimit()`, `VisitMarkedRange` loads only words of the
bitmap and visits the objects of the marked slots of the range, in order. -/
theorem visitMarkedRange_eq_slots (hA : 0 < kAlignment) (hbegin : b.heapBegin ≤ visitBegin)
    (hle : visitBegin ≤ visitEnd) (hend : visitEnd ≤ b.heapLimit) (hstart : visitBegin < b.heapLimit) :
    b.visitMarkedRange visitBegin visitEnd =
      some ((b.markedSlots ((visitBegin - b.heapBegin) / kAlignment)
        ((visitEnd - b.heapBegin) / kAlignment)).map fun k => b.heapBegin + k * kAlignment) := by
  have hcover := b.limit_le
  simp only [kBitsPerIntPtrT] at hcover
  -- the slots of the range lie in the words of the bitmap
  have hsWord : offsetToIndex kAlignment (visitBegin - b.heapBegin) < b.bitmap.size := by
    have : (visitBegin - b.heapBegin) / kAlignment < b.bitmap.size * 64 := by
      rw [Nat.div_lt_iff_lt_mul hA, Nat.mul_assoc, Nat.mul_comm 64]
      omega
    simp only [offsetToIndex, kBitsPerIntPtrT]
    omega
  have heWord : (visitEnd - b.heapBegin) / kAlignment ≤ b.bitmap.size * 64 := by
    apply Nat.div_le_of_le_mul
    rw [Nat.mul_left_comm]
    omega
  have hse : (visitBegin - b.heapBegin) / kAlignment ≤ (visitEnd - b.heapBegin) / kAlignment :=
    Nat.div_le_div_right (by omega)
  simp only [visitMarkedRange, getElem?_bitmap hsWord, Option.bind_eq_bind, Option.bind_some]
  by_cases hword : offsetToIndex kAlignment (visitBegin - b.heapBegin) <
      offsetToIndex kAlignment (visitEnd - b.heapBegin)
  · -- different words: the left edge, the middle words and the right edge
    rw [if_pos hword, mapM_eq_some_map (g := fun i =>
      visitWord kAlignment (indexToOffset kAlignment i + b.heapBegin) (b.word i))
      (fun i hi => by
        rw [List.mem_range'_1] at hi
        simp only [offsetToIndex, kBitsPerIntPtrT] at hi
        rw [getElem?_bitmap (by omega)]
        rfl),
      Option.bind_some]
    have hlt : (visitBegin - b.heapBegin) / kAlignment / 64 < (visitEnd - b.heapBegin) / kAlignment / 64 :=
      hword
    -- the right edge, loaded unless `visit_end` starts a word
    by_cases he0 : (visitEnd - b.heapBegin) / kAlignment % kBitsPerIntPtrT = 0
    · rw [if_pos he0]
      simp only [offsetToIndex, kBitsPerIntPtrT, Option.pure_def, Option.bind_some] at he0 ⊢
      rw [← markedSlots_of_lt hlt 0#64 (fun h => absurd he0 h), visitEdges_eq]
    · have heLast : offsetToIndex kAlignment (visitEnd - b.heapBegin) < b.bitmap.size := by
        simp only [offsetToIndex, kBitsPerIntPtrT] at he0 ⊢
        omega
      rw [if_neg he0, getElem?_bitmap heLast, Option.bind_some]
      simp only [offsetToIndex, kBitsPerIntPtrT, Option.pure_def]
      rw [← markedSlots_of_lt hlt _ (fun _ => rfl), visitEdges_eq]
  · -- one word: the left edge is the right edge
    rw [if_neg hword]
    simp only [offsetToIndex, kBitsPerIntPtrT] at hword ⊢
    rw [← markedSlots_of_eq hse (by omega), visitWord_indexToOffset]
    rfl

/-- The marked slots of `[k, k + n + 1)`: slot `k`, if it is marked, before those of
`[k + 1, k + n + 1)`. -/
theorem markedSlots_succ (k n : Nat) :
    b.markedSlots k (k + (n + 1)) =
      if b.marked k then k :: b.markedSlots (k + 1) (k + 1 + n) else b.markedSlots (k + 1) (k + 1 + n) := by
  rw [markedSlots, markedSlots, show k + (n + 1) - k = n + 1 by omega, show k + 1 + n - (k + 1) = n by omega,
    List.range'_succ, List.filter_cons]

/-- The reference loop from the object of slot `k` visits the marked objects of the slots it
passes. -/
theorem referenceLoop_eq_slots (hA : 0 < kAlignment) {k n : Nat} (hkn : k + n ≤ b.bitmap.size * 64) :
    b.referenceLoop (b.heapBegin + k * kAlignment) n =
      some ((b.markedSlots k (k + n)).map fun j => b.heapBegin + j * kAlignment) := by
  induction n generalizing k with
  | zero => simp [referenceLoop, markedSlots]
  | succ n ih =>
    have hnext : b.heapBegin + k * kAlignment + kAlignment = b.heapBegin + (k + 1) * kAlignment := by
      ring
    rw [referenceLoop, test_slot hA (by omega), Option.bind_eq_bind, Option.bind_some, hnext,
      ih (by omega), Option.bind_eq_bind, Option.bind_some, markedSlots_succ]
    cases b.marked k <;> rfl

/-- On aligned bounds the reference loop visits the marked objects of the range. -/
theorem referenceVisitMarkedRange_eq_slots (hA : 0 < kAlignment) (hbegin : b.heapBegin ≤ visitBegin)
    (hle : visitBegin ≤ visitEnd) (hend : visitEnd ≤ b.heapLimit)
    (halignBegin : (visitBegin - b.heapBegin) % kAlignment = 0)
    (halignEnd : (visitEnd - b.heapBegin) % kAlignment = 0) :
    b.referenceVisitMarkedRange visitBegin visitEnd =
      some ((b.markedSlots ((visitBegin - b.heapBegin) / kAlignment)
        ((visitEnd - b.heapBegin) / kAlignment)).map fun k => b.heapBegin + k * kAlignment) := by
  have hcover := b.limit_le
  simp only [kBitsPerIntPtrT] at hcover
  -- both bounds are objects: slot `s` and slot `e`
  obtain ⟨s, hs⟩ : ∃ s, visitBegin - b.heapBegin = s * kAlignment :=
    ⟨_, (Nat.div_mul_cancel (Nat.dvd_of_mod_eq_zero halignBegin)).symm⟩
  obtain ⟨e, he⟩ : ∃ e, visitEnd - b.heapBegin = e * kAlignment :=
    ⟨_, (Nat.div_mul_cancel (Nat.dvd_of_mod_eq_zero halignEnd)).symm⟩
  have hse : s ≤ e := Nat.le_of_mul_le_mul_right (by omega) hA
  have heWord : e ≤ b.bitmap.size * 64 := by
    apply Nat.le_of_mul_le_mul_right _ hA
    calc e * kAlignment = visitEnd - b.heapBegin := he.symm
      _ ≤ b.heapLimit - b.heapBegin := by omega
      _ ≤ b.bitmap.size * (kAlignment * 64) := hcover
      _ = b.bitmap.size * 64 * kAlignment := by ring
  -- the loop passes once for each slot of `[s, e)`
  have hpasses : (visitEnd - visitBegin + kAlignment - 1) / kAlignment = e - s := by
    have hdiff : visitEnd - visitBegin + kAlignment - 1 = kAlignment * (e - s) + (kAlignment - 1) := by
      rw [Nat.mul_sub, Nat.mul_comm kAlignment e, Nat.mul_comm kAlignment s]
      have : s * kAlignment ≤ e * kAlignment := Nat.mul_le_mul_right kAlignment hse
      omega
    rw [hdiff, Nat.mul_add_div hA, Nat.div_eq_of_lt (by omega), Nat.add_zero]
  rw [referenceVisitMarkedRange, hpasses, hs, he, Nat.mul_div_cancel _ hA, Nat.mul_div_cancel _ hA,
    show visitBegin = b.heapBegin + s * kAlignment by omega, referenceLoop_eq_slots hA (by omega),
    Nat.add_sub_cancel' hse]

/-- From a range that starts below `HeapLimit()`, `VisitMarkedRange` loads only words of the
bitmap and visits each marked object of the range once, in increasing address order; on aligned
bounds this is the call sequence of the reference loop. -/
theorem visitMarkedRange_visits_marked (hA : 0 < kAlignment) (hbegin : b.heapBegin ≤ visitBegin)
    (hle : visitBegin ≤ visitEnd) (hend : visitEnd ≤ b.heapLimit) (hstart : visitBegin < b.heapLimit) :
    ∃ visited, b.visitMarkedRange visitBegin visitEnd = some visited ∧
      (∀ obj, obj ∈ visited ↔ ∃ k, (visitBegin - b.heapBegin) / kAlignment ≤ k ∧
        k < (visitEnd - b.heapBegin) / kAlignment ∧ obj = b.heapBegin + k * kAlignment ∧
        b.test obj = some true) ∧
      visited.Pairwise (· < ·) ∧
      ((visitBegin - b.heapBegin) % kAlignment = 0 → (visitEnd - b.heapBegin) % kAlignment = 0 →
        b.referenceVisitMarkedRange visitBegin visitEnd = some visited) := by
  have hcover := b.limit_le
  simp only [kBitsPerIntPtrT] at hcover
  have heWord : (visitEnd - b.heapBegin) / kAlignment ≤ b.bitmap.size * 64 := by
    apply Nat.div_le_of_le_mul
    rw [Nat.mul_left_comm]
    omega
  refine ⟨_, visitMarkedRange_eq_slots hA hbegin hle hend hstart, fun obj => ?_, ?_,
    fun halignBegin halignEnd =>
      referenceVisitMarkedRange_eq_slots hA hbegin hle hend halignBegin halignEnd⟩
  · simp only [List.mem_map, mem_markedSlots]
    constructor
    · rintro ⟨k, ⟨hs, he, hmarked⟩, rfl⟩
      exact ⟨k, hs, he, rfl, by rw [test_slot hA (by omega), hmarked]⟩
    · rintro ⟨k, hs, he, rfl, htest⟩
      rw [test_slot hA (by omega), Option.some.injEq] at htest
      exact ⟨k, ⟨hs, he, htest⟩, rfl⟩
  · -- distinct slots are distinct objects, in the same order
    rw [List.pairwise_map]
    exact (pairwise_markedSlots _ _).imp fun hlt =>
      Nat.add_lt_add_left (Nat.mul_lt_mul_of_pos_right hlt hA) _

/-- An empty range at a `HeapLimit()` that ends a word: the left edge is loaded from the word
past the end of the bitmap. -/
theorem visitMarkedRange_heapLimit_eq_none (hA : 0 < kAlignment)
    (hlimit : b.heapLimit - b.heapBegin = b.bitmap.size * (kAlignment * kBitsPerIntPtrT)) :
    b.visitMarkedRange b.heapLimit b.heapLimit = none := by
  have hindex : offsetToIndex kAlignment (b.heapLimit - b.heapBegin) = b.bitmap.size := by
    rw [hlimit, offsetToIndex, Nat.mul_comm kAlignment, ← Nat.mul_assoc,
      Nat.mul_div_cancel _ hA, Nat.mul_div_cancel _ (by decide)]
  simp only [visitMarkedRange, hindex, Array.getElem?_eq_none (Nat.le_refl _),
    Option.bind_eq_bind, Option.bind_none]

end Visit

/-- A bitmap of one word for a heap of `512` bytes at `4096` with `kAlignment = 8`, asked to visit
the empty range at its `HeapLimit()`, loads `bitmap_begin_[1]`; the reference loop passes no
time. -/
theorem visitMarkedRange_reads_past_bitmap_end :
    (create 8 4096 512 (by decide)).visitMarkedRange 4608 4608 = none ∧
      (create 8 4096 512 (by decide)).referenceVisitMarkedRange 4608 4608 = some [] :=
  ⟨visitMarkedRange_heapLimit_eq_none (by decide) (by decide), rfl⟩

end SpaceBitmap

end AndroidArt.Gc
