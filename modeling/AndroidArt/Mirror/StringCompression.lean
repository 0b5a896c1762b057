/-
Module: AndroidArt.Mirror.StringCompression
Purpose: what string compression keeps. A string is well formed when its characters sit in the
  view its flag selects, the other view empty, and a compressed one holds ASCII characters only;
  it is canonical when, unless empty, it is compressed exactly when all its characters are ASCII.
Imports: AndroidArt.Mirror.String
Trusted boundary: as in AndroidArt.Mirror.String. The callers' contracts are hypotheses: bounds
  checked in Java before `fastSubstring` and `newStringFromChars`, `old_c` found before
  `doReplace` (its `DCHECK`), and a concatenation shorter than `2^31`.
Main exports: String.WellFormed, String.Canonical, Reachable, Reachable.wellFormed_canonical
-/
import Mathlib
import AndroidArt.Mirror.String

namespace AndroidArt.Mirror

open AndroidArt.Lib AndroidArt.Dex

/-! ### The invariants -/

namespace String

/-- What every allocation path leaves in a string: the characters in the view the flag selects,
the other view empty, and only ASCII characters in a compressed string. -/
structure WellFormed (s : String) : Prop where
  length_valueCompressed : s.valueCompressed.length = if s.isCompressed then s.getLength else 0
  length_value : s.value.length = if s.isCompressed then 0 else s.getLength
  allASCII_of_isCompressed : s.isCompressed = true → allASCII s.chars = true

/-- Compressed exactly when every character is ASCII, the empty string apart. -/
def Canonical (s : String) : Prop := s.chars ≠ [] → s.isCompressed = allASCII s.chars

namespace WellFormed

variable {s : String} (h : s.WellFormed)
include h

theorem chars_of_compressed (hc : s.isCompressed = true) :
    s.chars = s.valueCompressed.map UInt8.toUInt16 := by
  have hlen := h.length_valueCompressed
  rw [if_pos hc] at hlen
  exact chars_of_isCompressed s hc hlen

theorem value_of_compressed (hc : s.isCompressed = true) : s.value = [] := by
  have hlen := h.length_value
  rw [if_pos hc] at hlen
  exact List.eq_nil_of_length_eq_zero hlen

theorem chars_of_uncompressed (hc : s.isCompressed = false) : s.chars = s.value := by
  have hlen := h.length_value
  rw [if_neg (by simp [hc])] at hlen
  exact chars_of_not_isCompressed s hc hlen

theorem valueCompressed_of_uncompressed (hc : s.isCompressed = false) : s.valueCompressed = [] := by
  have hlen := h.length_valueCompressed
  rw [if_neg (by simp [hc])] at hlen
  exact List.eq_nil_of_length_eq_zero hlen

/-- The characters of a compressed string are its bytes, so they are below `0x80`. -/
theorem ascii_of_compressed (hc : s.isCompressed = true) :
    ∀ c ∈ s.chars, 0 < c.toNat ∧ c.toNat ≤ 0x7f :=
  (allASCII_iff _).mp (h.allASCII_of_isCompressed hc)

theorem take_value (hc : s.isCompressed = false) : s.value.take s.getLength = s.chars := by
  rw [h.chars_of_uncompressed hc, List.take_of_length_le]
  rw [h.length_value, if_neg (by simp [hc])]

theorem map_take_valueCompressed (hc : s.isCompressed = true) :
    (s.valueCompressed.take s.getLength).map UInt8.toUInt16 = s.chars := by
  rw [h.chars_of_compressed hc, List.take_of_length_le]
  rw [h.length_valueCompressed, if_pos hc]

/-- `ToCharArray`, and the halves of `AllocFromStrings`: a compressed string widened through
`CharAt`, an uncompressed one copied. -/
theorem toCharArray_eq : s.toCharArray = s.chars := by
  unfold String.toCharArray
  cases hc : s.isCompressed with
  | true => rfl
  | false => exact h.take_value hc

end WellFormed

end String

/-- An ASCII character survives the trip through its low byte. -/
theorem map_toUInt8_toUInt16 {cs : List UInt16} (h : allASCII cs = true) :
    (cs.map UInt16.toUInt8).map UInt8.toUInt16 = cs := by
  have hascii := (allASCII_iff cs).mp h
  rw [List.map_map]
  refine (List.map_congr_left fun ch hch => ?_).trans (List.map_id cs)
  have := hascii ch hch
  apply UInt16.toNat_inj.mp
  simp only [Function.comp_apply, UInt8.toNat_toUInt16, UInt16.toNat_toUInt8, id]
  omega

/-! ### Building a string

Every path allocates `GetFlaggedCount(n, compressible)` and writes `n` characters into the view
the flag selects: their bytes when compressible. -/

section Build

variable {n : Nat} (hn : n < 2 ^ 31)
include hn

theorem chars_mk_compressed {bytes : List UInt8} (hlen : bytes.length = n) (units : List UInt16) :
    (String.mk (getFlaggedCount n true) bytes units).chars = bytes.map UInt8.toUInt16 :=
  String.chars_of_isCompressed _ (String.isCompressed_mk hn true _ _)
    (by rw [String.getLength_mk hn, hlen])

theorem chars_mk_uncompressed (bytes : List UInt8) {units : List UInt16} (hlen : units.length = n) :
    (String.mk (getFlaggedCount n false) bytes units).chars = units :=
  String.chars_of_not_isCompressed _ (String.isCompressed_mk hn false _ _)
    (by rw [String.getLength_mk hn, hlen])

theorem wellFormed_mk_compressed {bytes : List UInt8} (hlen : bytes.length = n)
    (hascii : allASCII (bytes.map UInt8.toUInt16) = true) :
    (String.mk (getFlaggedCount n true) bytes []).WellFormed where
  length_valueCompressed := by simp [String.isCompressed_mk hn, String.getLength_mk hn, hlen]
  length_value := by simp [String.isCompressed_mk hn]
  allASCII_of_isCompressed _ := by rwa [chars_mk_compressed hn hlen]

theorem wellFormed_mk_uncompressed {units : List UInt16} (hlen : units.length = n) :
    (String.mk (getFlaggedCount n false) [] units).WellFormed where
  length_valueCompressed := by simp [String.isCompressed_mk hn]
  length_value := by simp [String.isCompressed_mk hn, String.getLength_mk hn, hlen]
  allASCII_of_isCompressed hc := by simp [String.isCompressed_mk hn] at hc

/-- A string allocated with `GetFlaggedCount(n, compressible)` whose visitor wrote the
characters `cs`: as bytes that widen back to them when compressible, as themselves otherwise.
Every allocation path is shown to be one. -/
theorem spec_of_alloc {cs : List UInt16} (hlen : cs.length = n) {c : Bool} {bytes : List UInt8}
    (hbytes : c = true → bytes.map UInt8.toUInt16 = cs) (hc : c = true → allASCII cs = true) :
    let s : String :=
      if c then ⟨getFlaggedCount n c, bytes, []⟩ else ⟨getFlaggedCount n c, [], cs⟩
    s.WellFormed ∧ s.chars = cs ∧ s.isCompressed = c := by
  cases c with
  | true =>
    have hlen' : bytes.length = n := by rw [← hlen, ← hbytes rfl, List.length_map]
    rw [if_pos rfl]
    refine ⟨wellFormed_mk_compressed hn hlen' (by rw [hbytes rfl]; exact hc rfl), ?_,
      String.isCompressed_mk hn true _ _⟩
    rw [chars_mk_compressed hn hlen', hbytes rfl]
  | false =>
    exact ⟨wellFormed_mk_uncompressed hn hlen, chars_mk_uncompressed hn [] hlen,
      String.isCompressed_mk hn false _ _⟩

end Build

/-! ### Each allocation path

One spec lemma a path: the string is well formed, holds the characters Java specifies, and is
compressed as the path's own test decides. -/

section Paths

theorem allocEmptyString_spec :
    allocEmptyString.WellFormed ∧ allocEmptyString.chars = [] ∧
      allocEmptyString.isCompressed = true :=
  @spec_of_alloc 0 (by decide) [] rfl true [] (fun _ => rfl) (fun _ => rfl)

theorem allocFromUtf16_spec {n : Nat} (hn : n < 2 ^ 31) {data : List UInt16}
    (hlen : n ≤ data.length) :
    let s := allocFromUtf16 n data
    s.WellFormed ∧ s.chars = data.take n ∧ s.isCompressed = allASCII (data.take n) :=
  spec_of_alloc hn (by simp [hlen]) (fun h => map_toUInt8_toUInt16 h) id

theorem allocFromCharArray_spec {n offset : Nat} (hn : n < 2 ^ 31) {data : List UInt16}
    (hlen : offset + n ≤ data.length) :
    let s := allocFromCharArray n data offset
    s.WellFormed ∧ s.chars = (data.drop offset).take n ∧
      s.isCompressed = allASCII ((data.drop offset).take n) := by
  have hcs : ((data.drop offset).take n).length = n := by simp; omega
  have := spec_of_alloc hn hcs (c := allASCII ((data.drop offset).take n))
    (fun h => map_toUInt8_toUInt16 h) id
  -- the visitor reads the flag and the length back from `count_`
  simp only [allocFromCharArray, kUseStringCompression_eq, Bool.true_and,
    isCompressedCount_getFlaggedCount hn, getLengthFromCount_getFlaggedCount hn]
  exact this

/-- A character of `AllocFromByteArray`: the high byte, then a byte. -/
theorem highByte_add_byte (high : UInt32) (b : UInt8) :
    ((high &&& 0xff) <<< 8).toUInt16 + (b &&& 0xff).toUInt16 =
      UInt16.ofNat ((high &&& 0xff).toNat * 256 + b.toNat) := by
  have hb := b.toNat_lt
  have h255 : ∀ x : Nat, x &&& 255 = x % 256 := fun x => Nat.and_two_pow_sub_one_eq_mod x 8
  apply UInt16.toNat_inj.mp
  simp [UInt16.toNat_add, UInt16.toNat_ofNat, h255, Nat.shiftLeft_eq]

theorem allocFromByteArray_spec {n offset : Nat} (hn : n < 2 ^ 31) {data : List UInt8}
    (high : UInt32) (hlen : offset + n ≤ data.length) :
    let s := allocFromByteArray n data offset high
    s.WellFormed ∧
      s.chars = ((data.drop offset).take n).map
        (fun b => UInt16.ofNat ((high &&& 0xff).toNat * 256 + b.toNat)) ∧
      s.isCompressed =
        (allASCII (((data.drop offset).take n).map UInt8.toUInt16) && high &&& 0xff == 0) := by
  have hcs : (((data.drop offset).take n).map
      fun b => ((high &&& 0xff) <<< 8).toUInt16 + (b &&& 0xff).toUInt16).length = n := by
    simp; omega
  -- with a zero high byte a character is its byte, widened
  have hzero : high &&& 0xff = 0 → ∀ b : UInt8,
      ((high &&& 0xff) <<< 8).toUInt16 + (b &&& 0xff).toUInt16 = b.toUInt16 := by
    intro h b
    rw [highByte_add_byte, h]
    apply UInt16.toNat_inj.mp
    simp
  have hband : ∀ b : UInt8, (b &&& 0xff).toUInt16 = b.toUInt16 := fun b => by
    rw [show b &&& 0xff = b from UInt8.toNat_inj.mp (by simp [Nat.and_two_pow_sub_one_eq_mod b.toNat 8])]
  have hc := @spec_of_alloc n hn _ hcs
    (allASCII (((data.drop offset).take n).map UInt8.toUInt16) && high &&& 0xff == 0)
    (((data.drop offset).take n).map (· &&& 0xff))
    (fun h => by
      simp only [Bool.and_eq_true, beq_iff_eq] at h
      rw [List.map_map]
      exact List.map_congr_left fun b _ => by rw [Function.comp_apply, hzero h.2 b, hband])
    (fun h => by
      simp only [Bool.and_eq_true, beq_iff_eq] at h
      rw [List.map_congr_left fun b _ => hzero h.2 b]
      exact h.1)
  simp only [allocFromByteArray, kUseStringCompression_eq, Bool.true_and,
    isCompressedCount_getFlaggedCount hn, getLengthFromCount_getFlaggedCount hn]
  refine ⟨hc.1, ?_, hc.2.2⟩
  rw [hc.2.1]
  exact List.map_congr_left fun b _ => highByte_add_byte high b

theorem allocFromString_spec {n offset : Nat} {t : String} (ht : t.WellFormed)
    (hlen : offset + n ≤ t.getLength) :
    let s := allocFromString n t offset
    s.WellFormed ∧ s.chars = (t.chars.drop offset).take n ∧
      s.isCompressed = allASCII ((t.chars.drop offset).take n) := by
  have hn : n < 2 ^ 31 := by have := t.getLength_lt; omega
  have hcs : ((t.chars.drop offset).take n).length = n := by simp; omega
  cases hc : t.isCompressed with
  | true =>
    -- a compressed source is copied byte for byte, and its characters are ASCII
    have hascii : allASCII ((t.chars.drop offset).take n) = true :=
      (allASCII_iff _).mpr fun c hmem =>
        ht.ascii_of_compressed hc c (List.mem_of_mem_drop (List.mem_of_mem_take hmem))
    have hspec := @spec_of_alloc n hn _ hcs true ((t.valueCompressed.drop offset).take n)
      (fun _ => by rw [ht.chars_of_compressed hc, List.map_take, List.map_drop]) (fun _ => hascii)
    simp only [allocFromString, hc, kUseStringCompression_eq, Bool.true_and, if_true,
      getLengthFromCount_getFlaggedCount hn]
    exact ⟨hspec.1, hspec.2.1, hspec.2.2.trans hascii.symm⟩
  | false =>
    have hspec := @spec_of_alloc n hn _ hcs (allASCII ((t.chars.drop offset).take n))
      (((t.chars.drop offset).take n).map UInt16.toUInt8) (fun h => map_toUInt8_toUInt16 h) id
    simp only [allocFromString, hc, ← ht.chars_of_uncompressed hc, kUseStringCompression_eq,
      Bool.true_and, Bool.false_eq_true, if_false, isCompressedCount_getFlaggedCount hn,
      getLengthFromCount_getFlaggedCount hn]
    exact hspec

theorem allocFromStrings_spec {s t : String} (hs : s.WellFormed) (ht : t.WellFormed)
    (hlen : s.getLength + t.getLength < 2 ^ 31) :
    let r := allocFromStrings s t
    r.WellFormed ∧ r.chars = s.chars ++ t.chars ∧
      r.isCompressed = (s.isCompressed && t.isCompressed) := by
  have hspec := @spec_of_alloc _ hlen (s.chars ++ t.chars) (by simp)
    (s.isCompressed && t.isCompressed)
    (s.valueCompressed.take s.getLength ++ t.valueCompressed.take t.getLength)
    (fun h => by
      rw [Bool.and_eq_true] at h
      rw [List.map_append, hs.map_take_valueCompressed h.1, ht.map_take_valueCompressed h.2])
    (fun h => by
      rw [Bool.and_eq_true] at h
      rw [allASCII, List.all_append, Bool.and_eq_true]
      exact ⟨hs.allASCII_of_isCompressed h.1, ht.allASCII_of_isCompressed h.2⟩)
  have hfirst := hs.toCharArray_eq
  have hsecond := ht.toCharArray_eq
  unfold String.toCharArray at hfirst hsecond
  simp only [allocFromStrings, kUseStringCompression_eq, Bool.true_and, hfirst, hsecond]
  exact hspec

theorem allASCIIExcept_iff (cs : List UInt16) (x : UInt16) :
    allASCIIExcept cs x = true ↔ ∀ c ∈ cs, isASCII c = true ∨ c = x := by
  simp [allASCIIExcept, List.all_eq_true]

theorem doReplace_spec {s : String} (hs : s.WellFormed) (oldC newC : UInt16) :
    let r := doReplace s oldC newC
    r.WellFormed ∧ r.chars = s.chars.map (fun c => if c = oldC then newC else c) ∧
      r.isCompressed = (isASCII newC &&
        (s.isCompressed || (!isASCII oldC && allASCIIExcept s.chars oldC))) := by
  have hn := s.getLength_lt
  have hrepl : (fun c : UInt16 => if oldC ≠ c then c else newC) =
      fun c => if c = oldC then newC else c := by
    funext c
    by_cases hc : c = oldC
    · simp [hc]
    · simp [hc, Ne.symm hc]
  -- `value_` is read only when `src` is not compressed, where it holds the characters
  have htest : (s.isCompressed ||
      (!isASCII oldC && allASCIIExcept (s.value.take s.getLength) oldC)) =
      (s.isCompressed || (!isASCII oldC && allASCIIExcept s.chars oldC)) := by
    cases hc : s.isCompressed with
    | true => rfl
    | false => rw [hs.take_value hc]
  have hcs : (s.chars.map fun c => if c = oldC then newC else c).length = s.getLength := by simp
  have hascii : (isASCII newC && (s.isCompressed || (!isASCII oldC &&
      allASCIIExcept s.chars oldC))) = true →
      allASCII (s.chars.map fun c => if c = oldC then newC else c) = true := by
    intro h
    simp only [Bool.and_eq_true, Bool.or_eq_true, Bool.not_eq_true'] at h
    obtain ⟨hnew, hrest⟩ := h
    rw [allASCII, List.all_map, List.all_eq_true]
    intro c hc
    by_cases hco : c = oldC
    · simpa [hco] using hnew
    · simp only [Function.comp_apply, hco, if_false]
      rcases hrest with hcomp | ⟨-, hexcept⟩
      · exact (allASCII_iff _).mp (hs.allASCII_of_isCompressed hcomp) c hc |> (isASCII_iff c).mpr
      · exact ((allASCIIExcept_iff _ _).mp hexcept c hc).resolve_right hco
  -- both views give the replaced characters, as units or as their low bytes
  have hout : (if s.isCompressed then (s.valueCompressed.take s.getLength).map
        (fun c => if oldC ≠ c.toUInt16 then c.toUInt16 else newC)
      else (s.value.take s.getLength).map fun c => if oldC ≠ c then c else newC) =
      s.chars.map fun c => if c = oldC then newC else c := by
    cases hc : s.isCompressed with
    | true =>
      rw [if_pos rfl, ← hs.map_take_valueCompressed hc, List.map_map, ← hrepl]
      rfl
    | false => rw [if_neg (by simp), hs.take_value hc, hrepl]
  have hbytes : (if s.isCompressed then (s.valueCompressed.take s.getLength).map
        (fun c => (if oldC ≠ c.toUInt16 then c.toUInt16 else newC).toUInt8)
      else (s.value.take s.getLength).map fun c => (if oldC ≠ c then c else newC).toUInt8) =
      (s.chars.map fun c => if c = oldC then newC else c).map UInt16.toUInt8 := by
    rw [← hout]
    split <;> rw [List.map_map] <;> rfl
  have hspec := @spec_of_alloc _ hn _ hcs _
    ((s.chars.map fun c => if c = oldC then newC else c).map UInt16.toUInt8)
    (fun h => map_toUInt8_toUInt16 (hascii h)) hascii
  simp only [doReplace, kUseStringCompression_eq, Bool.true_and, htest, hout, hbytes]
  exact hspec

end Paths

/-! ### Modified UTF-8 in

A buffer of sequences and a terminator: `strlen` stops at the terminator, `CountModifiedUtf8Chars`
counts the units, and the string is compressible exactly when every sequence is one ASCII
byte, which in shortest form is when every character is ASCII. -/

section ModifiedUtf8

variable (qs : List Sequence)

theorem length_flatMap_units_le : (qs.flatMap Sequence.units).length ≤ (bytesOf qs).length := by
  induction qs with
  | nil => simp [bytesOf]
  | cons q qs ih =>
    have := q.length_units_le_length_bytes
    simp only [bytesOf, List.flatMap_cons, List.length_append] at ih ⊢
    omega

/-- As many units as bytes: every sequence is an ASCII character, and the bytes are the
characters. -/
theorem ascii_of_length_flatMap_eq
    (h : (qs.flatMap Sequence.units).length = (bytesOf qs).length) :
    (bytesOf qs).map UInt8.toUInt16 = qs.flatMap Sequence.units ∧
      allASCII (qs.flatMap Sequence.units) = true := by
  induction qs with
  | nil => simp [bytesOf, allASCII]
  | cons q qs ih =>
    have hq := q.length_units_le_length_bytes
    have hqs := length_flatMap_units_le qs
    simp only [bytesOf, List.flatMap_cons, List.length_append] at h ih hqs ⊢
    obtain ⟨hmap, hascii⟩ := q.ascii_of_length_eq (by omega)
    obtain ⟨ihmap, ihascii⟩ := ih (by omega)
    refine ⟨by rw [List.map_append, hmap, ihmap], ?_⟩
    rw [allASCII, List.all_append, Bool.and_eq_true]
    exact ⟨(allASCII_iff _).mpr hascii, ihascii⟩

theorem length_flatMap_eq_of_allASCII (hs : ∀ q ∈ qs, q.Shortest)
    (h : allASCII (qs.flatMap Sequence.units) = true) :
    (qs.flatMap Sequence.units).length = (bytesOf qs).length := by
  induction qs with
  | nil => rfl
  | cons q qs ih =>
    rw [allASCII, List.flatMap_cons, List.all_append, Bool.and_eq_true] at h
    have hq := q.length_eq_of_shortest (hs q List.mem_cons_self) ((allASCII_iff _).mp h.1)
    have := ih (fun q' hq' => hs q' (List.mem_cons_of_mem _ hq')) h.2
    simp only [bytesOf, List.flatMap_cons, List.length_append] at this ⊢
    omega

/-- `ConvertModifiedUtf8ToUtf16` on the sequences gives their units, on either path. -/
theorem convertModifiedUtf8ToUtf16_bytesOf (after : List UInt8) :
    convertModifiedUtf8ToUtf16 (qs.flatMap Sequence.units).length (bytesOf qs ++ after)
      (bytesOf qs).length = qs.flatMap Sequence.units := by
  unfold convertModifiedUtf8ToUtf16
  split
  · rename_i heq
    rw [List.take_left' rfl, ← (ascii_of_length_flatMap_eq qs heq).1]
    exact List.map_congr_left fun b _ => UInt16.toNat_inj.mp (by simp)
  · rw [List.length_append, Nat.add_sub_cancel_left]
    exact convertModifiedUtf8ToUtf16Loop_flatMap_append after qs (le_refl _)

theorem allocFromModifiedUtf8CString_spec (hs : ∀ q ∈ qs, q.Shortest) (after : List UInt8)
    (hn : (qs.flatMap Sequence.units).length < 2 ^ 31) :
    let s := allocFromModifiedUtf8CString (bytesOf qs ++ 0 :: after)
    s.WellFormed ∧ s.chars = qs.flatMap Sequence.units ∧
      s.isCompressed = allASCII (qs.flatMap Sequence.units) := by
  have hzero : (0 : UInt8) ∉ bytesOf qs := fun hm => by
    obtain ⟨q, -, hb⟩ := List.mem_flatMap.mp hm
    exact q.bytes_ne_zero 0 hb rfl
  have hnul : CString.nulFrom (bytesOf qs ++ 0 :: after) 0 = (bytesOf qs).length := by
    simpa using CString.nulFrom_append [] (bytesOf qs) after hzero
  have hcount : countModifiedUtf8Chars (bytesOf qs ++ 0 :: after) (bytesOf qs).length =
      (qs.flatMap Sequence.units).length := by
    rw [countModifiedUtf8Chars, List.length_append, Nat.add_sub_cancel_left]
    exact countModifiedUtf8CharsLoop_flatMap_append (0 :: after) qs (le_refl _)
  -- compressible, as many units as bytes, is all ASCII
  have hflag : ((qs.flatMap Sequence.units).length == (bytesOf qs).length) =
      allASCII (qs.flatMap Sequence.units) := by
    rw [Bool.eq_iff_iff, beq_iff_eq]
    exact ⟨fun h => (ascii_of_length_flatMap_eq qs h).2, length_flatMap_eq_of_allASCII qs hs⟩
  have hspec := @spec_of_alloc _ hn _ rfl
    ((qs.flatMap Sequence.units).length == (bytesOf qs).length)
    ((bytesOf qs ++ 0 :: after).take (qs.flatMap Sequence.units).length)
    (fun h => by
      rw [beq_iff_eq] at h
      rw [h, List.take_left' rfl]
      exact (ascii_of_length_flatMap_eq qs h).1)
    (fun h => hflag ▸ h)
  simp only [allocFromModifiedUtf8CString, hnul, hcount, allocFromModifiedUtf8,
    kUseStringCompression_eq, Bool.true_and, convertModifiedUtf8ToUtf16_bytesOf]
  exact ⟨hspec.1, hspec.2.1, hspec.2.2.trans hflag⟩

/-- The writer's bytes are those of its sequences, whichever path it takes. -/
theorem mutf8_eq_bytesOf (a : List UInt16) : mutf8 a = bytesOf (sequences a) := by
  rw [mutf8_eq_convertUtf16ToModifiedUtf8Loop, ← flatMap_bytes_sequences]
  rfl

end ModifiedUtf8

/-! ### One object for each string of characters -/

namespace String

/-- Two well formed strings with the same flag and the same characters are the same object:
`count_` is the length and the flag, and the view the flag selects holds the characters. -/
theorem WellFormed.ext {s t : String} (hs : s.WellFormed) (ht : t.WellFormed)
    (hc : s.isCompressed = t.isCompressed) (h : s.chars = t.chars) : s = t := by
  have hlen : s.getLength = t.getLength := by rw [← length_chars, h, length_chars]
  have hcount : s.count = t.count := by rw [s.count_eq, t.count_eq, hlen, hc]
  have hwiden : Function.Injective UInt8.toUInt16 := fun a b hab =>
    UInt8.toNat_inj.mp (by simpa using congrArg UInt16.toNat hab)
  obtain ⟨hvc, hv⟩ : s.valueCompressed = t.valueCompressed ∧ s.value = t.value := by
    cases hcs : s.isCompressed with
    | true =>
      have htc : t.isCompressed = true := hc ▸ hcs
      refine ⟨List.map_injective_iff.mpr hwiden ?_, ?_⟩
      · rw [← hs.chars_of_compressed hcs, ← ht.chars_of_compressed htc, h]
      · rw [hs.value_of_compressed hcs, ht.value_of_compressed htc]
    | false =>
      have htc : t.isCompressed = false := hc ▸ hcs
      refine ⟨?_, ?_⟩
      · rw [hs.valueCompressed_of_uncompressed hcs, ht.valueCompressed_of_uncompressed htc]
      · rw [← hs.chars_of_uncompressed hcs, ← ht.chars_of_uncompressed htc, h]
  cases s
  cases t
  simp only [String.mk.injEq]
  exact ⟨hcount, hvc, hv⟩

/-- Canonical strings with the same characters, not none, carry the same flag. -/
theorem Canonical.isCompressed_eq {s t : String} (hs : s.Canonical) (ht : t.Canonical)
    (h : s.chars = t.chars) (hne : s.chars ≠ []) : s.isCompressed = t.isCompressed := by
  rw [hs hne, ht (h ▸ hne), h]

/-- A non-empty canonical string is the one `AllocFromUtf16` builds from its characters. -/
theorem WellFormed.eq_allocFromUtf16 {s : String} (hs : s.WellFormed) (hcan : s.Canonical)
    (hne : s.chars ≠ []) : s = allocFromUtf16 s.getLength s.chars := by
  obtain ⟨hwf, hchars, hcomp⟩ := @allocFromUtf16_spec _ s.getLength_lt s.chars (by simp)
  rw [List.take_of_length_le (by simp)] at hchars hcomp
  exact hs.ext hwf (by rw [hcan hne, hcomp]) hchars.symm

end String

/-! ### The readers see the characters only -/

theorem fastIndexOfLoop_map (ch : Int) (cs : List UInt16) (p : Nat) :
    fastIndexOfLoop ch (cs.map UInt16.toNat) p =
      ((cs.findIdx? fun c => (c.toNat : Int) == ch).map fun i => ((p + i : Nat) : Int)).getD (-1) := by
  induction cs generalizing p with
  | nil => rfl
  | cons c cs ih =>
    rw [List.map_cons, fastIndexOfLoop, ih, List.findIdx?_cons]
    by_cases hc : (c.toNat : Int) = ch
    · simp [hc]
    · simp only [hc, if_false, beq_iff_eq, Option.map_map]
      congr 2
      funext i
      simp only [Function.comp_apply]
      congr 1
      omega

theorem javaIndexOf_eq (cs : List UInt16) (ch start : Int) :
    javaIndexOf cs ch start =
      (((cs.drop start.toNat).findIdx? fun c => (c.toNat : Int) == ch).map
        fun i => ((start.toNat + i : Nat) : Int)).getD (-1) := by
  unfold javaIndexOf
  cases (cs.drop start.toNat).findIdx? (fun c => (c.toNat : Int) == ch) <;> rfl

namespace String.WellFormed

variable {s : String} (h : s.WellFormed)
include h

theorem getUtfLength_eq : s.getUtfLength = countUtf8Bytes s.chars := by
  unfold String.getUtfLength
  cases hc : s.isCompressed with
  | true =>
    rw [if_pos rfl, countUtf8Bytes_of_ascii _ (h.ascii_of_compressed hc), length_chars]
  | false => rw [if_neg (by simp), h.take_value hc]

/-- Whichever path `ToModifiedUtf8` takes, it writes what the writer writes for the
characters. -/
theorem toModifiedUtf8_eq : s.toModifiedUtf8 = mutf8 s.chars := by
  unfold String.toModifiedUtf8
  rw [h.getUtfLength_eq]
  cases hc : s.isCompressed with
  | true =>
    have hcount := countUtf8Bytes_of_ascii _ (h.ascii_of_compressed hc)
    -- the bytes are the characters, which the writer copies too
    rw [if_pos rfl, hcount, length_chars, mutf8, convertUtf16ToModifiedUtf8,
      if_pos (by rw [hcount]), chars, List.map_map]
    rfl
  | false => rw [if_neg (by simp), h.take_value hc, mutf8]

theorem computeHashCode_eq : s.computeHashCode = computeUtf16Hash s.chars := by
  unfold String.computeHashCode
  cases hc : s.isCompressed with
  | true => rw [if_pos rfl, h.map_take_valueCompressed hc]
  | false => rw [if_neg (by simp), h.take_value hc]

/-- `FastIndexOf` is Java's `indexOf` on the characters: a byte compared with a `ch` above
`0xff` never matches, as no character of a compressed string is one. -/
theorem fastIndexOf_eq (ch start : Int) :
    s.fastIndexOf ch start = javaIndexOf s.chars ch start := by
  -- both views, from the clamped start, are the characters from there
  have hview : ∀ st : Nat, (if s.isCompressed then
      fastIndexOfLoop ch (((s.valueCompressed.take s.getLength).drop st).map UInt8.toNat) st
      else fastIndexOfLoop ch (((s.value.take s.getLength).drop st).map UInt16.toNat) st) =
      fastIndexOfLoop ch ((s.chars.drop st).map UInt16.toNat) st := by
    intro st
    cases hc : s.isCompressed with
    | true =>
      rw [if_pos rfl, ← h.map_take_valueCompressed hc, ← List.map_drop, List.map_map]
      rfl
    | false => rw [if_neg (by simp), h.take_value hc]
  unfold String.fastIndexOf
  dsimp only
  rw [hview, fastIndexOfLoop_map, javaIndexOf_eq]
  -- the start is clamped to `0..count`; past the end nothing is left to search
  split_ifs with hneg hbig
  · rw [Int.toNat_of_nonpos (by omega)]
  · rw [List.drop_of_length_le (by simp), List.drop_of_length_le (by simp; omega)]
    rfl
  · rfl

end String.WellFormed

/-! ### Comparisons

`Equals` compares `CharAt` position by position.  `CompareTo` runs one of three loops on the
views; each is the loop over the characters' values, the mixed one with its operands swapped and
its result negated back.  Java's `compareTo` is that loop, then the difference of the lengths. -/

theorem charDiff_swap : ∀ (n : Nat) (as bs : List Nat), charDiff n bs as = -charDiff n as bs
  | 0, _, _ => by simp [charDiff]
  | n + 1, as, bs => by
    have ih := charDiff_swap n as.tail bs.tail
    simp only [charDiff]
    by_cases hd : (as.headD 0 : Int) - bs.headD 0 = 0
    · rw [if_neg (by omega), if_neg (by omega), ih]
    · rw [if_pos (by omega), if_pos (by omega)]
      omega

/-- Java's `compareTo` as the loop over the first `min` characters, then the length
difference. -/
theorem javaCompareTo_eq_charDiff : ∀ a b : List UInt16,
    javaCompareTo a b =
      let diff := charDiff (min a.length b.length) (a.map UInt16.toNat) (b.map UInt16.toNat)
      if diff ≠ 0 then diff else (a.length : Int) - b.length
  | [], b => by simp [javaCompareTo, charDiff]
  | x :: xs, [] => by simp [javaCompareTo, charDiff]
  | x :: xs, y :: ys => by
    have ih := javaCompareTo_eq_charDiff xs ys
    simp only [javaCompareTo, List.length_cons, Nat.add_min_add_right, charDiff, List.map_cons,
      List.headD_cons, List.tail_cons] at ih ⊢
    generalize charDiff (min xs.length ys.length) (xs.map UInt16.toNat) (ys.map UInt16.toNat) = d
      at ih ⊢
    by_cases hxy : x = y
    · -- equal characters: the rest decides
      subst hxy
      rw [if_pos rfl, ih]
      split_ifs <;> push_cast <;> omega
    · have hne : (x.toNat : Int) - y.toNat ≠ 0 := by
        intro h
        exact hxy (UInt16.toNat_inj.mp (by omega))
      rw [if_neg hxy]
      omega

namespace String

theorem equals_iff (s t : String) : s.equals (some t) = true ↔ s.chars = t.chars := by
  by_cases hlen : s.getLength = t.getLength
  · rw [equals, if_neg (by simpa using hlen), List.all_eq_true, chars, chars, hlen,
      List.map_inj_left]
    simp
  · rw [equals, if_pos hlen]
    simp only [Bool.false_eq_true, false_iff]
    intro h
    exact hlen (by rw [← length_chars, h, length_chars])

namespace WellFormed

variable {s : String} (h : s.WellFormed)
include h

/-- The values of the view the flag selects are the characters' values. -/
theorem map_toNat_valueCompressed (hc : s.isCompressed = true) :
    s.valueCompressed.map UInt8.toNat = s.chars.map UInt16.toNat := by
  rw [h.chars_of_compressed hc, List.map_map]
  rfl

theorem map_toNat_value (hc : s.isCompressed = false) :
    s.value.map UInt16.toNat = s.chars.map UInt16.toNat := by
  rw [h.chars_of_uncompressed hc]

end WellFormed

theorem compareTo_eq_javaCompareTo {s t : String} (hs : s.WellFormed) (ht : t.WellFormed) :
    s.compareTo t = javaCompareTo s.chars t.chars := by
  rw [javaCompareTo_eq_charDiff]
  have hmin : (if (s.getLength : Int) - t.getLength < 0 then s.getLength else t.getLength) =
      min s.chars.length t.chars.length := by
    rw [length_chars, length_chars]
    split <;> omega
  unfold compareTo memCmp16
  dsimp only
  rw [hmin, length_chars, length_chars]
  cases hsc : s.isCompressed <;> cases htc : t.isCompressed
  · -- two uncompressed strings: `MemCmp16`
    simp only [Bool.false_and, Bool.or_self, Bool.false_eq_true, if_false,
      hs.map_toNat_value hsc, ht.map_toNat_value htc]
  · -- the loop runs with `rhs`'s bytes on the left and its result is negated back
    simp only [Bool.false_and, Bool.false_or, if_true, Bool.false_eq_true, if_false,
      ht.map_toNat_valueCompressed htc, hs.map_toNat_value hsc]
    rw [charDiff_swap]
    split_ifs <;> omega
  · simp only [Bool.and_false, Bool.or_false, if_true, Bool.false_eq_true, if_false,
      hs.map_toNat_valueCompressed hsc, ht.map_toNat_value htc]
  · simp only [Bool.and_self, if_true, hs.map_toNat_valueCompressed hsc,
      ht.map_toNat_valueCompressed htc]

/-- `"A"` compressed against `"é"` uncompressed: the mixed loop. -/
theorem compareTo_eq_javaCompareTo_mixed :
    (allocFromUtf16 1 [0x41]).WellFormed ∧ (allocFromUtf16 1 [0xe9]).WellFormed ∧
      (allocFromUtf16 1 [0x41]).compareTo (allocFromUtf16 1 [0xe9]) =
        javaCompareTo (allocFromUtf16 1 [0x41]).chars (allocFromUtf16 1 [0xe9]).chars :=
  ⟨(allocFromUtf16_spec (by decide) (by decide)).1, (allocFromUtf16_spec (by decide) (by decide)).1,
    compareTo_eq_javaCompareTo (allocFromUtf16_spec (by decide) (by decide)).1
      (allocFromUtf16_spec (by decide) (by decide)).1⟩

end String

/-! ### The `String.equals` intrinsic

It compares `count_`, then the zero-padded data areas a word at a time; the words cover the data
area, and the padding after equal-length areas is the same, so past equal counts it compares
the characters. -/

theorem take_paddedData {s : String} {k : Nat} (hk : (dataBytes s).length ≤ k) :
    (paddedData s).take k = dataBytes s ++
      (List.replicate ((8 - (dataBytes s).length % 8) % 8) 0).take (k - (dataBytes s).length) := by
  rw [paddedData, List.take_append, List.take_of_length_le hk]

namespace String.WellFormed

variable {s : String} (h : s.WellFormed)
include h

theorem length_dataBytes :
    (dataBytes s).length = if s.isCompressed then s.getLength else 2 * s.getLength := by
  unfold dataBytes
  cases hc : s.isCompressed with
  | true =>
    rw [if_pos rfl, if_pos rfl, List.length_take, h.length_valueCompressed, if_pos hc]
    exact min_self _
  | false =>
    rw [if_neg (by simp), if_neg (by simp), h.take_value hc, List.length_flatMap]
    simp [Nat.mul_comm]

/-- Over the same flag, the data areas agree exactly when the characters do. -/
theorem dataBytes_eq_iff {t : String} (ht : t.WellFormed) (hc : s.isCompressed = t.isCompressed) :
    dataBytes s = dataBytes t ↔ s.chars = t.chars := by
  unfold dataBytes
  cases hsc : s.isCompressed with
  | true =>
    have htc : t.isCompressed = true := hc ▸ hsc
    rw [if_pos rfl, if_pos htc, ← h.map_take_valueCompressed hsc,
      ← ht.map_take_valueCompressed htc]
    exact (List.map_injective_iff.mpr fun a b hab =>
      UInt8.toNat_inj.mp (by simpa using congrArg UInt16.toNat hab)).eq_iff.symm
  | false =>
    have htc : t.isCompressed = false := hc ▸ hsc
    rw [if_neg (by simp), if_neg (by simp [htc]), h.take_value hsc, ht.take_value htc]
    -- two-byte little-endian units are read back one by one
    have hunits : Function.Injective fun u : UInt16 => LittleEndian.toBytes 2 u.toNat :=
      fun a b hab => UInt16.toNat_inj.mp (LittleEndian.toBytes_inj
        (lt_of_lt_of_eq a.toNat_lt (by norm_num)) (lt_of_lt_of_eq b.toNat_lt (by norm_num)) hab)
    exact ⟨fun heq => LittleEndian.flatMap_injective (by decide)
      (fun u => LittleEndian.length_toBytes 2 u.toNat) hunits heq, fun heq => heq ▸ rfl⟩

end String.WellFormed

/-- On well formed strings the intrinsic is `String::Equals` and an equal `count_`. -/
theorem equalsIntrinsic_eq {s t : String} (hs : s.WellFormed) (ht : t.WellFormed) :
    equalsIntrinsic s (some t) = (s.count == t.count && s.equals (some t)) := by
  by_cases hc : s.count = t.count
  · have hlen : s.getLength = t.getLength := by rw [String.getLength, String.getLength, hc]
    have hflag : s.isCompressed = t.isCompressed := by
      rw [String.isCompressed, String.isCompressed, hc]
    have hcount := congrArg UInt32.toNat s.count_eq
    rw [toNat_getFlaggedCount s.getLength_lt] at hcount
    have hslen := hs.length_dataBytes
    have htlen := ht.length_dataBytes
    rw [hc, beq_self_eq_true, Bool.true_and]
    unfold equalsIntrinsic
    dsimp only
    rw [if_neg (not_not.mpr hc), kUseStringCompression_eq, if_pos rfl]
    by_cases hzero : s.count = 0
    · -- `count_ == 0`: two compressed empty strings
      rw [if_pos hzero]
      have hzero' : s.count.toNat = 0 := by rw [hzero]; rfl
      have hempty : s.getLength = 0 := by split_ifs at hcount <;> omega
      have hsnil : s.chars = [] := List.eq_nil_of_length_eq_zero (by rw [String.length_chars, hempty])
      have htnil : t.chars = [] :=
        List.eq_nil_of_length_eq_zero (by rw [String.length_chars, ← hlen, hempty])
      exact ((String.equals_iff s t).mpr (by rw [hsnil, htnil])).symm
    · rw [if_neg hzero]
      -- past words that cover both data areas only equal padding is left
      have hwords : ∀ k, (dataBytes s).length ≤ k →
          (List.take k (paddedData s) == List.take k (paddedData t)) = s.equals (some t) := by
        intro k hk
        have hlen' : (dataBytes s).length = (dataBytes t).length := by
          rw [hslen, htlen, hflag, hlen]
        rw [take_paddedData hk, take_paddedData (hlen' ▸ hk), ← hlen']
        exact Bool.eq_iff_iff.mpr (beq_iff_eq.trans ((List.append_left_inj _).trans
          ((hs.dataBytes_eq_iff ht hflag).trans (String.equals_iff s t).symm)))
      apply hwords
      rw [hslen]
      split_ifs at hcount ⊢ <;> omega
  · rw [equalsIntrinsic, if_pos hc]
    simp [hc]

/-! ### Canonical strings

Each path builds a canonical string from canonical inputs, with two exceptions the callers
rule out: a concatenation with an empty half keeps that half's flag, which `String_concat`
avoids by returning the other half, and `DoReplace` decides on `old_c` being there. -/

section Canonical

theorem allocFromByteArray_canonical {n offset : Nat} (hn : n < 2 ^ 31) {data : List UInt8}
    (high : UInt32) (hlen : offset + n ≤ data.length) :
    (allocFromByteArray n data offset high).Canonical := by
  obtain ⟨-, hchars, hcomp⟩ := allocFromByteArray_spec hn high hlen
  intro hne
  rw [hcomp, hchars]
  by_cases hh : high &&& 0xff = 0
  · -- a zero high byte: the characters are the bytes
    have hwiden : ((data.drop offset).take n).map
        (fun b => UInt16.ofNat ((high &&& 0xff).toNat * 256 + b.toNat)) =
        ((data.drop offset).take n).map UInt8.toUInt16 :=
      List.map_congr_left fun b _ => UInt16.toNat_inj.mp (by simp [hh])
    rw [hwiden, hh, beq_self_eq_true, Bool.and_true]
  · -- otherwise every character is `0x100` or more, and there is one
    rw [hchars] at hne
    obtain ⟨c, hc⟩ := List.exists_mem_of_ne_nil _ hne
    obtain ⟨b, -, rfl⟩ := List.mem_map.mp hc
    have hhigh : 0 < (high &&& 0xff).toNat ∧ (high &&& 0xff).toNat < 256 := by
      refine ⟨Nat.pos_of_ne_zero fun h0 => hh (UInt32.toNat_inj.mp (by simpa using h0)), ?_⟩
      rw [UInt32.toNat_and]
      exact lt_of_le_of_lt Nat.and_le_right (by decide)
    have hnot : allASCII (((data.drop offset).take n).map
        fun b => UInt16.ofNat ((high &&& 0xff).toNat * 256 + b.toNat)) = false := by
      rw [Bool.eq_false_iff]
      intro hall
      have := (isASCII_iff _).mp (List.all_eq_true.mp hall _ hc)
      have hb := b.toNat_lt
      rw [UInt16.toNat_ofNat', Nat.mod_eq_of_lt (by omega)] at this
      omega
    rw [hnot, beq_false_of_ne hh, Bool.and_false]

theorem allocFromStrings_canonical {s t : String} (hs : s.WellFormed) (ht : t.WellFormed)
    (hsc : s.Canonical) (htc : t.Canonical) (hsne : s.chars ≠ []) (htne : t.chars ≠ [])
    (hlen : s.getLength + t.getLength < 2 ^ 31) : (allocFromStrings s t).Canonical := by
  obtain ⟨-, hchars, hcomp⟩ := allocFromStrings_spec hs ht hlen
  intro _
  rw [hcomp, hchars, hsc hsne, htc htne, allASCII, allASCII, allASCII, List.all_append]

/-- A character that was there is replaced, so the result is compressed exactly when it is
all ASCII: when it is, the new character is ASCII and every other character of the source
either was ASCII already or was the old one. -/
theorem doReplace_canonical {s : String} (hs : s.WellFormed) (hcan : s.Canonical)
    {oldC : UInt16} (newC : UInt16) (hold : oldC ∈ s.chars) :
    (doReplace s oldC newC).Canonical := by
  obtain ⟨hwf, hchars, hcomp⟩ := doReplace_spec hs oldC newC
  intro _
  cases hr : (doReplace s oldC newC).isCompressed with
  | true => exact (hwf.allASCII_of_isCompressed hr).symm
  | false =>
    refine (Bool.eq_false_iff.mpr fun hR => ?_).symm
    rw [hchars] at hR
    have hRall := (allASCII_iff _).mp hR
    have hnew : isASCII newC = true :=
      (isASCII_iff _).mpr (hRall newC (List.mem_map.mpr ⟨oldC, hold, if_pos rfl⟩))
    have hkeep : ∀ c ∈ s.chars, c ≠ oldC → isASCII c = true := fun c hc hne =>
      (isASCII_iff _).mpr (by simpa [hne] using hRall _ (List.mem_map.mpr ⟨c, hc, rfl⟩))
    rw [hcomp, hnew, Bool.true_and, Bool.or_eq_false_iff] at hr
    obtain ⟨hsc, hrest⟩ := hr
    -- the source is not compressed, so one of its characters is not ASCII: the old one
    have hnotall : allASCII s.chars = false := (hcan (List.ne_nil_of_mem hold)).symm.trans hsc
    obtain ⟨c, hc, hcna⟩ : ∃ c ∈ s.chars, isASCII c = false := by
      simpa [allASCII] using hnotall
    have hco : c = oldC := by
      by_contra hne
      rw [hkeep c hc hne] at hcna
      exact Bool.noConfusion hcna
    have hexcept : allASCIIExcept s.chars oldC = true :=
      (allASCIIExcept_iff _ _).mpr fun c hc =>
        if hne : c = oldC then .inr hne else .inl (hkeep c hc hne)
    have holdna : isASCII oldC = false := hco ▸ hcna
    rw [holdna, hexcept] at hrest
    exact Bool.noConfusion hrest

end Canonical

/-! ### The strings the runtime builds -/

/-- The strings the runtime builds: by `AllocFromUtf16` and `AllocFromModifiedUtf8` (JNI, the
dex cache, the intern table), and by the native methods of `java.lang.String` and
`java.lang.StringFactory` from strings built before, each with its caller's contract and the
`jint` range of its count. -/
inductive Reachable : String → Prop
  | empty : Reachable allocEmptyString
  | fromUtf16 {n : Nat} {data : List UInt16} (hn : n < 2 ^ 31) (hlen : n ≤ data.length) :
      Reachable (allocFromUtf16 n data)
  | fromModifiedUtf8 {qs : List Sequence} (after : List UInt8) (hs : ∀ q ∈ qs, q.Shortest)
      (hn : (qs.flatMap Sequence.units).length < 2 ^ 31) :
      Reachable (allocFromModifiedUtf8CString (bytesOf qs ++ 0 :: after))
  | newStringFromBytes {data : Option (List UInt8)} {high : UInt32} {offset byteCount : Int}
      {s : String} (hn : byteCount < 2 ^ 31)
      (h : StringFactory.newStringFromBytes data high offset byteCount = some s) : Reachable s
  | newStringFromChars {offset charCount : Nat} {data : List UInt16} (hn : charCount < 2 ^ 31)
      (hlen : offset + charCount ≤ data.length) :
      Reachable (StringFactory.newStringFromChars offset charCount data)
  | newStringFromString {s r : String} (hs : Reachable s)
      (h : StringFactory.newStringFromString (some s) = some r) : Reachable r
  | concat {s t r : String} (hs : Reachable s) (ht : Reachable t)
      (hlen : s.getLength + t.getLength < 2 ^ 31)
      (h : JavaLangString.concat s (some t) = some r) : Reachable r
  | fastSubstring {s : String} {start length : Nat} (hs : Reachable s)
      (hlen : start + length ≤ s.getLength) :
      Reachable (JavaLangString.fastSubstring s start length)
  | doReplace {s : String} {oldC : UInt16} (newC : UInt16) (hs : Reachable s)
      (hold : oldC ∈ s.chars) : Reachable (doReplace s oldC newC)

/-- What `String_concat` can return: `AllocFromStrings` of two non-empty strings, or the other
operand when one is empty. -/
theorem concat_eq_some {s t r : String} (h : JavaLangString.concat s (some t) = some r) :
    (0 < s.getLength ∧ 0 < t.getLength ∧ r = allocFromStrings s t) ∨
      (s.getLength = 0 ∧ r = t) ∨ (t.getLength = 0 ∧ r = s) := by
  simp only [JavaLangString.concat] at h
  split_ifs at h with hpos hthis
  · exact .inl ⟨hpos.2, hpos.1, (Option.some.inj h).symm⟩
  · exact .inr (.inl ⟨hthis, (Option.some.inj h).symm⟩)
  · exact .inr (.inr ⟨by omega, (Option.some.inj h).symm⟩)

theorem concat_spec {s t r : String} (hs : s.WellFormed) (ht : t.WellFormed)
    (hlen : s.getLength + t.getLength < 2 ^ 31) (h : JavaLangString.concat s (some t) = some r) :
    r.WellFormed ∧ r.chars = s.chars ++ t.chars := by
  have hnil : ∀ {u : String}, u.getLength = 0 → u.chars = [] := fun hu =>
    List.eq_nil_of_length_eq_zero (by rw [String.length_chars, hu])
  rcases concat_eq_some h with ⟨-, -, rfl⟩ | ⟨hzero, rfl⟩ | ⟨hzero, rfl⟩
  · obtain ⟨hwf, hchars, -⟩ := allocFromStrings_spec hs ht hlen
    exact ⟨hwf, hchars⟩
  · exact ⟨ht, by rw [hnil hzero, List.nil_append]⟩
  · exact ⟨hs, by rw [hnil hzero, List.append_nil]⟩

/-- `String_concat` never joins an empty half, so it keeps strings canonical. -/
theorem concat_canonical {s t r : String} (hs : s.WellFormed) (ht : t.WellFormed)
    (hsc : s.Canonical) (htc : t.Canonical) (hlen : s.getLength + t.getLength < 2 ^ 31)
    (h : JavaLangString.concat s (some t) = some r) : r.Canonical := by
  have hne : ∀ {u : String}, 0 < u.getLength → u.chars ≠ [] := fun hu hnil => by
    rw [← String.length_chars, hnil] at hu
    exact Nat.lt_irrefl 0 hu
  rcases concat_eq_some h with ⟨hspos, htpos, rfl⟩ | ⟨-, rfl⟩ | ⟨-, rfl⟩
  · exact allocFromStrings_canonical hs ht hsc htc (hne hspos) (hne htpos) hlen
  · exact htc
  · exact hsc

/-- Every string the runtime builds is well formed and canonical. -/
theorem Reachable.wellFormed_canonical {s : String} (h : Reachable s) :
    s.WellFormed ∧ s.Canonical := by
  induction h with
  | empty =>
    exact ⟨allocEmptyString_spec.1, fun hne => absurd allocEmptyString_spec.2.1 hne⟩
  | fromUtf16 hn hlen =>
    obtain ⟨hwf, hchars, hcomp⟩ := allocFromUtf16_spec hn hlen
    exact ⟨hwf, fun _ => by rw [hcomp, hchars]⟩
  | fromModifiedUtf8 after hs hn =>
    obtain ⟨hwf, hchars, hcomp⟩ := allocFromModifiedUtf8CString_spec _ hs after hn
    exact ⟨hwf, fun _ => by rw [hcomp, hchars]⟩
  | @newStringFromBytes data high offset byteCount s hn h =>
    -- past the bounds check, `AllocFromByteArray` on the region
    cases data with
    | none => exact absurd h (by simp [StringFactory.newStringFromBytes])
    | some data =>
      simp only [StringFactory.newStringFromBytes] at h
      split_ifs at h with hbad
      obtain rfl := Option.some.inj h
      have hlen : offset.toNat + byteCount.toNat ≤ data.length := by omega
      exact ⟨(allocFromByteArray_spec (by omega) high hlen).1,
        allocFromByteArray_canonical (by omega) high hlen⟩
  | newStringFromChars hn hlen =>
    unfold StringFactory.newStringFromChars
    obtain ⟨hwf, hchars, hcomp⟩ := allocFromCharArray_spec hn hlen
    exact ⟨hwf, fun _ => by rw [hcomp, hchars]⟩
  | @newStringFromString s r _ h ih =>
    simp only [StringFactory.newStringFromString, Option.map_some, Option.some.injEq] at h
    subst h
    obtain ⟨hwf, hchars, hcomp⟩ := @allocFromString_spec s.getLength 0 s ih.1 (by omega)
    exact ⟨hwf, fun _ => by rw [hcomp, hchars]⟩
  | concat _ _ hlen h ihs iht =>
    exact ⟨(concat_spec ihs.1 iht.1 hlen h).1, concat_canonical ihs.1 iht.1 ihs.2 iht.2 hlen h⟩
  | fastSubstring _ hlen ih =>
    obtain ⟨hwf, hchars, hcomp⟩ := allocFromString_spec ih.1 hlen
    exact ⟨hwf, fun _ => by rw [JavaLangString.fastSubstring, hcomp, hchars]⟩
  | doReplace newC _ hold ih =>
    exact ⟨(doReplace_spec ih.1 _ newC).1, doReplace_canonical ih.1 ih.2 newC hold⟩

namespace Reachable

variable {s t : String}

/-- Every string the runtime builds keeps its characters in the view its flag selects, holds
only ASCII characters when compressed, and, unless empty, is the string `AllocFromUtf16` builds
from its characters: its `count_` and data are fixed by the characters. -/
theorem canonical_representation (h : Reachable s) :
    s.WellFormed ∧ (s.isCompressed = true → allASCII s.chars = true) ∧
      (s.chars ≠ [] → s = allocFromUtf16 s.getLength s.chars) :=
  ⟨h.wellFormed_canonical.1, h.wellFormed_canonical.1.allASCII_of_isCompressed,
    h.wellFormed_canonical.1.eq_allocFromUtf16 h.wellFormed_canonical.2⟩

theorem canonical_representation_hi :
    Reachable (allocFromUtf16 2 [0x48, 0x69]) ∧
      (allocFromUtf16 2 [0x48, 0x69]).WellFormed ∧
      ((allocFromUtf16 2 [0x48, 0x69]).isCompressed = true →
        allASCII (allocFromUtf16 2 [0x48, 0x69]).chars = true) ∧
      ((allocFromUtf16 2 [0x48, 0x69]).chars ≠ [] →
        allocFromUtf16 2 [0x48, 0x69] = allocFromUtf16 (allocFromUtf16 2 [0x48, 0x69]).getLength
          (allocFromUtf16 2 [0x48, 0x69]).chars) :=
  ⟨.fromUtf16 (by decide) (by decide),
    canonical_representation (.fromUtf16 (by decide) (by decide))⟩

/-- The empty string is the exception: `new String(new byte[0], 1, 0, 0)` builds it uncompressed,
where `AllocEmptyString` builds it compressed. -/
theorem uncompressed_empty :
    Reachable ⟨getFlaggedCount 0 false, [], []⟩ ∧
      (⟨getFlaggedCount 0 false, [], []⟩ : String) ≠ allocEmptyString :=
  ⟨@newStringFromBytes (some []) 1 0 0 _ (by decide) (by decide), by decide⟩

/-- On two strings the runtime builds, the x86 `String.equals` intrinsic answers as
`String::Equals`, except on two empty strings with different flags, where it answers `false`. -/
theorem equalsIntrinsic_iff (hs : Reachable s) (ht : Reachable t) :
    equalsIntrinsic s (some t) = true ↔
      s.chars = t.chars ∧ (s.chars = [] → s.count = t.count) := by
  obtain ⟨hswf, hscan⟩ := hs.wellFormed_canonical
  obtain ⟨htwf, htcan⟩ := ht.wellFormed_canonical
  rw [equalsIntrinsic_eq hswf htwf, Bool.and_eq_true, beq_iff_eq, String.equals_iff]
  constructor
  · rintro ⟨hc, hchars⟩
    exact ⟨hchars, fun _ => hc⟩
  · rintro ⟨hchars, hempty⟩
    refine ⟨?_, hchars⟩
    by_cases hnil : s.chars = []
    · exact hempty hnil
    · -- non-empty: one object for the characters
      exact congrArg String.count
        (hswf.ext htwf (String.Canonical.isCompressed_eq hscan htcan hchars hnil) hchars)

/-- The two empty strings: `String::Equals` holds, the intrinsic answers `false`. -/
theorem equalsIntrinsic_iff_empty :
    Reachable allocEmptyString ∧ Reachable ⟨getFlaggedCount 0 false, [], []⟩ ∧
      (equalsIntrinsic allocEmptyString (some ⟨getFlaggedCount 0 false, [], []⟩) = true ↔
        allocEmptyString.chars = String.chars ⟨getFlaggedCount 0 false, [], []⟩ ∧
          (allocEmptyString.chars = [] →
            allocEmptyString.count = String.count ⟨getFlaggedCount 0 false, [], []⟩)) :=
  ⟨.empty, uncompressed_empty.1, equalsIntrinsic_iff .empty uncompressed_empty.1⟩

/-- Writing a string the runtime built out with `ToModifiedUtf8` and reading the terminated
bytes back with `AllocFromModifiedUtf8` gives the same `count_` and data; an empty string comes
back as `AllocEmptyString`'s. -/
theorem allocFromModifiedUtf8CString_toModifiedUtf8 (h : Reachable s) (after : List UInt8) :
    allocFromModifiedUtf8CString (s.toModifiedUtf8 ++ 0 :: after) =
      if s.chars = [] then allocEmptyString else s := by
  obtain ⟨hwf, hcan⟩ := h.wellFormed_canonical
  have hunits := flatMap_units_sequences s.chars
  obtain ⟨rwf, rchars, rcomp⟩ := allocFromModifiedUtf8CString_spec (sequences s.chars)
    (shortest_of_mem_sequences s.chars) after
    (by rw [hunits, String.length_chars]; exact s.getLength_lt)
  rw [hunits] at rchars rcomp
  rw [hwf.toModifiedUtf8_eq, mutf8_eq_bytesOf]
  split_ifs with hnil
  · obtain ⟨ewf, echars, ecomp⟩ := allocEmptyString_spec
    exact rwf.ext ewf (by rw [rcomp, ecomp, hnil]; rfl) (by rw [rchars, echars, hnil])
  · exact rwf.ext hwf (by rw [rcomp, hcan hnil]) rchars

theorem allocFromModifiedUtf8CString_toModifiedUtf8_hi :
    Reachable (allocFromUtf16 2 [0x48, 0x69]) ∧
      allocFromModifiedUtf8CString ((allocFromUtf16 2 [0x48, 0x69]).toModifiedUtf8 ++ [0]) =
        if (allocFromUtf16 2 [0x48, 0x69]).chars = [] then allocEmptyString
        else allocFromUtf16 2 [0x48, 0x69] :=
  ⟨.fromUtf16 (by decide) (by decide),
    allocFromModifiedUtf8CString_toModifiedUtf8 (.fromUtf16 (by decide) (by decide)) []⟩

end Reachable

/-- Every reader of a well formed string computes from its characters alone, whichever view
holds them: the hash code is Java's, `GetUtfLength` and `ToModifiedUtf8` are the length and
bytes of the characters' modified UTF-8, `ToCharArray` gives the characters, and `FastIndexOf`
is Java's `indexOf`. -/
theorem String.WellFormed.readers_eq {s : String} (h : s.WellFormed) (ch start : Int) :
    s.computeHashCode = computeUtf16Hash s.chars ∧ s.getUtfLength = countUtf8Bytes s.chars ∧
      s.toModifiedUtf8 = mutf8 s.chars ∧ s.toCharArray = s.chars ∧
      s.fastIndexOf ch start = javaIndexOf s.chars ch start :=
  ⟨h.computeHashCode_eq, h.getUtfLength_eq, h.toModifiedUtf8_eq, h.toCharArray_eq,
    h.fastIndexOf_eq ch start⟩

/-- `"€"`, uncompressed, searched for `€` from the start. -/
theorem readers_eq_euro :
    (allocFromUtf16 1 [0x20ac]).WellFormed ∧
      (allocFromUtf16 1 [0x20ac]).computeHashCode =
          computeUtf16Hash (allocFromUtf16 1 [0x20ac]).chars ∧
        (allocFromUtf16 1 [0x20ac]).getUtfLength = countUtf8Bytes (allocFromUtf16 1 [0x20ac]).chars ∧
        (allocFromUtf16 1 [0x20ac]).toModifiedUtf8 = mutf8 (allocFromUtf16 1 [0x20ac]).chars ∧
        (allocFromUtf16 1 [0x20ac]).toCharArray = (allocFromUtf16 1 [0x20ac]).chars ∧
        (allocFromUtf16 1 [0x20ac]).fastIndexOf 0x20ac 0 =
          javaIndexOf (allocFromUtf16 1 [0x20ac]).chars 0x20ac 0 :=
  ⟨(allocFromUtf16_spec (by decide) (by decide)).1,
    String.WellFormed.readers_eq (allocFromUtf16_spec (by decide) (by decide)).1 0x20ac 0⟩

/-- The native methods of `java.lang.String` compute on the characters what Java specifies:
`concat` joins them, `fastSubstring` takes the range, `doReplace` replaces every `old_c` by
`new_c`, and `StringFactory.newStringFromString` copies them. -/
theorem nativeMethods_chars {s t : String} (hs : s.WellFormed) (ht : t.WellFormed) :
    (∀ r, s.getLength + t.getLength < 2 ^ 31 → JavaLangString.concat s (some t) = some r →
      r.chars = s.chars ++ t.chars) ∧
    (∀ start length, start + length ≤ s.getLength →
      (JavaLangString.fastSubstring s start length).chars = (s.chars.drop start).take length) ∧
    (∀ oldC newC, (doReplace s oldC newC).chars =
      s.chars.map fun c => if c = oldC then newC else c) ∧
    (StringFactory.newStringFromString (some s)).map String.chars = some s.chars := by
  refine ⟨fun r hlen h => (concat_spec hs ht hlen h).2,
    fun start length hlen => (allocFromString_spec hs hlen).2.1,
    fun oldC newC => (doReplace_spec hs oldC newC).2.1, ?_⟩
  -- a copy is the substring from `0` of the whole length
  rw [StringFactory.newStringFromString, Option.map_some, Option.map_some,
    (@allocFromString_spec s.getLength 0 s hs (by omega)).2.1, List.drop_zero,
    List.take_of_length_le (by rw [String.length_chars])]

theorem nativeMethods_chars_mixed :
    (allocFromUtf16 1 [0x41]).WellFormed ∧ (allocFromUtf16 1 [0xe9]).WellFormed ∧
    (∀ r, (allocFromUtf16 1 [0x41]).getLength + (allocFromUtf16 1 [0xe9]).getLength < 2 ^ 31 →
      JavaLangString.concat (allocFromUtf16 1 [0x41]) (some (allocFromUtf16 1 [0xe9])) = some r →
      r.chars = (allocFromUtf16 1 [0x41]).chars ++ (allocFromUtf16 1 [0xe9]).chars) ∧
    (∀ start length, start + length ≤ (allocFromUtf16 1 [0x41]).getLength →
      (JavaLangString.fastSubstring (allocFromUtf16 1 [0x41]) start length).chars =
        ((allocFromUtf16 1 [0x41]).chars.drop start).take length) ∧
    (∀ oldC newC, (doReplace (allocFromUtf16 1 [0x41]) oldC newC).chars =
      (allocFromUtf16 1 [0x41]).chars.map fun c => if c = oldC then newC else c) ∧
    (StringFactory.newStringFromString (some (allocFromUtf16 1 [0x41]))).map String.chars =
      some (allocFromUtf16 1 [0x41]).chars :=
  ⟨(allocFromUtf16_spec (by decide) (by decide)).1, (allocFromUtf16_spec (by decide) (by decide)).1,
    nativeMethods_chars (allocFromUtf16_spec (by decide) (by decide)).1
      (allocFromUtf16_spec (by decide) (by decide)).1⟩

end AndroidArt.Mirror
