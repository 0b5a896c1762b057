/-
Module: AndroidArt.Mirror.String
Purpose: `mirror::String` with string compression (runtime/mirror/string.{h,cc}, string-inl.h,
  string-alloc-inl.h): `count_`, the length shifted left with the compression flag in bit 0; the
  characters, bytes while the flag says compressed and UTF-16 units otherwise; the allocation
  paths `AllocEmptyString`, `AllocFromUtf16`, `AllocFromModifiedUtf8`, `AllocFromByteArray`,
  `AllocFromCharArray`, `AllocFromString`, `AllocFromStrings` and `DoReplace`, each with its own
  test of compressibility and its own visitor; the readers `CharAt`, `Equals`, `CompareTo`,
  `GetUtfLength`, `ToModifiedUtf8`, `ComputeHashCode`, `ToCharArray` and `FastIndexOf`; the
  native methods of `java.lang.String` and `java.lang.StringFactory` that call them; and the x86
  `String.equals` intrinsic, which compares `count_` and then the zero-padded data areas word by
  word.
Trusted boundary: the heap allocation succeeds (an `int32_t` length never reaches the overflow
  bound of `String::Alloc` on a 64-bit target). The data area is held as the view the flag
  selects, the other view empty: no modelled code reads the view the flag does not select.
  `MemCmp16` is its generic C loop. The reference-equality tests of `Equals`, `CompareTo` and the
  intrinsic are left out: on one object they answer as the comparison of its characters with
  themselves does. The intrinsic's argument is a string or null (its class check).
Main exports: String, isASCII, getFlaggedCount, String.charAt
-/
import Mathlib
import AndroidArt.Lib.BitField
import AndroidArt.Lib.CString
import AndroidArt.Lib.LittleEndian
import AndroidArt.Dex.UtfConvert

namespace AndroidArt.Mirror

open AndroidArt.Lib AndroidArt.Dex

/-! ### The count field -/

/-- `kUseStringCompression`. -/
def kUseStringCompression : Bool := true

theorem kUseStringCompression_eq : kUseStringCompression = true := rfl

/-- `StringCompressionFlag`, the low bit of `count_`. -/
inductive StringCompressionFlag where
  | kCompressed
  | kUncompressed
deriving DecidableEq, Repr

/-- The value of a flag in `count_`. -/
def StringCompressionFlag.bits : StringCompressionFlag → UInt32
  | .kCompressed => 0
  | .kUncompressed => 1

/-- `String::IsASCII(c)`: `(c - 1u) < 0x7fu` in 32-bit unsigned arithmetic, so that `0` is not
ASCII. -/
def isASCII (c : UInt16) : Bool := c.toUInt32 - 1 < 0x7f

/-- `String::AllASCII(chars, length)`. -/
def allASCII (chars : List UInt16) : Bool := chars.all isASCII

/-- `String::AllASCIIExcept(chars, length, non_ascii)`. -/
def allASCIIExcept (chars : List UInt16) (nonAscii : UInt16) : Bool :=
  chars.all fun c => isASCII c || c == nonAscii

/-- `String::GetCompressionFlagFromCount(count)`. -/
def getCompressionFlagFromCount (count : UInt32) : StringCompressionFlag :=
  if kUseStringCompression then
    if count &&& 1 = 0 then .kCompressed else .kUncompressed
  else .kUncompressed

/-- `String::IsCompressed(count)`. -/
def isCompressedCount (count : UInt32) : Bool :=
  getCompressionFlagFromCount count == .kCompressed

/-- `String::GetLengthFromCount(count)`. -/
def getLengthFromCount (count : UInt32) : Nat :=
  if kUseStringCompression then (count >>> 1).toNat else count.toNat

/-- `String::GetFlaggedCount(length, compressible)`. -/
def getFlaggedCount (length : Nat) (compressible : Bool) : UInt32 :=
  if kUseStringCompression then
    (UInt32.ofNat length <<< 1) |||
      (if compressible then StringCompressionFlag.kCompressed else .kUncompressed).bits
  else UInt32.ofNat length

/-! ### The string object -/

/-- `mirror::String`: `count_`, and the data area read as `value_compressed_` bytes or as
`value_` units. -/
structure String where
  count : UInt32
  valueCompressed : List UInt8
  value : List UInt16
deriving DecidableEq, Repr

namespace String

/-- `String::IsCompressed()`. -/
def isCompressed (s : String) : Bool := kUseStringCompression && isCompressedCount s.count

/-- `String::GetLength()`. -/
def getLength (s : String) : Nat := getLengthFromCount s.count

/-- `String::CharAt(index)`: an index out of range throws `StringIndexOutOfBoundsException` and
returns `0`. -/
def charAt (s : String) (index : Nat) : UInt16 :=
  if index ≥ s.getLength then 0
  else if s.isCompressed then (s.valueCompressed.getD index 0).toUInt16
  else s.value.getD index 0

/-- The characters of the string, as `CharAt` reads them. -/
def chars (s : String) : List UInt16 := (List.range s.getLength).map s.charAt

end String

/-! ### The allocation paths

Each path computes `compressible`, allocates with `GetFlaggedCount(length, compressible)`, and
its visitor (or the code after `Alloc`) writes the view the flag selects. -/

/-- `AllocEmptyString`. -/
def allocEmptyString : String := ⟨getFlaggedCount 0 true, [], []⟩

/-- `AllocFromUtf16(utf16_length, utf16_data_in)`. -/
def allocFromUtf16 (utf16Length : Nat) (utf16DataIn : List UInt16) : String :=
  let units := utf16DataIn.take utf16Length
  let compressible := kUseStringCompression && allASCII units
  let lengthWithFlag := getFlaggedCount utf16Length compressible
  if compressible then ⟨lengthWithFlag, units.map UInt16.toUInt8, []⟩
  else ⟨lengthWithFlag, [], units⟩

/-- `AllocFromModifiedUtf8(utf16_length, utf8_data_in, utf8_length)`: as many units as bytes
makes the string compressible, and its bytes are copied. -/
def allocFromModifiedUtf8 (utf16Length : Nat) (utf8DataIn : List UInt8) (utf8Length : Nat) :
    String :=
  let compressible := kUseStringCompression && utf16Length == utf8Length
  let lengthWithFlag := getFlaggedCount utf16Length compressible
  if compressible then ⟨lengthWithFlag, utf8DataIn.take utf16Length, []⟩
  else ⟨lengthWithFlag, [], convertModifiedUtf8ToUtf16 utf16Length utf8DataIn utf8Length⟩

/-- `AllocFromByteArray(byte_length, array, offset, high_byte)` with
`SetStringCountAndBytesVisitor`: each character is `high_byte << 8` plus a byte. -/
def allocFromByteArray (byteLength : Nat) (array : List UInt8) (offset : Nat)
    (highByte : UInt32) : String :=
  let src := array.drop offset
  let highByte := highByte &&& 0xff
  let compressible :=
    kUseStringCompression && allASCII ((src.take byteLength).map UInt8.toUInt16) && highByte == 0
  let lengthWithFlag := getFlaggedCount byteLength compressible
  let length := getLengthFromCount lengthWithFlag
  if kUseStringCompression && isCompressedCount lengthWithFlag then
    ⟨lengthWithFlag, (src.take length).map (· &&& 0xff), []⟩
  else
    ⟨lengthWithFlag, [], (src.take length).map fun b =>
      (highByte <<< 8).toUInt16 + (b &&& 0xff).toUInt16⟩

/-- `AllocFromCharArray(count, array, offset)` with
`SetStringCountAndValueVisitorFromCharArray`. -/
def allocFromCharArray (count : Nat) (array : List UInt16) (offset : Nat) : String :=
  let src := array.drop offset
  let compressible := kUseStringCompression && allASCII (src.take count)
  let lengthWithFlag := getFlaggedCount count compressible
  let length := getLengthFromCount lengthWithFlag
  if kUseStringCompression && isCompressedCount lengthWithFlag then
    ⟨lengthWithFlag, (src.take length).map UInt16.toUInt8, []⟩
  else ⟨lengthWithFlag, [], src.take length⟩

/-- `AllocFromString(string_length, string, offset)` with
`SetStringCountAndValueVisitorFromString`: a compressed source is copied byte for byte. -/
def allocFromString (stringLength : Nat) (string : String) (offset : Nat) : String :=
  let compressible := kUseStringCompression &&
    (if string.isCompressed then true
      else allASCII ((string.value.drop offset).take stringLength))
  let lengthWithFlag := getFlaggedCount stringLength compressible
  let length := getLengthFromCount lengthWithFlag
  let compressible := kUseStringCompression && isCompressedCount lengthWithFlag
  if string.isCompressed then ⟨lengthWithFlag, (string.valueCompressed.drop offset).take length, []⟩
  else if compressible then
    ⟨lengthWithFlag, ((string.value.drop offset).take length).map UInt16.toUInt8, []⟩
  else ⟨lengthWithFlag, [], (string.value.drop offset).take length⟩

/-- `AllocFromStrings(string, string2)`: compressible when both halves are compressed. -/
def allocFromStrings (string string2 : String) : String :=
  let length := string.getLength
  let length2 := string2.getLength
  let compressible := kUseStringCompression && (string.isCompressed && string2.isCompressed)
  let lengthWithFlag := getFlaggedCount (length + length2) compressible
  if compressible then
    ⟨lengthWithFlag, string.valueCompressed.take length ++ string2.valueCompressed.take length2, []⟩
  else
    -- a compressed half is widened through `CharAt`, an uncompressed one copied
    let first :=
      if string.isCompressed then (List.range length).map string.charAt
      else string.value.take length
    let second :=
      if string2.isCompressed then (List.range length2).map string2.charAt
      else string2.value.take length2
    ⟨lengthWithFlag, [], first ++ second⟩

/-- `DoReplace(src, old_c, new_c)`, called with `old_c` in `src`: compressible when the new
character is ASCII and every other one already was. -/
def doReplace (src : String) (oldC newC : UInt16) : String :=
  let length := src.getLength
  let compressible := kUseStringCompression && isASCII newC &&
    (src.isCompressed || (!isASCII oldC && allASCIIExcept (src.value.take length) oldC))
  let lengthWithFlag := getFlaggedCount length compressible
  let replace := fun c : UInt16 => if oldC ≠ c then c else newC
  if compressible then
    let out :=
      if src.isCompressed then (src.valueCompressed.take length).map fun c => (replace c.toUInt16).toUInt8
      else (src.value.take length).map fun c => (replace c).toUInt8
    ⟨lengthWithFlag, out, []⟩
  else
    let out :=
      if src.isCompressed then (src.valueCompressed.take length).map fun c => replace c.toUInt16
      else (src.value.take length).map replace
    ⟨lengthWithFlag, [], out⟩

/-! ### Comparisons -/

/-- The loop of `CompareTo`'s compressed branches and of the generic `MemCmp16`: the difference
at the first of `count` positions where the two differ, `0` where none does. -/
def charDiff : Nat → List Nat → List Nat → Int
  | 0, _, _ => 0
  | count + 1, as, bs =>
    let diff : Int := (as.headD 0 : Int) - bs.headD 0
    if diff ≠ 0 then diff else charDiff count as.tail bs.tail

/-- `MemCmp16(s0, s1, count)`, its generic C loop. -/
def memCmp16 (s0 s1 : List UInt16) (count : Nat) : Int :=
  charDiff count (s0.map UInt16.toNat) (s1.map UInt16.toNat)

namespace String

/-- `String::Equals(that)`, `none` the null reference. -/
def equals (self : String) (that : Option String) : Bool :=
  match that with
  | none => false
  | some that =>
    if self.getLength ≠ that.getLength then false
    else (List.range that.getLength).all fun i => self.charAt i == that.charAt i

/-- `String::CompareTo(rhs)`: one loop for two compressed strings, one for a compressed and an
uncompressed one (its difference negated when the uncompressed one is on the left), and
`MemCmp16` for two uncompressed ones. -/
def compareTo (lhs rhs : String) : Int :=
  let lhsCount := lhs.getLength
  let rhsCount := rhs.getLength
  let countDiff : Int := (lhsCount : Int) - rhsCount
  let minCount := if countDiff < 0 then lhsCount else rhsCount
  if lhs.isCompressed && rhs.isCompressed then
    let diff := charDiff minCount (lhs.valueCompressed.map UInt8.toNat)
      (rhs.valueCompressed.map UInt8.toNat)
    if diff ≠ 0 then diff else countDiff
  else if lhs.isCompressed || rhs.isCompressed then
    let compressedChars := if lhs.isCompressed then lhs.valueCompressed else rhs.valueCompressed
    let uncompressedChars := if lhs.isCompressed then rhs.value else lhs.value
    let diff := charDiff minCount (compressedChars.map UInt8.toNat)
      (uncompressedChars.map UInt16.toNat)
    if diff ≠ 0 then (if lhs.isCompressed then diff else -diff) else countDiff
  else
    let diff := memCmp16 lhs.value rhs.value minCount
    if diff ≠ 0 then diff else countDiff

end String

/-- `java.lang.String.compareTo` on the characters: the difference of the first two that
differ, else the difference of the lengths. -/
def javaCompareTo : List UInt16 → List UInt16 → Int
  | [], ys => -(ys.length : Int)
  | xs, [] => xs.length
  | x :: xs, y :: ys => if x = y then javaCompareTo xs ys else (x.toNat : Int) - y.toNat

/-- `java.lang.String.indexOf(ch, fromIndex)` on the characters for a `ch` below `0x10000`, the
case `FastIndexOf` serves: the first index from `fromIndex` on (from `0` when it is negative)
holding `ch`, else `-1`. -/
def javaIndexOf (cs : List UInt16) (ch fromIndex : Int) : Int :=
  match (cs.drop fromIndex.toNat).findIdx? (fun c => (c.toNat : Int) == ch) with
  | some i => (fromIndex.toNat + i : Nat)
  | none => -1

/-! ### Reading a string out -/

namespace String

/-- `String::GetUtfLength()`: the length of the modified UTF-8 form. -/
def getUtfLength (s : String) : Nat :=
  if s.isCompressed then s.getLength else countUtf8Bytes (s.value.take s.getLength)

/-- `String::ToModifiedUtf8()`: a compressed string's characters are its bytes, each cast to
`char`. -/
def toModifiedUtf8 (s : String) : List UInt8 :=
  let byteCount := s.getUtfLength
  if s.isCompressed then (List.range byteCount).map fun i => (s.charAt i).toUInt8
  else convertUtf16ToModifiedUtf8 byteCount (s.value.take s.getLength)

/-- `String::ComputeHashCode()`: `ComputeUtf16Hash` over the view the flag selects, bytes taken
at their value. -/
def computeHashCode (s : String) : Int :=
  if s.isCompressed then
    computeUtf16Hash ((s.valueCompressed.take s.getLength).map UInt8.toUInt16)
  else computeUtf16Hash (s.value.take s.getLength)

/-- `String::ToCharArray(self)`, the array allocated. -/
def toCharArray (s : String) : List UInt16 :=
  if s.isCompressed then (List.range s.getLength).map s.charAt
  else s.value.take s.getLength

end String

/-- The loop of `String::FastIndexOf<MemoryType>(chars, ch, start)` from position `p`: the first
position whose element equals `ch`, compared as `int32_t`, and `-1` at the end. -/
def fastIndexOfLoop (ch : Int) : List Nat → Nat → Int
  | [], _ => -1
  | c :: cs, p => if (c : Int) = ch then p else fastIndexOfLoop ch cs (p + 1)

namespace String

/-- `String::FastIndexOf(ch, start)`: `start` clamped to `0..count`, then the loop over the view
the flag selects. -/
def fastIndexOf (s : String) (ch start : Int) : Int :=
  let count := s.getLength
  let start : Nat := if start < 0 then 0 else if start > count then count else start.toNat
  if s.isCompressed then
    fastIndexOfLoop ch (((s.valueCompressed.take count).drop start).map UInt8.toNat) start
  else fastIndexOfLoop ch (((s.value.take count).drop start).map UInt16.toNat) start

end String

/-- `AllocFromModifiedUtf8(self, utf)`: the bytes before the terminator, and as many units as
`CountModifiedUtf8Chars` counts in them. -/
def allocFromModifiedUtf8CString (utf : List UInt8) : String :=
  let byteCount := CString.nulFrom utf 0
  let charCount := countModifiedUtf8Chars utf byteCount
  allocFromModifiedUtf8 charCount utf byteCount

/-! ### The native methods of `java.lang.String` and `java.lang.StringFactory`

A `none` result is a thrown `NullPointerException` or `StringIndexOutOfBoundsException`. -/

namespace JavaLangString

/-- `String_concat(java_this, java_string_arg)`: an empty operand gives back the other one. -/
def concat (stringThis : String) (javaStringArg : Option String) : Option String :=
  match javaStringArg with
  | none => none
  | some stringArg =>
    let lengthThis := stringThis.getLength
    let lengthArg := stringArg.getLength
    if lengthArg > 0 ∧ lengthThis > 0 then some (allocFromStrings stringThis stringArg)
    else some (if lengthThis = 0 then stringArg else stringThis)

/-- `String_fastSubstring(java_this, start, length)`, bounds checked by its caller. -/
def fastSubstring (stringThis : String) (start length : Nat) : String :=
  allocFromString length stringThis start

end JavaLangString

namespace StringFactory

/-- `StringFactory_newStringFromBytes(java_data, high, offset, byte_count)`. -/
def newStringFromBytes (javaData : Option (List UInt8)) (high : UInt32) (offset byteCount : Int) :
    Option String :=
  match javaData with
  | none => none
  | some data =>
    let dataSize : Int := data.length
    -- `(offset | byte_count) < 0`: one of them is negative
    if offset < 0 ∨ byteCount < 0 ∨ byteCount > dataSize - offset then none
    else some (allocFromByteArray byteCount.toNat data offset.toNat high)

/-- `StringFactory_newStringFromChars(offset, char_count, java_data)`, bounds checked by its
caller. -/
def newStringFromChars (offset charCount : Nat) (data : List UInt16) : String :=
  allocFromCharArray charCount data offset

/-- `StringFactory_newStringFromString(to_copy)`. -/
def newStringFromString (toCopy : Option String) : Option String :=
  toCopy.map fun string => allocFromString string.getLength string 0

end StringFactory

/-! ### The x86 `String.equals` intrinsic -/

/-- The data area of a string as bytes: the bytes of a compressed string, the units of an
uncompressed one low byte first. -/
def dataBytes (s : String) : List UInt8 :=
  if s.isCompressed then s.valueCompressed.take s.getLength
  else (s.value.take s.getLength).flatMap fun u => LittleEndian.toBytes 2 u.toNat

/-- The data area as the intrinsic reads it: followed by zeros up to `kObjectAlignment` (8),
which `String::Alloc` has the allocator clear. -/
def paddedData (s : String) : List UInt8 :=
  dataBytes s ++ List.replicate ((8 - (dataBytes s).length % 8) % 8) 0

/-- What the code `IntrinsicCodeGeneratorX86::VisitStringEquals` emits computes, on a string
receiver and an argument that is a string or null: equal `count_` fields, then `repe cmpsl` over
the data areas, two units (or four bytes) a word. -/
def equalsIntrinsic (str : String) (arg : Option String) : Bool :=
  match arg with
  | none => false
  | some arg =>
    if str.count ≠ arg.count then false
    -- `jecxz`: `count_ == 0` is the compressed empty string
    else if str.count = 0 then true
    else
      let count := str.count.toNat
      -- `shrl ecx, 1` leaves the flag in the carry; a compressed length is halved, rounding up,
      -- and then counted as units
      let units :=
        if kUseStringCompression then
          if count % 2 = 1 then count / 2 else (count / 2 + 1) / 2
        else count
      let words := (units + 1) / 2
      (paddedData str).take (4 * words) == (paddedData arg).take (4 * words)

/-! ### The count field as numbers -/

section Count

theorem isASCII_iff (c : UInt16) : isASCII c = true ↔ 0 < c.toNat ∧ c.toNat ≤ 0x7f := by
  have hc := c.toNat_lt
  simp [isASCII, UInt32.lt_iff_toNat_lt, UInt32.toNat_sub]
  omega

theorem allASCII_iff (cs : List UInt16) :
    allASCII cs = true ↔ ∀ c ∈ cs, 0 < c.toNat ∧ c.toNat ≤ 0x7f := by
  simp only [allASCII, List.all_eq_true, isASCII_iff]

theorem toNat_getFlaggedCount {n : Nat} (h : n < 2 ^ 31) (b : Bool) :
    (getFlaggedCount n b).toNat = n * 2 + if b then 0 else 1 := by
  have hn : (UInt32.ofNat n).toNat = n := UInt32.toNat_ofNat_of_lt' (lt_of_lt_of_le h (by decide))
  have hflag : (if b then StringCompressionFlag.kCompressed else .kUncompressed).bits.toNat =
      if b then 0 else 1 := by
    cases b <;> rfl
  rw [getFlaggedCount, if_pos kUseStringCompression_eq, UInt32.toNat_or, UInt32.toNat_shiftLeft, hn, hflag,
    show UInt32.toNat 1 % 32 = 1 from rfl, Nat.mod_eq_of_lt (by rw [Nat.shiftLeft_eq]; omega),
    shiftLeft_or_of_lt n (by cases b <;> decide), pow_one]

theorem getLengthFromCount_eq (count : UInt32) : getLengthFromCount count = count.toNat / 2 := by
  rw [getLengthFromCount, if_pos kUseStringCompression_eq, UInt32.toNat_shiftRight,
    Nat.shiftRight_eq_div_pow]
  rfl

theorem isCompressedCount_iff (count : UInt32) :
    isCompressedCount count = true ↔ count.toNat % 2 = 0 := by
  have hand : (count &&& 1).toNat = count.toNat % 2 := by
    rw [UInt32.toNat_and]
    exact Nat.and_one_is_mod _
  have hzero : count &&& 1 = 0 ↔ (count &&& 1).toNat = 0 := by
    rw [← UInt32.toNat_inj]
    rfl
  simp only [isCompressedCount, getCompressionFlagFromCount, kUseStringCompression_eq, if_true,
    hzero, hand]
  split_ifs <;> simp_all

@[simp] theorem getLengthFromCount_getFlaggedCount {n : Nat} (h : n < 2 ^ 31) (b : Bool) :
    getLengthFromCount (getFlaggedCount n b) = n := by
  rw [getLengthFromCount_eq, toNat_getFlaggedCount h]
  split <;> omega

@[simp] theorem isCompressedCount_getFlaggedCount {n : Nat} (h : n < 2 ^ 31) (b : Bool) :
    isCompressedCount (getFlaggedCount n b) = b := by
  rw [Bool.eq_iff_iff, isCompressedCount_iff, toNat_getFlaggedCount h]
  cases b <;> simp

end Count

namespace String

variable (s : String)

theorem getLength_lt : s.getLength < 2 ^ 31 := by
  have := s.count.toNat_lt
  rw [getLength, getLengthFromCount_eq]
  omega

/-- `count_` is the length and the flag, which is what `GetFlaggedCount` of them gives. -/
theorem count_eq : s.count = getFlaggedCount s.getLength s.isCompressed := by
  apply UInt32.toNat_inj.mp
  have hflag := isCompressedCount_iff s.count
  rw [toNat_getFlaggedCount s.getLength_lt, getLength, getLengthFromCount_eq, isCompressed,
    kUseStringCompression_eq, Bool.true_and]
  cases h : isCompressedCount s.count
  · simp only [h, Bool.false_eq_true, false_iff, if_false] at hflag ⊢
    omega
  · simp only [h, true_iff, if_true] at hflag ⊢
    omega

@[simp] theorem getLength_mk {n : Nat} (h : n < 2 ^ 31) (b : Bool) (x : List UInt8)
    (y : List UInt16) : (String.mk (getFlaggedCount n b) x y).getLength = n :=
  getLengthFromCount_getFlaggedCount h b

@[simp] theorem isCompressed_mk {n : Nat} (h : n < 2 ^ 31) (b : Bool) (x : List UInt8)
    (y : List UInt16) : (String.mk (getFlaggedCount n b) x y).isCompressed = b := by
  rw [isCompressed, isCompressedCount_getFlaggedCount h, kUseStringCompression_eq, Bool.true_and]

@[simp] theorem length_chars : s.chars.length = s.getLength := by
  rw [chars, List.length_map, List.length_range]

/-- A compressed string with as many bytes as characters reads its bytes, widened. -/
theorem chars_of_isCompressed (hc : s.isCompressed = true)
    (hlen : s.valueCompressed.length = s.getLength) :
    s.chars = s.valueCompressed.map UInt8.toUInt16 := by
  apply List.ext_getElem (by simp [hlen])
  intro i hi _
  have hi' : i < s.getLength := by simpa using hi
  have hv : i < s.valueCompressed.length := by omega
  simp [chars, charAt, hc, Nat.not_le.mpr hi', List.getElem?_eq_getElem hv]

/-- An uncompressed string with as many units as characters reads its units. -/
theorem chars_of_not_isCompressed (hc : s.isCompressed = false)
    (hlen : s.value.length = s.getLength) : s.chars = s.value := by
  apply List.ext_getElem (by simp [hlen])
  intro i hi _
  have hi' : i < s.getLength := by simpa using hi
  have hv : i < s.value.length := by omega
  simp [chars, charAt, hc, Nat.not_le.mpr hi', List.getElem?_eq_getElem hv]

end String

end AndroidArt.Mirror
