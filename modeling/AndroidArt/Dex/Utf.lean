/-
Module: AndroidArt.Dex.Utf
Purpose: Modified UTF-8 as `libdexfile/dex/utf.cc` and `utf-inl.h` write and compare it:
  `ConvertUtf16ToModifiedUtf8` (a properly paired surrogate as one four-byte sequence, every
  other unit, `0` included, as a one-, two- or three-byte sequence, with the all-ASCII fast path
  sized by `CountUtf8Bytes`), `GetUtf16FromUtf8` (a four-byte sequence decodes to a surrogate
  pair packed in one `uint32_t`), and the two comparisons by UTF-16 code unit:
  `CompareModifiedUtf8ToUtf16AsCodePointValues` agrees in sign with the lexicographic order of
  the units for every string, while `CompareModifiedUtf8ToModifiedUtf8AsUtf16CodePointValues`
  compares a pair's trailing unit against `0` where the other string holds an unpaired leading
  surrogate, and orders the two strings the wrong way round when the unit after it is `0xE000` or
  above.
Trusted boundary: a NUL-terminated byte string is the list of its bytes before the terminator;
  reading at the terminator yields `0` and stays there (the source reads on past it, which only a
  malformed, truncated sequence does). `static_cast<int>` of a `uint32_t` wraps.
Main exports: convertUtf16ToModifiedUtf8, countUtf8Bytes, getUtf16FromUtf8,
  compareModifiedUtf8ToModifiedUtf8AsUtf16CodePointValues
-/
import AndroidArt.Lib.BitField
import AndroidArt.Lib.MachineInt

namespace AndroidArt.Dex

open AndroidArt.Lib

/-! ### Writing -/

/-- A unit as `ConvertUtf16ToModifiedUtf8` writes it when it is not an ASCII character and not
the leading half of a pair: three bytes above `0x7ff`, two below (`0` among them). -/
def encodeUnit (ch : UInt16) : List UInt8 :=
  if ch.toNat > 0x07ff then
    [UInt8.ofNat ((ch.toNat >>> 12) ||| 0xe0), UInt8.ofNat (((ch.toNat >>> 6) &&& 0x3f) ||| 0x80),
      UInt8.ofNat ((ch.toNat &&& 0x3f) ||| 0x80)]
  else
    [UInt8.ofNat ((ch.toNat >>> 6) ||| 0xc0), UInt8.ofNat ((ch.toNat &&& 0x3f) ||| 0x80)]

/-- A surrogate pair as one four-byte sequence of its code point. -/
def encodePair (ch ch2 : UInt16) : List UInt8 :=
  let codePoint := (ch.toNat <<< 10) + ch2.toNat - 0x035fdc00
  [UInt8.ofNat ((codePoint >>> 18) ||| 0xf0), UInt8.ofNat (((codePoint >>> 12) &&& 0x3f) ||| 0x80),
    UInt8.ofNat (((codePoint >>> 6) &&& 0x3f) ||| 0x80), UInt8.ofNat ((codePoint &&& 0x3f) ||| 0x80)]

/-- A leading surrogate, `0xd800` to `0xdbff`. -/
def isLeadingSurrogate (ch : UInt16) : Bool := 0xd800 ≤ ch.toNat && ch.toNat ≤ 0xdbff

/-- A trailing surrogate, `0xdc00` to `0xdfff`. -/
def isTrailingSurrogate (ch : UInt16) : Bool := 0xdc00 ≤ ch.toNat && ch.toNat ≤ 0xdfff

/-- The general loop of `ConvertUtf16ToModifiedUtf8`; a unit is looked at together with the
next one, which a leading surrogate may pair with. -/
def convertUtf16ToModifiedUtf8Loop : List UInt16 → List UInt8
  | [] => []
  | [ch] =>
    if ch.toNat > 0 ∧ ch.toNat ≤ 0x7f then [UInt8.ofNat ch.toNat]
    -- `char_count == 0`: a leading surrogate at the end is unpaired
    else encodeUnit ch
  | ch :: ch2 :: rest =>
    if ch.toNat > 0 ∧ ch.toNat ≤ 0x7f then
      UInt8.ofNat ch.toNat :: convertUtf16ToModifiedUtf8Loop (ch2 :: rest)
    else if isLeadingSurrogate ch ∧ isTrailingSurrogate ch2 then
      encodePair ch ch2 ++ convertUtf16ToModifiedUtf8Loop rest
    else encodeUnit ch ++ convertUtf16ToModifiedUtf8Loop (ch2 :: rest)

/-- `ConvertUtf16ToModifiedUtf8(utf8_out, byte_count, utf16_in, char_count)`: when the byte
count is the unit count every unit is ASCII and is copied; otherwise the general loop. -/
def convertUtf16ToModifiedUtf8 (byteCount : Nat) (utf16 : List UInt16) : List UInt8 :=
  if byteCount = utf16.length then utf16.map (fun ch => UInt8.ofNat ch.toNat)
  else convertUtf16ToModifiedUtf8Loop utf16

/-- `CountUtf8Bytes`: the size of the modified UTF-8 encoding. -/
def countUtf8Bytes : List UInt16 → Nat
  | [] => 0
  | [ch] =>
    if ch.toNat ≠ 0 ∧ ch.toNat < 0x80 then 1
    else if ch.toNat < 0x800 then 2
    else 3
  | ch :: ch2 :: rest =>
    if ch.toNat ≠ 0 ∧ ch.toNat < 0x80 then countUtf8Bytes (ch2 :: rest) + 1
    else if ch.toNat < 0x800 then countUtf8Bytes (ch2 :: rest) + 2
    else if (0xd800 ≤ ch.toNat ∧ ch.toNat < 0xdc00) ∧ (0xdc00 ≤ ch2.toNat ∧ ch2.toNat < 0xe000) then
      countUtf8Bytes rest + 4
    else countUtf8Bytes (ch2 :: rest) + 3

/-- The modified UTF-8 bytes the runtime writes for a string: `ConvertUtf16ToModifiedUtf8`
sized by `CountUtf8Bytes`, before the terminating NUL. -/
def mutf8 (utf16 : List UInt16) : List UInt8 :=
  convertUtf16ToModifiedUtf8 (countUtf8Bytes utf16) utf16

/-! ### Reading -/

/-- `*(*utf8_data_in)++` on a NUL-terminated string. -/
def nextByte : List UInt8 → UInt8 × List UInt8
  | [] => (0, [])
  | b :: s => (b, s)

/-- `GetUtf16FromUtf8`: one, two or three bytes give one unit; four bytes give a surrogate
pair, the leading unit in the low and the trailing one in the high 16 bits. -/
def getUtf16FromUtf8 (s : List UInt8) : Nat × List UInt8 :=
  let (one, s) := nextByte s
  if one.toNat &&& 0x80 = 0 then (one.toNat, s)
  else
    let (two, s) := nextByte s
    if one.toNat &&& 0x20 = 0 then (((one.toNat &&& 0x1f) <<< 6) ||| (two.toNat &&& 0x3f), s)
    else
      let (three, s) := nextByte s
      if one.toNat &&& 0x10 = 0 then
        (((one.toNat &&& 0x0f) <<< 12) ||| ((two.toNat &&& 0x3f) <<< 6) ||| (three.toNat &&& 0x3f),
          s)
      else
        let (four, s) := nextByte s
        let codePoint := ((one.toNat &&& 0x0f) <<< 18) ||| ((two.toNat &&& 0x3f) <<< 12) |||
          ((three.toNat &&& 0x3f) <<< 6) ||| (four.toNat &&& 0x3f)
        let surrogatePair := (((codePoint >>> 10) + 0xd7c0) &&& 0xffff) |||
          (((codePoint &&& 0x03ff) + 0xdc00) <<< 16)
        (surrogatePair, s)

/-- `GetLeadingUtf16Char`. -/
def getLeadingUtf16Char (maybePair : Nat) : Nat := maybePair &&& 0xffff

/-- `GetTrailingUtf16Char`. -/
def getTrailingUtf16Char (maybePair : Nat) : Nat := (maybePair >>> 16) % 2 ^ 16

/-! ### Comparing

Both loops consume at least one byte of the left string each round and stop at its
terminator; they run on a fuel of one round more than its length. -/

/-- The rounds of `CompareModifiedUtf8ToModifiedUtf8AsUtf16CodePointValues`. -/
def compareModifiedUtf8ToModifiedUtf8Loop :
    Nat → List UInt8 → List UInt8 → Int
  | 0, _, _ => 0
  | fuel + 1, utf8_1, utf8_2 =>
    if (nextByte utf8_1).1 = 0 then (if (nextByte utf8_2).1 = 0 then 0 else -1)
    else if (nextByte utf8_2).1 = 0 then 1
    else
      let (c1, utf8_1) := getUtf16FromUtf8 utf8_1
      let (c2, utf8_2) := getUtf16FromUtf8 utf8_2
      if c1 = c2 then compareModifiedUtf8ToModifiedUtf8Loop fuel utf8_1 utf8_2
      else
        -- `uint32_t leading_surrogate_diff`, returned through `static_cast<int>`
        let leadingSurrogateDiff :=
          toUnsigned 32 ((getLeadingUtf16Char c1 : Int) - getLeadingUtf16Char c2)
        if leadingSurrogateDiff ≠ 0 then toSigned 32 leadingSurrogateDiff
        else (getTrailingUtf16Char c1 : Int) - getTrailingUtf16Char c2

/-- `CompareModifiedUtf8ToModifiedUtf8AsUtf16CodePointValues(utf8_1, utf8_2)`. -/
def compareModifiedUtf8ToModifiedUtf8AsUtf16CodePointValues (utf8_1 utf8_2 : List UInt8) : Int :=
  compareModifiedUtf8ToModifiedUtf8Loop (utf8_1.length + 1) utf8_1 utf8_2

/-- The rounds of `CompareModifiedUtf8ToUtf16AsCodePointValues`; the units left to compare
stand for `utf16` and `utf16_length`. -/
def compareModifiedUtf8ToUtf16Loop : Nat → List UInt8 → List UInt16 → Int
  | 0, _, _ => 0
  | fuel + 1, utf8, utf16 =>
    if (nextByte utf8).1 = 0 then (if utf16 = [] then 0 else -1)
    else
      match utf16 with
      | [] => 1
      | rhs :: utf16 =>
        let (pair, utf8) := getUtf16FromUtf8 utf8
        -- first the leading unit
        let lhs := getLeadingUtf16Char pair
        if lhs ≠ rhs.toNat then (if lhs > rhs.toNat then 1 else -1)
        else
          -- then the trailing unit, if the sequence held a pair
          let lhs2 := getTrailingUtf16Char pair
          if lhs2 ≠ 0 then
            match utf16 with
            | [] => 1
            | rhs2 :: utf16 =>
              if lhs2 ≠ rhs2.toNat then (if lhs2 > rhs2.toNat then 1 else -1)
              else compareModifiedUtf8ToUtf16Loop fuel utf8 utf16
          else compareModifiedUtf8ToUtf16Loop fuel utf8 utf16

/-- `CompareModifiedUtf8ToUtf16AsCodePointValues(utf8, utf16, utf16_length)`. -/
def compareModifiedUtf8ToUtf16AsCodePointValues (utf8 : List UInt8) (utf16 : List UInt16) : Int :=
  compareModifiedUtf8ToUtf16Loop (utf8.length + 1) utf8 utf16

/-- The order both comparisons are meant to give: the lexicographic order of the units as
unsigned 16-bit values, a proper prefix first; `-1`, `0` or `1`. -/
def compareUtf16 : List UInt16 → List UInt16 → Int
  | [], [] => 0
  | [], _ :: _ => -1
  | _ :: _, [] => 1
  | x :: xs, y :: ys =>
    if x.toNat < y.toNat then -1 else if y.toNat < x.toNat then 1 else compareUtf16 xs ys

/-! ### Bytes as numbers

The masks and markers of the encoding are fields of a byte: a mask `2^k - 1` keeps the residue
modulo `2^k`, and or-ing a marker whose low `k` bits are zero into a value below `2^k` adds it.
The class of a leading byte, and the payload it carries, is read off by deciding the few bytes
of each class. -/

section Bytes

theorem toNat_ofNat_of_lt {n : Nat} (h : n < 256) : (UInt8.ofNat n).toNat = n := by
  rw [UInt8.toNat_ofNat', Nat.mod_eq_of_lt h]

theorem and_0x3f (x : Nat) : x &&& 0x3f = x % 64 := Nat.and_two_pow_sub_one_eq_mod x 6

theorem and_0x3ff (x : Nat) : x &&& 0x03ff = x % 1024 := Nat.and_two_pow_sub_one_eq_mod x 10

theorem and_0xffff (x : Nat) : x &&& 0xffff = x % 65536 := Nat.and_two_pow_sub_one_eq_mod x 16

theorem or_0x80 {x : Nat} (hx : x < 64) : x ||| 0x80 = x + 128 := or_eq_add_of_lt (k := 6) hx rfl

theorem or_0xc0 {x : Nat} (hx : x < 64) : x ||| 0xc0 = x + 192 := or_eq_add_of_lt (k := 6) hx rfl

theorem or_0xe0 {x : Nat} (hx : x < 32) : x ||| 0xe0 = x + 224 := or_eq_add_of_lt (k := 5) hx rfl

theorem or_0xf0 {x : Nat} (hx : x < 16) : x ||| 0xf0 = x + 240 := or_eq_add_of_lt (k := 4) hx rfl

/-- A continuation byte `10xxxxxx` carries its low six bits. -/
theorem continuation_payload {v : Nat} (hv : v < 64) : (v + 128) &&& 0x3f = v := by
  rw [and_0x3f]
  omega

/-- A leading byte `110xxxxx`. -/
theorem lead_two {v : Nat} (hv : v < 32) :
    (v + 192) &&& 0x80 ≠ 0 ∧ (v + 192) &&& 0x20 = 0 ∧ (v + 192) &&& 0x1f = v := by
  have hall : ∀ v < 32, (v + 192) &&& 0x80 ≠ 0 ∧ (v + 192) &&& 0x20 = 0 ∧
      (v + 192) &&& 0x1f = v := by decide
  exact hall v hv

/-- A leading byte `1110xxxx`. -/
theorem lead_three {v : Nat} (hv : v < 16) :
    (v + 224) &&& 0x80 ≠ 0 ∧ (v + 224) &&& 0x20 ≠ 0 ∧ (v + 224) &&& 0x10 = 0 ∧
      (v + 224) &&& 0x0f = v := by
  have hall : ∀ v < 16, (v + 224) &&& 0x80 ≠ 0 ∧ (v + 224) &&& 0x20 ≠ 0 ∧
      (v + 224) &&& 0x10 = 0 ∧ (v + 224) &&& 0x0f = v := by decide
  exact hall v hv

/-- A leading byte `11110xxx`. -/
theorem lead_four {v : Nat} (hv : v < 8) :
    (v + 240) &&& 0x80 ≠ 0 ∧ (v + 240) &&& 0x20 ≠ 0 ∧ (v + 240) &&& 0x10 ≠ 0 ∧
      (v + 240) &&& 0x0f = v := by
  have hall : ∀ v < 8, (v + 240) &&& 0x80 ≠ 0 ∧ (v + 240) &&& 0x20 ≠ 0 ∧
      (v + 240) &&& 0x10 ≠ 0 ∧ (v + 240) &&& 0x0f = v := by decide
  exact hall v hv

/-- An ASCII byte. -/
theorem ascii_byte {v : Nat} (hv : v < 128) : v &&& 0x80 = 0 := by
  have hall : ∀ v < 128, v &&& 0x80 = 0 := by decide
  exact hall v hv

/-- Three six-bit fields, packed as the decoder packs them. -/
theorem fields_three (a : Nat) {b c : Nat} (hb : b < 64) (hc : c < 64) :
    a <<< 12 ||| b <<< 6 ||| c = (a * 64 + b) * 64 + c := by
  have h := shiftLeft_or_shiftLeft a (k := 6) hb 6
  simp only [Nat.reduceAdd, Nat.reducePow] at h
  rw [h, shiftLeft_or_of_lt _ (k := 6) hc]
  rfl

/-- Four six-bit fields. -/
theorem fields_four (a : Nat) {b c d : Nat} (hb : b < 64) (hc : c < 64) (hd : d < 64) :
    a <<< 18 ||| b <<< 12 ||| c <<< 6 ||| d = ((a * 64 + b) * 64 + c) * 64 + d := by
  have h₁ := shiftLeft_or_shiftLeft a (k := 6) hb 12
  have h₂ := shiftLeft_or_shiftLeft (a * 64 + b) (k := 6) hc 6
  simp only [Nat.reduceAdd, Nat.reducePow] at h₁ h₂
  rw [h₁, h₂, shiftLeft_or_of_lt _ (k := 6) hd]
  rfl

end Bytes

/-! ### Every sequence written decodes to what was written -/

section Decoding

variable (rest : List UInt8)

/-- The bytes of a three-byte sequence, as numbers. -/
theorem encodeUnit_of_gt {ch : UInt16} (h : 0x07ff < ch.toNat) :
    encodeUnit ch = [UInt8.ofNat (ch.toNat / 4096 + 224), UInt8.ofNat (ch.toNat / 64 % 64 + 128),
      UInt8.ofNat (ch.toNat % 64 + 128)] := by
  have hlt := ch.toNat_lt
  simp only [encodeUnit, h, if_true, Nat.shiftRight_eq_div_pow, Nat.reducePow, and_0x3f]
  rw [or_0xe0 (by omega), or_0x80 (by omega), or_0x80 (by omega)]

/-- The bytes of a two-byte sequence, as numbers. -/
theorem encodeUnit_of_le {ch : UInt16} (h : ch.toNat ≤ 0x07ff) :
    encodeUnit ch = [UInt8.ofNat (ch.toNat / 64 + 192), UInt8.ofNat (ch.toNat % 64 + 128)] := by
  have hn : ¬(ch.toNat > 0x07ff) := by omega
  simp only [encodeUnit, hn, if_false, Nat.shiftRight_eq_div_pow, Nat.reducePow, and_0x3f]
  rw [or_0xc0 (by omega), or_0x80 (by omega)]

/-- The code point of a pair, `0x10000` above the ten bits of each half. -/
theorem pairCodePoint_eq {hi lo : UInt16} (hhi : isLeadingSurrogate hi)
    (hlo : isTrailingSurrogate lo) :
    (hi.toNat <<< 10) + lo.toNat - 0x035fdc00 =
      (hi.toNat - 0xd800) * 1024 + (lo.toNat - 0xdc00) + 0x10000 := by
  simp only [isLeadingSurrogate, isTrailingSurrogate, Bool.and_eq_true, decide_eq_true_eq] at hhi hlo
  rw [Nat.shiftLeft_eq]
  omega

/-- The bytes of a four-byte sequence, as numbers of its code point. -/
theorem encodePair_eq {hi lo : UInt16} (hhi : isLeadingSurrogate hi)
    (hlo : isTrailingSurrogate lo) :
    let codePoint := (hi.toNat - 0xd800) * 1024 + (lo.toNat - 0xdc00) + 0x10000
    encodePair hi lo = [UInt8.ofNat (codePoint / 262144 + 240),
      UInt8.ofNat (codePoint / 4096 % 64 + 128), UInt8.ofNat (codePoint / 64 % 64 + 128),
      UInt8.ofNat (codePoint % 64 + 128)] := by
  intro codePoint
  have hcp := pairCodePoint_eq hhi hlo
  have hhi' := hi.toNat_lt
  have hlo' := lo.toNat_lt
  simp only [isLeadingSurrogate, isTrailingSurrogate, Bool.and_eq_true, decide_eq_true_eq] at hhi hlo
  simp only [encodePair, hcp, Nat.shiftRight_eq_div_pow, Nat.reducePow, and_0x3f]
  rw [or_0xf0 (by omega), or_0x80 (by omega), or_0x80 (by omega), or_0x80 (by omega)]

theorem getUtf16FromUtf8_ascii {ch : UInt16} (h : 0 < ch.toNat ∧ ch.toNat ≤ 0x7f) :
    getUtf16FromUtf8 (UInt8.ofNat ch.toNat :: rest) = (ch.toNat, rest) := by
  simp only [getUtf16FromUtf8, nextByte, toNat_ofNat_of_lt (show ch.toNat < 256 by omega),
    ascii_byte (show ch.toNat < 128 by omega), if_true]

/-- A unit written as two or three bytes reads back as itself. -/
theorem getUtf16FromUtf8_encodeUnit (ch : UInt16) :
    getUtf16FromUtf8 (encodeUnit ch ++ rest) = (ch.toNat, rest) := by
  have hlt := ch.toNat_lt
  by_cases hbig : 0x07ff < ch.toNat
  · -- three bytes
    obtain ⟨t1, t2, t3, t4⟩ := lead_three (v := ch.toNat / 4096) (by omega)
    rw [encodeUnit_of_gt hbig]
    simp only [List.cons_append, List.nil_append, getUtf16FromUtf8, nextByte,
      toNat_ofNat_of_lt (show ch.toNat / 4096 + 224 < 256 by omega),
      toNat_ofNat_of_lt (show ch.toNat / 64 % 64 + 128 < 256 by omega),
      toNat_ofNat_of_lt (show ch.toNat % 64 + 128 < 256 by omega), t1, t2, t3, t4, if_false,
      if_true, continuation_payload (show ch.toNat / 64 % 64 < 64 by omega),
      continuation_payload (show ch.toNat % 64 < 64 by omega),
      fields_three _ (show ch.toNat / 64 % 64 < 64 by omega) (show ch.toNat % 64 < 64 by omega),
      Prod.mk.injEq, and_true]
    omega
  · -- two bytes: `0`, or `0x80` to `0x7ff`
    obtain ⟨t1, t2, t3⟩ := lead_two (v := ch.toNat / 64) (by omega)
    rw [encodeUnit_of_le (by omega)]
    simp only [List.cons_append, List.nil_append, getUtf16FromUtf8, nextByte,
      toNat_ofNat_of_lt (show ch.toNat / 64 + 192 < 256 by omega),
      toNat_ofNat_of_lt (show ch.toNat % 64 + 128 < 256 by omega), t1, t2, t3, if_false, if_true,
      continuation_payload (show ch.toNat % 64 < 64 by omega),
      shiftLeft_or_of_lt _ (show ch.toNat % 64 < 2 ^ 6 by omega), Prod.mk.injEq, and_true]
    omega

/-- A pair written as four bytes reads back as the pair, the leading unit low. -/
theorem getUtf16FromUtf8_encodePair {hi lo : UInt16} (hhi : isLeadingSurrogate hi)
    (hlo : isTrailingSurrogate lo) :
    getUtf16FromUtf8 (encodePair hi lo ++ rest) = (hi.toNat + lo.toNat * 65536, rest) := by
  have hhi' := hi.toNat_lt
  have hlo' := lo.toNat_lt
  rw [encodePair_eq hhi hlo]
  simp only [isLeadingSurrogate, isTrailingSurrogate, Bool.and_eq_true, decide_eq_true_eq] at hhi hlo
  generalize hcp : (hi.toNat - 0xd800) * 1024 + (lo.toNat - 0xdc00) + 0x10000 = codePoint
  obtain ⟨t1, t2, t3, t4⟩ := lead_four (v := codePoint / 262144) (by omega)
  simp only [List.cons_append, List.nil_append, getUtf16FromUtf8, nextByte,
    toNat_ofNat_of_lt (show codePoint / 262144 + 240 < 256 by omega),
    toNat_ofNat_of_lt (show codePoint / 4096 % 64 + 128 < 256 by omega),
    toNat_ofNat_of_lt (show codePoint / 64 % 64 + 128 < 256 by omega),
    toNat_ofNat_of_lt (show codePoint % 64 + 128 < 256 by omega), t1, t2, t3, t4, if_false,
    continuation_payload (show codePoint / 4096 % 64 < 64 by omega),
    continuation_payload (show codePoint / 64 % 64 < 64 by omega),
    continuation_payload (show codePoint % 64 < 64 by omega),
    fields_four _ (show codePoint / 4096 % 64 < 64 by omega) (show codePoint / 64 % 64 < 64 by omega)
      (show codePoint % 64 < 64 by omega), Prod.mk.injEq, and_true]
  -- the four fields are the code point again; its ten high bits give the leading unit and its
  -- ten low bits the trailing one
  have hfields : ((codePoint / 262144 * 64 + codePoint / 4096 % 64) * 64 + codePoint / 64 % 64) * 64 +
      codePoint % 64 = codePoint := by omega
  have hlead : (codePoint / 1024 + 0xd7c0) % 65536 = hi.toNat := by omega
  have htrail : codePoint % 1024 + 0xdc00 = lo.toNat := by omega
  rw [hfields, Nat.shiftRight_eq_div_pow, and_0x3ff, and_0xffff,
    or_shiftLeft_of_lt _ (show (codePoint / 2 ^ 10 + 0xd7c0) % 65536 < 2 ^ 16 by omega)]
  simp only [Nat.reducePow]
  rw [hlead, htrail]

theorem getLeadingUtf16Char_of_lt {x : Nat} (h : x < 65536) : getLeadingUtf16Char x = x := by
  rw [getLeadingUtf16Char, and_0xffff, Nat.mod_eq_of_lt h]

theorem getTrailingUtf16Char_of_lt {x : Nat} (h : x < 65536) : getTrailingUtf16Char x = 0 := by
  rw [getTrailingUtf16Char, Nat.shiftRight_eq_div_pow, Nat.div_eq_of_lt h]
  rfl

theorem getLeadingUtf16Char_pair {x y : Nat} (hx : x < 65536) :
    getLeadingUtf16Char (x + y * 65536) = x := by
  rw [getLeadingUtf16Char, and_0xffff]
  omega

theorem getTrailingUtf16Char_pair {x y : Nat} (hx : x < 65536) (hy : y < 65536) :
    getTrailingUtf16Char (x + y * 65536) = y := by
  rw [getTrailingUtf16Char, Nat.shiftRight_eq_div_pow]
  omega

theorem ofNat_ne_zero_of_lt {n : Nat} (h0 : 0 < n) (h : n < 256) : UInt8.ofNat n ≠ 0 := by
  intro heq
  have hn := congrArg UInt8.toNat heq
  rw [toNat_ofNat_of_lt h, UInt8.toNat_zero] at hn
  omega

/-- No sequence the writer emits starts with the terminator. -/
theorem nextByte_ascii_ne_zero {ch : UInt16} (h : 0 < ch.toNat ∧ ch.toNat ≤ 0x7f) :
    (nextByte (UInt8.ofNat ch.toNat :: rest)).1 ≠ 0 :=
  ofNat_ne_zero_of_lt h.1 (by omega)

theorem nextByte_encodeUnit_ne_zero (ch : UInt16) : (nextByte (encodeUnit ch ++ rest)).1 ≠ 0 := by
  have hlt := ch.toNat_lt
  by_cases hbig : 0x07ff < ch.toNat
  · rw [encodeUnit_of_gt hbig]
    exact ofNat_ne_zero_of_lt (by omega) (by omega)
  · rw [encodeUnit_of_le (by omega)]
    exact ofNat_ne_zero_of_lt (by omega) (by omega)

theorem nextByte_encodePair_ne_zero {hi lo : UInt16} (hhi : isLeadingSurrogate hi)
    (hlo : isTrailingSurrogate lo) : (nextByte (encodePair hi lo ++ rest)).1 ≠ 0 := by
  have hcp := pairCodePoint_eq hhi hlo
  have hhi' := hi.toNat_lt
  have hlo' := lo.toNat_lt
  simp only [isLeadingSurrogate, isTrailingSurrogate, Bool.and_eq_true, decide_eq_true_eq] at hhi hlo
  rw [encodePair_eq (by simpa [isLeadingSurrogate] using hhi)
    (by simpa [isTrailingSurrogate] using hlo)]
  exact ofNat_ne_zero_of_lt (by omega) (by omega)

theorem two_le_length_encodeUnit (ch : UInt16) : 2 ≤ (encodeUnit ch).length := by
  unfold encodeUnit
  split <;> simp

theorem length_encodePair (hi lo : UInt16) : (encodePair hi lo).length = 4 := rfl

end Decoding

/-! ### The fast path writes what the general loop writes -/

section FastPath

theorem length_le_countUtf8Bytes : ∀ a : List UInt16, a.length ≤ countUtf8Bytes a
  | [] => le_refl _
  | [ch] => by
    simp only [countUtf8Bytes, List.length_singleton]
    split_ifs <;> omega
  | ch :: ch2 :: rest => by
    have h1 := length_le_countUtf8Bytes (ch2 :: rest)
    have h2 := length_le_countUtf8Bytes rest
    simp only [countUtf8Bytes, List.length_cons] at h1 h2 ⊢
    split_ifs <;> omega

/-- A count equal to the length means every unit is a one-byte ASCII character, which the
general loop copies too. -/
theorem convertUtf16ToModifiedUtf8Loop_of_count_eq : ∀ a : List UInt16,
    countUtf8Bytes a = a.length →
    convertUtf16ToModifiedUtf8Loop a = a.map (fun ch => UInt8.ofNat ch.toNat)
  | [] => fun _ => rfl
  | [ch] => by
    simp only [countUtf8Bytes, List.length_singleton, convertUtf16ToModifiedUtf8Loop,
      List.map_cons, List.map_nil]
    intro h
    split_ifs at h ⊢ <;> first | rfl | omega
  | ch :: ch2 :: rest => by
    intro h
    have hle := length_le_countUtf8Bytes (ch2 :: rest)
    have hle' := length_le_countUtf8Bytes rest
    simp only [countUtf8Bytes, List.length_cons] at h hle hle'
    by_cases hascii : ch.toNat > 0 ∧ ch.toNat ≤ 0x7f
    · have hcount : countUtf8Bytes (ch2 :: rest) = (ch2 :: rest).length := by
        simp only [List.length_cons]
        split_ifs at h <;> omega
      rw [convertUtf16ToModifiedUtf8Loop, if_pos hascii,
        convertUtf16ToModifiedUtf8Loop_of_count_eq (ch2 :: rest) hcount]
      simp only [List.map_cons]
    · -- any other unit takes two bytes or more, and the count exceeds the length
      exfalso
      split_ifs at h <;> omega

theorem mutf8_eq_convertUtf16ToModifiedUtf8Loop (a : List UInt16) :
    mutf8 a = convertUtf16ToModifiedUtf8Loop a := by
  unfold mutf8 convertUtf16ToModifiedUtf8
  split
  · rename_i h
    rw [convertUtf16ToModifiedUtf8Loop_of_count_eq a h]
  · rfl

end FastPath

/-! ### Comparing with UTF-16 follows the lexicographic order

A round of the comparison reads one sequence the writer emitted: one unit, compared with the
next unit of the other string, or a pair, compared with the next two.  The run lemma follows
the writer's recursion. -/

section CompareUtf16

variable {fuel : Nat} {s rest : List UInt8} {t : List UInt16}

/-- A round on a sequence that decodes to one unit. -/
theorem compareModifiedUtf8ToUtf16Loop_unit {ch : UInt16} (hne : (nextByte s).1 ≠ 0)
    (hdec : getUtf16FromUtf8 s = (ch.toNat, rest))
    (ih : ∀ b, compareModifiedUtf8ToUtf16Loop fuel rest b = compareUtf16 t b) (b : List UInt16) :
    compareModifiedUtf8ToUtf16Loop (fuel + 1) s b = compareUtf16 (ch :: t) b := by
  have hlt : ch.toNat < 65536 := ch.toNat_lt
  cases b with
  | nil => simp only [compareModifiedUtf8ToUtf16Loop, hne, if_false, compareUtf16]
  | cons rhs b =>
    simp only [compareModifiedUtf8ToUtf16Loop, hne, if_false, hdec, getLeadingUtf16Char_of_lt hlt,
      getTrailingUtf16Char_of_lt hlt, ne_eq, not_true_eq_false, ih, compareUtf16]
    split_ifs <;> first | rfl | omega

/-- A round on a sequence that decodes to a pair: the trailing unit is never `0`, so it is
compared with the next unit of the other string. -/
theorem compareModifiedUtf8ToUtf16Loop_pair {hi lo : UInt16} (hne : (nextByte s).1 ≠ 0)
    (hdec : getUtf16FromUtf8 s = (hi.toNat + lo.toNat * 65536, rest))
    (hlo : isTrailingSurrogate lo)
    (ih : ∀ b, compareModifiedUtf8ToUtf16Loop fuel rest b = compareUtf16 t b) (b : List UInt16) :
    compareModifiedUtf8ToUtf16Loop (fuel + 1) s b = compareUtf16 (hi :: lo :: t) b := by
  have hhi : hi.toNat < 65536 := hi.toNat_lt
  have hlt : lo.toNat < 65536 := lo.toNat_lt
  have hlo0 : lo.toNat ≠ 0 := by
    simp only [isTrailingSurrogate, Bool.and_eq_true, decide_eq_true_eq] at hlo
    omega
  match b with
  | [] => simp only [compareModifiedUtf8ToUtf16Loop, hne, if_false, compareUtf16]
  | rhs :: b =>
    simp only [compareModifiedUtf8ToUtf16Loop, hne, if_false, hdec, getLeadingUtf16Char_pair hhi,
      getTrailingUtf16Char_pair hhi hlt, ne_eq, hlo0, not_false_eq_true, if_true]
    cases b with
    | nil => simp only [compareUtf16]; split_ifs <;> first | rfl | omega
    | cons rhs2 b =>
      simp only [ih, compareUtf16]
      split_ifs <;> first | rfl | omega

/-- The run: on the bytes the general loop writes for `a`, with a round for each of them, the
comparison is the lexicographic one. -/
theorem compareModifiedUtf8ToUtf16Loop_convert : ∀ (a : List UInt16) (fuel : Nat),
    (convertUtf16ToModifiedUtf8Loop a).length < fuel → ∀ b,
      compareModifiedUtf8ToUtf16Loop fuel (convertUtf16ToModifiedUtf8Loop a) b = compareUtf16 a b
  | [], fuel + 1, _, b => by
    cases b <;> rfl
  | [ch], fuel + 1, hfuel, b => by
    -- the one sequence of a last unit takes a round, and the empty rest one more
    have ih := compareModifiedUtf8ToUtf16Loop_convert [] fuel (by
      have hpos : 0 < (convertUtf16ToModifiedUtf8Loop [ch]).length := by
        have := two_le_length_encodeUnit ch
        simp only [convertUtf16ToModifiedUtf8Loop]
        split
        · exact Nat.one_pos
        · omega
      simp only [convertUtf16ToModifiedUtf8Loop, List.length_nil]
      omega)
    by_cases hascii : ch.toNat > 0 ∧ ch.toNat ≤ 0x7f
    · simp only [convertUtf16ToModifiedUtf8Loop, if_pos hascii]
      exact compareModifiedUtf8ToUtf16Loop_unit (nextByte_ascii_ne_zero [] hascii)
        (getUtf16FromUtf8_ascii [] hascii) ih b
    · simp only [convertUtf16ToModifiedUtf8Loop, if_neg hascii]
      rw [← List.append_nil (encodeUnit ch)]
      exact compareModifiedUtf8ToUtf16Loop_unit (nextByte_encodeUnit_ne_zero [] ch)
        (getUtf16FromUtf8_encodeUnit [] ch) ih b
  | ch :: ch2 :: rest, fuel + 1, hfuel, b => by
    by_cases hascii : ch.toNat > 0 ∧ ch.toNat ≤ 0x7f
    · simp only [convertUtf16ToModifiedUtf8Loop, if_pos hascii] at hfuel ⊢
      have ih := compareModifiedUtf8ToUtf16Loop_convert (ch2 :: rest) fuel
        (by simp only [List.length_cons] at hfuel; omega)
      exact compareModifiedUtf8ToUtf16Loop_unit (nextByte_ascii_ne_zero _ hascii)
        (getUtf16FromUtf8_ascii _ hascii) ih b
    by_cases hpair : isLeadingSurrogate ch ∧ isTrailingSurrogate ch2
    · simp only [convertUtf16ToModifiedUtf8Loop, if_neg hascii, if_pos hpair] at hfuel ⊢
      have ih := compareModifiedUtf8ToUtf16Loop_convert rest fuel
        (by simp only [List.length_append, length_encodePair] at hfuel; omega)
      exact compareModifiedUtf8ToUtf16Loop_pair (nextByte_encodePair_ne_zero _ hpair.1 hpair.2)
        (getUtf16FromUtf8_encodePair _ hpair.1 hpair.2) hpair.2 ih b
    · simp only [convertUtf16ToModifiedUtf8Loop, if_neg hascii, if_neg hpair] at hfuel ⊢
      have ih := compareModifiedUtf8ToUtf16Loop_convert (ch2 :: rest) fuel (by
        have := two_le_length_encodeUnit ch
        simp only [List.length_append] at hfuel
        omega)
      exact compareModifiedUtf8ToUtf16Loop_unit (nextByte_encodeUnit_ne_zero _ ch)
        (getUtf16FromUtf8_encodeUnit _ ch) ih b

/-- For every two strings of code units, comparing the modified UTF-8 of the first with the
second is the lexicographic order of the units. -/
theorem compareModifiedUtf8ToUtf16_mutf8 (a b : List UInt16) :
    compareModifiedUtf8ToUtf16AsCodePointValues (mutf8 a) b = compareUtf16 a b := by
  rw [compareModifiedUtf8ToUtf16AsCodePointValues, mutf8_eq_convertUtf16ToModifiedUtf8Loop]
  exact compareModifiedUtf8ToUtf16Loop_convert a _ (Nat.lt_succ_self _) b

end CompareUtf16

/-! ### Comparing two modified UTF-8 strings does not

A pair and an unpaired leading surrogate with the same leading unit: the first round decodes
the pair packed in one value and the lone surrogate alone, their leading units agree, and the
pair's trailing unit is compared with `0` instead of with the unit that follows the lone
surrogate. -/

/-- `a = [0xd800, 0xdc00]` is below `b = [0xd800, 0xe000]` as units, and comparing its modified
UTF-8 with `b` says so; comparing it with the modified UTF-8 of `b` answers `0xdc00`. -/
theorem modifiedUtf8Comparisons_disagree :
    compareModifiedUtf8ToModifiedUtf8AsUtf16CodePointValues (mutf8 [0xd800, 0xdc00])
        (mutf8 [0xd800, 0xe000]) = 0xdc00 ∧
      compareModifiedUtf8ToUtf16AsCodePointValues (mutf8 [0xd800, 0xdc00]) [0xd800, 0xe000] = -1 ∧
      compareUtf16 [0xd800, 0xdc00] [0xd800, 0xe000] = -1 := by
  decide

end AndroidArt.Dex
