/-
Module: AndroidArt.Dex.DexNameGrammar
Purpose: the dex format's grammar of names, as languages over code points: `SimpleNameChar` as
  this version of `descriptors_names.cc` admits it, simple names, class names with `/` or `.`
  between their components, member names, and type descriptors.
Trusted boundary: none
Main exports: SimpleNameChar, simpleName, className, memberName
-/
import AndroidArt.Dex.DescriptorsNames
import AndroidArt.Lib.LanguageResidual

namespace AndroidArt.Dex

open AndroidArt.Lib Computability

/-! ### The grammar -/

/-- A code point of a simple name: the ASCII digits `0x30`–`0x39`, letters `0x41`–`0x5a` and
`0x61`–`0x7a`, `$`, `-` and `_`, and every code point above `U+00a0` but the spaces and specials
`U+2000`–`U+200f` and `U+2028`–`U+202f`, the surrogates `U+d800`–`U+dfff` and
`U+fff0`–`U+ffff`. -/
def SimpleNameChar (c : Nat) : Prop :=
  (0x30 ≤ c ∧ c ≤ 0x39) ∨ (0x41 ≤ c ∧ c ≤ 0x5a) ∨ (0x61 ≤ c ∧ c ≤ 0x7a) ∨ c = 0x24 ∨ c = 0x2d ∨
    c = 0x5f ∨
    (0xa0 < c ∧ c ≤ 0x10ffff ∧ ¬(0x2000 ≤ c ∧ c ≤ 0x200f) ∧ ¬(0x2028 ≤ c ∧ c ≤ 0x202f) ∧
      ¬(0xd800 ≤ c ∧ c ≤ 0xdfff) ∧ ¬(0xfff0 ≤ c ∧ c ≤ 0xffff))

instance : DecidablePred SimpleNameChar := fun c =>
  inferInstanceAs (Decidable ((0x30 ≤ c ∧ c ≤ 0x39) ∨ (0x41 ≤ c ∧ c ≤ 0x5a) ∨
    (0x61 ≤ c ∧ c ≤ 0x7a) ∨ c = 0x24 ∨ c = 0x2d ∨ c = 0x5f ∨
    (0xa0 < c ∧ c ≤ 0x10ffff ∧ ¬(0x2000 ≤ c ∧ c ≤ 0x200f) ∧ ¬(0x2028 ≤ c ∧ c ≤ 0x202f) ∧
      ¬(0xd800 ≤ c ∧ c ≤ 0xdfff) ∧ ¬(0xfff0 ≤ c ∧ c ≤ 0xffff))))

/-- `SimpleName`: one or more `SimpleNameChar`s. -/
def simpleName : Language Nat := plus SimpleNameChar

/-- A class name: simple names with the separator `sep` between them. -/
def className (sep : Nat) : Language Nat := sepBy SimpleNameChar sep

/-- `MemberName`: a simple name, or one wrapped in `<` and `>`. -/
def memberName : Language Nat :=
  simpleName + {['<'.toNat]} * simpleName * {['>'.toNat]}

/-- The descriptors of the primitive types. -/
def primitiveType : Language Nat := {w | ∃ c ∈ "BCDFIJSZ".toList, w = [c.toNat]}

/-- What follows the dimensions of a descriptor: a primitive type, or `L`, a class name and `;`. -/
def fieldType (sep : Nat) : Language Nat :=
  primitiveType + {['L'.toNat]} * className sep * {[';'.toNat]}

/-- A type descriptor with `sep` in its class names: at most 255 `[` and a field type, or `V`. -/
def descriptor (sep : Nat) : Language Nat :=
  runUpTo '['.toNat 255 * fieldType sep + {['V'.toNat]}

/-- The descriptors of arrays. -/
def arrayClassName (sep : Nat) : Language Nat :=
  {w | w ∈ descriptor sep ∧ w.head? = some '['.toNat}

/-! ### Code points of a string -/

/-- The code points of a UTF-16 string: a leading surrogate followed by a trailing one is one
supplementary code point, and a surrogate without its other half stands for itself. -/
def codePoints : List UInt16 → List Nat
  | [] => []
  | [u] => [u.toNat]
  | hi :: lo :: rest =>
    if isLeadingSurrogate hi && isTrailingSurrogate lo then
      ((hi.toNat - 0xd800) * 1024 + (lo.toNat - 0xdc00) + 0x10000) :: codePoints rest
    else hi.toNat :: codePoints (lo :: rest)

/-- The code points of the UTF-16 string a string of sequences stands for. -/
def symbolsOf (qs : List Sequence) : List Nat := codePoints (qs.flatMap Sequence.units)

/-- `r` is an answer, and it is `true` exactly when `P` holds. -/
def Decides (r : Option Bool) (P : Prop) : Prop := ∃ b, r = some b ∧ (b = true ↔ P)

theorem decides_false {P : Prop} (h : ¬P) : Decides (some false) P :=
  ⟨false, rfl, by simpa using h⟩

theorem Decides.congr {r : Option Bool} {P Q : Prop} (h : Decides r P) (hPQ : P ↔ Q) :
    Decides r Q :=
  let ⟨b, hr, hb⟩ := h
  ⟨b, hr, hb.trans hPQ⟩

/-! ### What the validators test, on code points -/

section Verdicts

/-- `DEX_MEMBER_VALID_LOW_ASCII` marks exactly the ASCII `SimpleNameChar`s. -/
theorem lowAscii_iff {c : Nat} (hc : c < 0x80) :
    ((dexMemberValidLowAscii.getD (c >>> 5) 0 &&& 1 <<< (c &&& 0x1f)) != 0) = true ↔
      SimpleNameChar c := by
  have hall : ∀ c < 0x80, ((dexMemberValidLowAscii.getD (c >>> 5) 0 &&& 1 <<< (c &&& 0x1f)) != 0) =
      true ↔ SimpleNameChar c := by decide
  exact hall c hc

/-- The `switch` of the slow path accepts exactly the `SimpleNameChar`s among the units it sees:
`0` and every unit above `0x7f` but a leading surrogate. -/
theorem unitVerdict_iff {x : Nat} (hx : x < 0x10000) (hlow : x = 0 ∨ 0x7f < x)
    (hlead : ¬(0xd800 ≤ x ∧ x ≤ 0xdbff)) : unitVerdict x = true ↔ SimpleNameChar x := by
  have hhigh : x >>> 8 = x / 256 := Nat.shiftRight_eq_div_pow x 8
  -- the three rows the `switch` looks into are checked unit by unit
  by_cases h00 : x < 0x100
  · have hall : ∀ y < 0x100, (y = 0 ∨ 0x7f < y) → (unitVerdict y = true ↔ SimpleNameChar y) := by
      decide +kernel
    exact hall x h00 hlow
  by_cases h20 : x / 256 = 0x20
  · obtain ⟨y, hy, rfl⟩ : ∃ y < 0x100, x = 0x2000 + y := ⟨x - 0x2000, by omega, by omega⟩
    have hall : ∀ y < 0x100, unitVerdict (0x2000 + y) = true ↔ SimpleNameChar (0x2000 + y) := by
      decide +kernel
    exact hall y hy
  by_cases hff : x / 256 = 0xff
  · obtain ⟨y, hy, rfl⟩ : ∃ y < 0x100, x = 0xff00 + y := ⟨x - 0xff00, by omega, by omega⟩
    have hall : ∀ y < 0x100, unitVerdict (0xff00 + y) = true ↔ SimpleNameChar (0xff00 + y) := by
      decide +kernel
    exact hall y hy
  -- every other row is accepted whole, or rejected whole as trailing surrogates
  unfold unitVerdict SimpleNameChar
  rw [hhigh]
  -- the default row carries its exclusions as implications, which `omega` reads as negations
  split
  all_goals
    try simp only [Bool.false_eq_true, false_iff, true_iff, imp_false] at *
    omega

/-- The code point of a surrogate pair is a `SimpleNameChar`. -/
theorem simpleNameChar_pair {hi lo : UInt16} (hhi : isLeadingSurrogate hi)
    (hlo : isTrailingSurrogate lo) :
    SimpleNameChar ((hi.toNat - 0xd800) * 1024 + (lo.toNat - 0xdc00) + 0x10000) := by
  simp only [isLeadingSurrogate, isTrailingSurrogate, Bool.and_eq_true, decide_eq_true_eq]
    at hhi hlo
  unfold SimpleNameChar
  omega

theorem not_simpleNameChar_of_leading {hi : UInt16} (hhi : isLeadingSurrogate hi) :
    ¬SimpleNameChar hi.toNat := by
  simp only [isLeadingSurrogate, Bool.and_eq_true, decide_eq_true_eq] at hhi
  unfold SimpleNameChar
  omega

end Verdicts

/-! ### Code points of the units of a string of sequences -/

section CodePoints

theorem codePoints_cons_of_not_leading {u : UInt16} (hu : isLeadingSurrogate u = false)
    (us : List UInt16) : codePoints (u :: us) = u.toNat :: codePoints us := by
  cases us with
  | nil => rfl
  | cons v vs => simp [codePoints, hu]

theorem codePoints_cons_of_not_trailing {u v : UInt16} (hv : isTrailingSurrogate v = false)
    (us : List UInt16) : codePoints (u :: v :: us) = u.toNat :: codePoints (v :: us) := by
  simp [codePoints, hv]

theorem codePoints_pair {hi lo : UInt16} (hhi : isLeadingSurrogate hi)
    (hlo : isTrailingSurrogate lo) (us : List UInt16) :
    codePoints (hi :: lo :: us) =
      ((hi.toNat - 0xd800) * 1024 + (lo.toNat - 0xdc00) + 0x10000) :: codePoints us := by
  simp [codePoints, hhi, hlo]

theorem isLeadingSurrogate_eq_false {ch : UInt16} (h : ch.toNat < 0xd800) :
    isLeadingSurrogate ch = false := by
  simp only [isLeadingSurrogate, Bool.and_eq_false_iff, decide_eq_false_iff_not]
  omega

theorem isTrailingSurrogate_eq_false_of_leading {ch : UInt16} (h : isLeadingSurrogate ch) :
    isTrailingSurrogate ch = false := by
  simp only [isLeadingSurrogate, Bool.and_eq_true, decide_eq_true_eq] at h
  simp only [isTrailingSurrogate, Bool.and_eq_false_iff, decide_eq_false_iff_not]
  omega

/-- A sequence of one trailing surrogate. -/
def Sequence.IsTrailing (q : Sequence) : Prop := ∃ lo, q = .unit lo ∧ isTrailingSurrogate lo

/-- A sequence starts with a trailing surrogate only when it is one. -/
theorem Sequence.units_of_not_isTrailing {q : Sequence} (hq : ¬q.IsTrailing) :
    ∃ v vs, q.units = v :: vs ∧ isTrailingSurrogate v = false := by
  cases q with
  | ascii ch h =>
    refine ⟨ch, [], rfl, ?_⟩
    simp only [isTrailingSurrogate, Bool.and_eq_false_iff, decide_eq_false_iff_not]
    omega
  | unit v =>
    refine ⟨v, [], rfl, ?_⟩
    simpa [Sequence.IsTrailing] using hq
  | pair hi lo hhi hlo => exact ⟨hi, [lo], rfl, isTrailingSurrogate_eq_false_of_leading hhi⟩

variable {qs : List Sequence}

theorem symbolsOf_nil : symbolsOf [] = [] := rfl

theorem symbolsOf_ascii {ch : UInt16} (h : 0 < ch.toNat ∧ ch.toNat ≤ 0x7f) :
    symbolsOf (.ascii ch h :: qs) = ch.toNat :: symbolsOf qs :=
  codePoints_cons_of_not_leading (isLeadingSurrogate_eq_false (by omega)) _

theorem symbolsOf_unit {ch : UInt16} (hch : isLeadingSurrogate ch = false) :
    symbolsOf (.unit ch :: qs) = ch.toNat :: symbolsOf qs :=
  codePoints_cons_of_not_leading hch _

theorem symbolsOf_pair {hi lo : UInt16} (hhi : isLeadingSurrogate hi)
    (hlo : isTrailingSurrogate lo) :
    symbolsOf (.pair hi lo hhi hlo :: qs) =
      ((hi.toNat - 0xd800) * 1024 + (lo.toNat - 0xdc00) + 0x10000) :: symbolsOf qs :=
  codePoints_pair hhi hlo _

/-- Two three-byte halves of a pair are one code point. -/
theorem symbolsOf_halves {hi lo : UInt16} (hhi : isLeadingSurrogate hi)
    (hlo : isTrailingSurrogate lo) :
    symbolsOf (.unit hi :: .unit lo :: qs) =
      ((hi.toNat - 0xd800) * 1024 + (lo.toNat - 0xdc00) + 0x10000) :: symbolsOf qs :=
  codePoints_pair hhi hlo _

/-- A leading half not followed by a trailing one stands for itself. -/
theorem symbolsOf_unpaired {hi : UInt16} (hnext : ∀ q ∈ qs.head?, ¬q.IsTrailing) :
    symbolsOf (.unit hi :: qs) = hi.toNat :: symbolsOf qs := by
  cases qs with
  | nil => rfl
  | cons q qs =>
    obtain ⟨v, vs, hv, hvt⟩ := Sequence.units_of_not_isTrailing (hnext q rfl)
    unfold symbolsOf
    rw [List.flatMap_cons, List.flatMap_cons, hv]
    exact codePoints_cons_of_not_trailing hvt _

end CodePoints

/-! ### `IsValidPartOfMemberNameUtf8` on a string of sequences -/

section Part

namespace Sequence

variable (q : Sequence) (rest : List UInt8)

/-- The lead byte of a sequence asks for exactly the sequence's bytes. -/
theorem sequenceLength_head {one : UInt8} {t : List UInt8} (h : q.bytes = one :: t) :
    sequenceLength one = t.length + 1 := by
  -- the decoder stops just before a `0` put after the sequence
  have hsnd := congrArg Prod.snd (q.getUtf16FromUtf8_bytes [0])
  rw [h, List.cons_append, getUtf16FromUtf8_snd] at hsnd
  have hlen := congrArg List.length hsnd
  simp only [List.length_drop, List.length_append, List.length_singleton] at hlen
  have := one_le_sequenceLength one
  omega

theorem getUtf16FromUtf8In_bytes : getUtf16FromUtf8In (q.bytes ++ rest) = some (q.packed, rest) := by
  obtain ⟨one, t, h⟩ := List.exists_cons_of_ne_nil (List.ne_nil_of_length_pos q.length_bytes_pos)
  rw [h, List.cons_append, getUtf16FromUtf8In_cons,
    if_pos (by rw [q.sequenceLength_head h, List.length_append]; omega), ← List.cons_append, ← h,
    q.getUtf16FromUtf8_bytes]

/-- A two-, three- or four-byte sequence starts with a byte above `0x7f`. -/
theorem bytes_head_of_unit (ch : UInt16) :
    ∃ b t, (unit ch).bytes = b :: t ∧ 0x7f < b.toNat := by
  have hlt := ch.toNat_lt
  by_cases hbig : 0x07ff < ch.toNat
  · rw [bytes, encodeUnit_of_gt hbig]
    exact ⟨_, _, rfl, by rw [toNat_ofNat_of_lt (by omega)]; omega⟩
  · rw [bytes, encodeUnit_of_le (by omega)]
    exact ⟨_, _, rfl, by rw [toNat_ofNat_of_lt (by omega)]; omega⟩

theorem bytes_head_of_pair {hi lo : UInt16} (hhi : isLeadingSurrogate hi)
    (hlo : isTrailingSurrogate lo) : ∃ b t, (pair hi lo hhi hlo).bytes = b :: t ∧ 0x7f < b.toNat := by
  have hcp := pairCodePoint_eq hhi hlo
  simp only [isLeadingSurrogate, isTrailingSurrogate, Bool.and_eq_true, decide_eq_true_eq]
    at hhi hlo
  rw [bytes, encodePair_eq (by simpa [isLeadingSurrogate] using hhi)
    (by simpa [isTrailingSurrogate] using hlo)]
  exact ⟨_, _, rfl, by rw [toNat_ofNat_of_lt (by omega)]; omega⟩

/-- The second half the slow path looks for: a sequence of one trailing surrogate. -/
theorem trailingVerdict_iff :
    (getTrailingUtf16Char q.packed == 0 &&
      (0xdc00 ≤ getLeadingUtf16Char q.packed && getLeadingUtf16Char q.packed ≤ 0xdfff)) = true ↔
      q.IsTrailing := by
  cases q with
  | ascii ch h =>
    simp only [packed, getTrailingUtf16Char_of_lt (show ch.toNat < 65536 by omega),
      getLeadingUtf16Char_of_lt (show ch.toNat < 65536 by omega), IsTrailing, reduceCtorEq,
      false_and, exists_false, iff_false]
    simp only [beq_self_eq_true, Bool.true_and, Bool.and_eq_true, decide_eq_true_eq]
    omega
  | unit v =>
    have hv := v.toNat_lt
    simp only [packed, getTrailingUtf16Char_of_lt hv, getLeadingUtf16Char_of_lt hv, IsTrailing,
      unit.injEq, exists_eq_left', isTrailingSurrogate, beq_self_eq_true, Bool.true_and]
  | pair hi lo hhi hlo =>
    have hhi' := hi.toNat_lt
    have hlo' := lo.toNat_lt
    simp only [isTrailingSurrogate, Bool.and_eq_true, decide_eq_true_eq] at hlo
    simp only [packed, getTrailingUtf16Char_pair hhi' hlo', IsTrailing, reduceCtorEq, false_and,
      exists_false, iff_false, Bool.and_eq_true, beq_iff_eq]
    omega

end Sequence

variable {q : Sequence} {qs : List Sequence} (after : List UInt8)

/-- One call of `IsValidPartOfMemberNameUtf8` on a string of sequences takes its first code
point, two three-byte halves of a pair together: it goes on after it when it is a
`SimpleNameChar`, and answers `false` otherwise. -/
theorem isValidPartOfMemberNameUtf8_sequences (hq : q.Shortest) :
    ∃ c cs, symbolsOf (q :: qs) = c :: cs ∧
      ((SimpleNameChar c ∧ ∃ qs', qs' <:+ qs ∧ symbolsOf qs' = cs ∧
          isValidPartOfMemberNameUtf8 (bytesOf (q :: qs) ++ 0 :: after) =
            some (true, bytesOf qs' ++ 0 :: after)) ∨
        (¬SimpleNameChar c ∧
          ∃ p, isValidPartOfMemberNameUtf8 (bytesOf (q :: qs) ++ 0 :: after) = some (false, p))) := by
  rw [bytesOf_cons]
  cases q with
  | ascii ch h =>
    -- looked up in the table
    have hpart : isValidPartOfMemberNameUtf8 ((Sequence.ascii ch h).bytes ++ (bytesOf qs ++ 0 :: after)) =
        some (((dexMemberValidLowAscii.getD (ch.toNat >>> 5) 0 &&& 1 <<< (ch.toNat &&& 0x1f)) != 0),
          bytesOf qs ++ 0 :: after) := by
      rw [Sequence.bytes, List.singleton_append, isValidPartOfMemberNameUtf8_cons,
        toNat_ofNat_of_lt (by omega), if_pos h.2]
    have hiff := lowAscii_iff (show ch.toNat < 0x80 by omega)
    refine ⟨ch.toNat, symbolsOf qs, symbolsOf_ascii h, ?_⟩
    by_cases hs : SimpleNameChar ch.toNat
    · exact .inl ⟨hs, qs, List.suffix_refl qs, rfl, by rw [hpart, hiff.mpr hs]⟩
    · exact .inr ⟨hs, _, by rw [hpart, Bool.eq_false_iff.mpr (mt hiff.mp hs)]⟩
  | unit ch =>
    have hlt := ch.toNat_lt
    obtain ⟨b, t, hbt, hb⟩ := Sequence.bytes_head_of_unit ch
    have hslow : isValidPartOfMemberNameUtf8 ((Sequence.unit ch).bytes ++ (bytesOf qs ++ 0 :: after)) =
        isValidPartOfMemberNameUtf8Slow ((Sequence.unit ch).bytes ++ (bytesOf qs ++ 0 :: after)) := by
      rw [hbt, List.cons_append, isValidPartOfMemberNameUtf8_cons, if_neg (by omega)]
    have hget := (Sequence.unit ch).getUtf16FromUtf8In_bytes (bytesOf qs ++ 0 :: after)
    have htrail : getTrailingUtf16Char (Sequence.unit ch).packed = 0 := getTrailingUtf16Char_of_lt hlt
    have hleading : getLeadingUtf16Char (Sequence.unit ch).packed = ch.toNat :=
      getLeadingUtf16Char_of_lt hlt
    rw [hslow]
    by_cases hlead : isLeadingSurrogate ch
    · -- the leading half of a pair: the next sequence decides
      have hhigh : 0xd8 ≤ getLeadingUtf16Char (Sequence.unit ch).packed >>> 8 ∧
          getLeadingUtf16Char (Sequence.unit ch).packed >>> 8 ≤ 0xdb := by
        simp only [isLeadingSurrogate, Bool.and_eq_true, decide_eq_true_eq] at hlead
        rw [hleading, Nat.shiftRight_eq_div_pow]
        omega
      rw [isValidPartOfMemberNameUtf8Slow_of_lead hget htrail hhigh]
      cases qs with
      | nil =>
        -- the terminator is no trailing half
        refine ⟨ch.toNat, [], rfl, .inr ⟨not_simpleNameChar_of_leading hlead, after, ?_⟩⟩
        rw [bytesOf_nil, getUtf16FromUtf8In_zero, Option.map_some]
        simp [getLeadingUtf16Char]
      | cons q2 qs2 =>
        rw [bytesOf_cons, q2.getUtf16FromUtf8In_bytes, Option.map_some]
        by_cases ht : q2.IsTrailing
        · obtain ⟨lo, rfl, hlo⟩ := ht
          refine ⟨_, _, symbolsOf_halves hlead hlo, .inl ⟨simpleNameChar_pair hlead hlo, qs2,
            List.suffix_cons _ _, rfl, ?_⟩⟩
          rw [((Sequence.unit lo).trailingVerdict_iff).mpr ⟨lo, rfl, hlo⟩]
        · refine ⟨ch.toNat, _, symbolsOf_unpaired (by simpa using ht),
            .inr ⟨not_simpleNameChar_of_leading hlead, bytesOf qs2 ++ 0 :: after, ?_⟩⟩
          rw [Bool.eq_false_iff.mpr (mt q2.trailingVerdict_iff.mp ht)]
    · -- any other unit: the `switch`
      have hnot : isLeadingSurrogate ch = false := by simpa using hlead
      have hrange : ¬(0xd800 ≤ ch.toNat ∧ ch.toNat ≤ 0xdbff) := by
        simpa [isLeadingSurrogate] using hnot
      have hhigh : ¬(0xd8 ≤ getLeadingUtf16Char (Sequence.unit ch).packed >>> 8 ∧
          getLeadingUtf16Char (Sequence.unit ch).packed >>> 8 ≤ 0xdb) := by
        rw [hleading, Nat.shiftRight_eq_div_pow]
        omega
      rw [isValidPartOfMemberNameUtf8Slow_of_unit hget htrail hhigh, hleading]
      have hiff := unitVerdict_iff hlt hq hrange
      refine ⟨ch.toNat, symbolsOf qs, symbolsOf_unit hnot, ?_⟩
      by_cases hs : SimpleNameChar ch.toNat
      · exact .inl ⟨hs, qs, List.suffix_refl _, rfl, by rw [hiff.mpr hs]⟩
      · exact .inr ⟨hs, _, by rw [Bool.eq_false_iff.mpr (mt hiff.mp hs)]⟩
  | pair hi lo hhi hlo =>
    -- a four-byte sequence is accepted
    obtain ⟨b, t, hbt, hb⟩ := Sequence.bytes_head_of_pair hhi hlo
    have hget := (Sequence.pair hi lo hhi hlo).getUtf16FromUtf8In_bytes (bytesOf qs ++ 0 :: after)
    have htrail : getTrailingUtf16Char (Sequence.pair hi lo hhi hlo).packed ≠ 0 := by
      have hlo' := lo.toNat_lt
      rw [Sequence.packed, getTrailingUtf16Char_pair hi.toNat_lt hlo']
      simp only [isTrailingSurrogate, Bool.and_eq_true, decide_eq_true_eq] at hlo
      omega
    refine ⟨_, _, symbolsOf_pair hhi hlo, .inl ⟨simpleNameChar_pair hhi hlo, qs,
      List.suffix_refl _, rfl, ?_⟩⟩
    rw [hbt, List.cons_append, isValidPartOfMemberNameUtf8_cons, if_neg (by omega),
      ← List.cons_append, ← hbt]
    exact isValidPartOfMemberNameUtf8Slow_of_pair hget htrail

/-- A code point taken by the slow path is `0` or above `0x7f`. -/
theorem symbolsOf_head_of_not_ascii (hq : q.Shortest) (hna : ∀ ch h, q ≠ .ascii ch h) {c : Nat}
    {cs : List Nat} (h : symbolsOf (q :: qs) = c :: cs) : c = 0 ∨ 0x7f < c := by
  cases q with
  | ascii ch hch => exact absurd rfl (hna ch hch)
  | unit ch =>
    -- the unit itself, or the code point of a pair of halves
    by_cases hlead : isLeadingSurrogate ch
    · have hrange := hlead
      simp only [isLeadingSurrogate, Bool.and_eq_true, decide_eq_true_eq] at hrange
      cases qs with
      | nil =>
        have hc : c = ch.toNat := (List.cons.inj h).1.symm
        omega
      | cons q2 qs2 =>
        by_cases ht : q2.IsTrailing
        · obtain ⟨lo, rfl, hlo⟩ := ht
          rw [symbolsOf_halves hlead hlo, List.cons.injEq] at h
          omega
        · rw [symbolsOf_unpaired (by simpa using ht), List.cons.injEq] at h
          omega
    · rw [symbolsOf_unit (by simpa using hlead), List.cons.injEq] at h
      rw [← h.1]
      exact hq
  | pair hi lo hhi hlo =>
    rw [symbolsOf_pair hhi hlo, List.cons.injEq] at h
    omega

theorem ofNat_eq_iff {n : Nat} (hn : n < 256) (b : UInt8) : UInt8.ofNat n = b ↔ n = b.toNat := by
  constructor
  · rintro rfl
    rw [toNat_ofNat_of_lt hn]
  · intro h
    apply UInt8.toNat_inj.mp
    rw [toNat_ofNat_of_lt hn, h]

/-- How a validator sees the start of a string of sequences: a first byte that is not the
terminator and equals an ASCII byte exactly when the first code point is that character, in which
case both are one ASCII sequence. -/
theorem sequences_head (hq : q.Shortest) :
    ∃ b t c cs, bytesOf (q :: qs) ++ 0 :: after = b :: t ∧ symbolsOf (q :: qs) = c :: cs ∧
      b ≠ 0 ∧ (∀ x : UInt8, x.toNat ≤ 0x7f → x ≠ 0 → (b = x ↔ c = x.toNat)) ∧
      (c ≠ 0 → c ≤ 0x7f → t = bytesOf qs ++ 0 :: after ∧ cs = symbolsOf qs) := by
  by_cases hna : ∀ ch h, q ≠ .ascii ch h
  · -- a sequence of the slow path
    obtain ⟨c, cs, hcs, -⟩ := @isValidPartOfMemberNameUtf8_sequences q qs after hq
    have hc := symbolsOf_head_of_not_ascii hq hna hcs
    have hhead : ∃ b t, q.bytes = b :: t ∧ 0x7f < b.toNat := by
      cases q with
      | ascii ch h => exact absurd rfl (hna ch h)
      | unit ch => exact Sequence.bytes_head_of_unit ch
      | pair hi lo hhi hlo => exact Sequence.bytes_head_of_pair hhi hlo
    obtain ⟨b, t, hbt, hb⟩ := hhead
    refine ⟨b, t ++ (bytesOf qs ++ 0 :: after), c, cs, by rw [bytesOf_cons, hbt, List.cons_append],
      hcs, fun h => by rw [h] at hb; exact absurd hb (by decide), fun x hx hx0 => ?_, fun h0 h7 => ?_⟩
    · have hxne : x.toNat ≠ 0 := fun h => hx0 (UInt8.toNat_inj.mp h)
      constructor
      · rintro rfl
        omega
      · intro h
        omega
    · omega
  · -- an ASCII character
    push Not at hna
    obtain ⟨ch, h, rfl⟩ := hna
    refine ⟨UInt8.ofNat ch.toNat, bytesOf qs ++ 0 :: after, ch.toNat, symbolsOf qs, rfl,
      symbolsOf_ascii h, ofNat_ne_zero_of_lt h.1 (by omega), fun x _ _ => ofNat_eq_iff (by omega) x,
      fun _ _ => ⟨rfl, rfl⟩⟩

theorem codePoints_eq_nil_iff {us : List UInt16} : codePoints us = [] ↔ us = [] := by
  match us with
  | [] => simp [codePoints]
  | [u] => simp [codePoints]
  | hi :: lo :: rest =>
    simp only [codePoints, reduceCtorEq, iff_false]
    split <;> simp

theorem symbolsOf_eq_nil_iff : symbolsOf qs = [] ↔ qs = [] := by
  rw [symbolsOf, codePoints_eq_nil_iff, List.flatMap_eq_nil_iff]
  constructor
  · intro h
    cases qs with
    | nil => rfl
    | cons q qs =>
      have hq := h q List.mem_cons_self
      cases q <;> simp [Sequence.units] at hq
  · rintro rfl
    simp

/-- The byte after a character is the terminator exactly when no sequence is left. -/
theorem head?_bytesOf (qs : List Sequence) :
    (bytesOf qs ++ 0 :: after).head?.map (· == 0) = some (decide (qs = [])) := by
  cases qs with
  | nil => rfl
  | cons q qs =>
    obtain ⟨b, t, h⟩ := List.exists_cons_of_ne_nil (List.ne_nil_of_length_pos q.length_bytes_pos)
    have hb : b ≠ 0 := q.bytes_ne_zero b (by rw [h]; exact List.mem_cons_self)
    rw [bytesOf_cons, h, List.cons_append]
    simp [hb]

end Part

/-! ### The class name loop -/

section ClassNameLoop

/-- What the class name loop has still to see, while `sepOrFirst` holds (at the start or after a
separator) or not (inside a component). -/
def classNameRest (sep : Nat) (sepOrFirst : Bool) : Language Nat :=
  if sepOrFirst then className sep else className sep + sepByRest SimpleNameChar sep

/-- What ends the class name: the end of the string, or a `;` that is its last character. -/
def classNameEnd : ClassNameType → Language Nat
  | .kName => 1
  | .kDescriptor => {[';'.toNat]}

variable (type : ClassNameType) {sep : Nat} (hsep : sep = '/'.toNat ∨ sep = '.'.toNat)

theorem nil_mem_classNameRest_iff (sepOrFirst : Bool) :
    [] ∈ classNameRest sep sepOrFirst * classNameEnd type ↔
      sepOrFirst = false ∧ type = .kName := by
  cases sepOrFirst
  · rw [classNameRest, if_neg (by decide), className, nil_mem_sepBy_add_sepByRest_mul_iff]
    cases type <;> simp [classNameEnd, Language.mem_one, mem_singleton_iff]
  · rw [classNameRest, if_pos rfl, className]
    simpa using nil_not_mem_sepBy_mul _

/-- The other separator is in no class name. -/
theorem other_cons_mem_classNameRest_iff (sepOrFirst : Bool) {c : Nat}
    (hc : c = '/'.toNat ∨ c = '.'.toNat) (hcsep : c ≠ sep) (cs : List Nat) :
    c :: cs ∉ classNameRest sep sepOrFirst * classNameEnd type := by
  have hsimple : ¬SimpleNameChar c := by
    rcases hc with rfl | rfl <;> decide
  have hend : c :: cs ∉ classNameEnd type := by
    cases type <;> rcases hc with rfl | rfl <;> simp [classNameEnd, Language.mem_one, mem_singleton_iff]
  cases sepOrFirst
  · simp only [classNameRest, Bool.false_eq_true, if_false, className]
    rw [cons_mem_sepBy_add_sepByRest_mul_iff]
    simp [hsimple, hend, hcsep]
  · simp only [classNameRest, if_true, className]
    rw [cons_mem_sepBy_mul_iff]
    simp [hsimple]

/-- The test `type == kDescriptor && !sep_or_first` before a `;`. -/
theorem descriptorEnd_iff (sepOrFirst : Bool) :
    (type == .kDescriptor && !sepOrFirst) = true ↔ sepOrFirst = false ∧ type = .kDescriptor := by
  cases type <;> cases sepOrFirst <;> decide

include hsep

/-- A character that is no separator and no `;`: the class name goes on inside a component when
it is a `SimpleNameChar`. -/
theorem cons_mem_classNameRest_iff (sepOrFirst : Bool) {c : Nat}
    (hc : ¬(c = '/'.toNat ∨ c = '.'.toNat)) (hsemi : c ≠ ';'.toNat) (cs : List Nat) :
    c :: cs ∈ classNameRest sep sepOrFirst * classNameEnd type ↔
      SimpleNameChar c ∧ cs ∈ classNameRest sep false * classNameEnd type := by
  have hend : c :: cs ∉ classNameEnd type := by
    cases type
    · simp [classNameEnd, Language.mem_one]
    · rw [classNameEnd, mem_singleton_iff, List.cons_eq_cons]
      exact fun h => hsemi h.1
  have hcsep : c ≠ sep := fun h => hc (h ▸ hsep)
  cases sepOrFirst
  · simp only [classNameRest, Bool.false_eq_true, if_false, className]
    rw [cons_mem_sepBy_add_sepByRest_mul_iff]
    simp [hcsep, hend]
  · simp only [classNameRest, if_true, className, Bool.false_eq_true, if_false]
    rw [cons_mem_sepBy_mul_iff]

/-- A separator ends a nonempty component. -/
theorem sep_cons_mem_classNameRest_iff (sepOrFirst : Bool) (cs : List Nat) :
    sep :: cs ∈ classNameRest sep sepOrFirst * classNameEnd type ↔
      sepOrFirst = false ∧ cs ∈ classNameRest sep true * classNameEnd type := by
  have hsimple : ¬SimpleNameChar sep := by
    rcases hsep with rfl | rfl <;> decide
  have hend : sep :: cs ∉ classNameEnd type := by
    cases type <;> rcases hsep with rfl | rfl <;> simp [classNameEnd, Language.mem_one, mem_singleton_iff]
  cases sepOrFirst
  · simp only [classNameRest, Bool.false_eq_true, if_false, className, if_true]
    rw [cons_mem_sepBy_add_sepByRest_mul_iff]
    simp [hsimple, hend]
  · simp only [classNameRest, if_true, className]
    rw [cons_mem_sepBy_mul_iff]
    simp [hsimple]

/-- A `;` ends a descriptor after a nonempty component, as the string's last character. -/
theorem semicolon_cons_mem_classNameRest_iff (sepOrFirst : Bool) (cs : List Nat) :
    ';'.toNat :: cs ∈ classNameRest sep sepOrFirst * classNameEnd type ↔
      sepOrFirst = false ∧ type = .kDescriptor ∧ cs = [] := by
  -- simp reads the character literal as its code, 59
  have hsimple : ¬SimpleNameChar 59 := by decide
  have hcsep : 59 ≠ sep := by rcases hsep with rfl | rfl <;> decide
  cases sepOrFirst
  · simp only [classNameRest, Bool.false_eq_true, if_false, className]
    rw [cons_mem_sepBy_add_sepByRest_mul_iff]
    cases type <;> simp [hsimple, hcsep, classNameEnd, Language.mem_one, mem_singleton_iff]
  · simp only [classNameRest, if_true, className]
    rw [cons_mem_sepBy_mul_iff]
    simp [hsimple]

omit hsep

/-- The class name loop decides, on shortest-form sequences before the terminator, whether the
code points left are the rest of a class name: by strong induction on the sequences left, one
character (an ASCII byte, or a sequence of the slow path) at each step. -/
theorem isValidClassNameLoop_decides {kSeparator : UInt8}
    (hsep : kSeparator = '/'.toUInt8 ∨ kSeparator = '.'.toUInt8) (after : List UInt8)
    (qs : List Sequence) (hqs : ∀ q ∈ qs, q.Shortest) (sepOrFirst : Bool) :
    Decides (isValidClassNameLoop type kSeparator sepOrFirst (bytesOf qs ++ 0 :: after))
      (symbolsOf qs ∈ classNameRest kSeparator.toNat sepOrFirst * classNameEnd type) := by
  have hsep' : kSeparator.toNat = '/'.toNat ∨ kSeparator.toNat = '.'.toNat := by
    rcases hsep with rfl | rfl <;> decide
  induction hn : qs.length using Nat.strong_induction_on generalizing qs sepOrFirst with
  | _ n ih =>
  cases qs with
  | nil =>
    rw [bytesOf_nil, symbolsOf_nil, isValidClassNameLoop_zero,
      nil_mem_classNameRest_iff]
    exact ⟨_, rfl, by cases sepOrFirst <;> cases type <;> simp⟩
  | cons q qs =>
    have hlt : qs.length < n := by
      rw [← hn, List.length_cons]
      omega
    have htail_shortest : ∀ q' ∈ qs, q'.Shortest := fun q' hq' => hqs q' (List.mem_cons_of_mem _ hq')
    obtain ⟨b, t, c, cs, hbt, hcs, hb0, hascii, htail⟩ :=
      @sequences_head q qs after (hqs q List.mem_cons_self)
    rw [hbt, hcs]
    by_cases hsemi : b = ';'.toUInt8
    · -- `;` ends a descriptor when the string ends right after it
      have hc : c = ';'.toNat := (hascii _ (by decide) (by decide)).mp hsemi
      obtain ⟨rfl, rfl⟩ := htail (by rw [hc]; decide) (by rw [hc]; decide)
      subst hsemi hc
      rw [isValidClassNameLoop_semicolon, semicolon_cons_mem_classNameRest_iff type hsep',
        symbolsOf_eq_nil_iff]
      split
      · next h =>
        rw [descriptorEnd_iff] at h
        exact ⟨_, head?_bytesOf after qs, by simp [h]⟩
      · next h =>
        rw [descriptorEnd_iff] at h
        exact decides_false fun h' => h ⟨h'.1, h'.2.1⟩
    by_cases hslash : b = '/'.toUInt8 ∨ b = '.'.toUInt8
    · -- a separator: the right one, after a nonempty component
      have hb7 : b.toNat ≤ 0x7f ∧ 0 < b.toNat := by rcases hslash with rfl | rfl <;> decide
      have hc : c = b.toNat := (hascii b hb7.1 hb0).mp rfl
      have hcslash : c = '/'.toNat ∨ c = '.'.toNat := by
        rcases hslash with rfl | rfl
        · exact .inl hc
        · exact .inr hc
      obtain ⟨rfl, rfl⟩ := htail (by omega) (by omega)
      rw [isValidClassNameLoop_separator hslash]
      by_cases hk : b = kSeparator
      · subst hk
        rw [if_neg (not_not_intro rfl), hc, sep_cons_mem_classNameRest_iff type hsep']
        cases sepOrFirst
        · rw [if_neg (by decide)]
          exact (ih qs.length hlt qs htail_shortest true rfl).congr (by simp)
        · exact decides_false (by simp)
      · rw [if_pos hk]
        have hcsep : c ≠ kSeparator.toNat := fun h => hk (UInt8.toNat_inj.mp (hc ▸ h))
        exact decides_false (other_cons_mem_classNameRest_iff type sepOrFirst hcslash hcsep _)
    · -- any other character is left to `IsValidPartOfMemberNameUtf8`
      rw [isValidClassNameLoop_part hb0 hsemi hslash, ← hbt]
      obtain ⟨c', cs', hcs', hpart⟩ :=
        @isValidPartOfMemberNameUtf8_sequences q qs after (hqs q List.mem_cons_self)
      rw [hcs, List.cons.injEq] at hcs'
      obtain ⟨rfl, rfl⟩ := hcs'
      have hcslash : ¬(c = '/'.toNat ∨ c = '.'.toNat) := by
        rintro (h | h)
        · exact hslash (.inl ((hascii _ (by decide) (by decide)).mpr h))
        · exact hslash (.inr ((hascii _ (by decide) (by decide)).mpr h))
      have hcsemi : c ≠ ';'.toNat := fun h => hsemi ((hascii _ (by decide) (by decide)).mpr h)
      rw [cons_mem_classNameRest_iff type hsep' sepOrFirst hcslash hcsemi]
      rcases hpart with ⟨hs, qs', hsuf, rfl, hp⟩ | ⟨hs, p, hp⟩
      · rw [hp, Option.bind_some, if_pos rfl]
        have hlen : qs'.length < n := by
          have := hsuf.length_le
          omega
        exact (ih _ hlen qs' (fun q' hq' => htail_shortest q' (hsuf.subset hq')) false rfl).congr
          (by simp [hs])
      · rw [hp, Option.bind_some, if_neg Bool.false_ne_true]
        exact decides_false fun h => hs h.1

end ClassNameLoop

/-! ### Member names -/

section MemberName

/-- What ends a member name: the end of the string, or for a name that opened with `<` a `>`
that is its last character. -/
def memberNameEnd (angleName : Bool) : Language Nat :=
  if angleName then {['>'.toNat]} else 1

variable (angleName : Bool)

theorem nil_mem_memberNameRest_iff :
    [] ∈ (simpleName + 1) * memberNameEnd angleName ↔ angleName = false := by
  rw [nil_mem_mul_iff, Language.mem_add, Language.mem_one]
  cases angleName <;> simp [memberNameEnd, mem_singleton_iff]

theorem cons_mem_memberNameRest_iff {c : Nat} (hgt : c ≠ '>'.toNat) (cs : List Nat) :
    c :: cs ∈ (simpleName + 1) * memberNameEnd angleName ↔
      SimpleNameChar c ∧ cs ∈ (simpleName + 1) * memberNameEnd angleName := by
  have hend : c :: cs ∉ memberNameEnd angleName := by
    cases angleName
    · simp [memberNameEnd, Language.mem_one]
    · rw [memberNameEnd, if_pos rfl, mem_singleton_iff, List.cons_eq_cons]
      exact fun h => hgt h.1
  rw [simpleName, cons_mem_plus_add_one_mul_iff]
  simp [hend]

theorem gt_cons_mem_memberNameRest_iff (cs : List Nat) :
    '>'.toNat :: cs ∈ (simpleName + 1) * memberNameEnd angleName ↔
      angleName = true ∧ cs = [] := by
  -- simp reads the character literal as its code, 62
  have hsimple : ¬SimpleNameChar 62 := by decide
  rw [simpleName, cons_mem_plus_add_one_mul_iff]
  cases angleName <;> simp [hsimple, memberNameEnd, Language.mem_one, mem_singleton_iff]

/-- The member name loop decides, on shortest-form sequences before the terminator, whether the
code points left end a member name: by strong induction on the sequences left. -/
theorem isValidMemberNameLoop_decides (after : List UInt8) (qs : List Sequence)
    (hqs : ∀ q ∈ qs, q.Shortest) :
    Decides (isValidMemberNameLoop angleName (bytesOf qs ++ 0 :: after))
      (symbolsOf qs ∈ (simpleName + 1) * memberNameEnd angleName) := by
  induction hn : qs.length using Nat.strong_induction_on generalizing qs with
  | _ n ih =>
  cases qs with
  | nil =>
    rw [bytesOf_nil, symbolsOf_nil, isValidMemberNameLoop_zero, nil_mem_memberNameRest_iff]
    exact ⟨_, rfl, by cases angleName <;> simp⟩
  | cons q qs =>
    have htail_shortest : ∀ q' ∈ qs, q'.Shortest := fun q' hq' => hqs q' (List.mem_cons_of_mem _ hq')
    obtain ⟨b, t, c, cs, hbt, hcs, hb0, hascii, htail⟩ :=
      @sequences_head q qs after (hqs q List.mem_cons_self)
    rw [hbt, hcs]
    by_cases hgt : b = '>'.toUInt8
    · -- `>` ends an angle name when the string ends right after it
      have hc : c = '>'.toNat := (hascii _ (by decide) (by decide)).mp hgt
      obtain ⟨rfl, rfl⟩ := htail (by rw [hc]; decide) (by rw [hc]; decide)
      subst hgt hc
      rw [isValidMemberNameLoop_gt, gt_cons_mem_memberNameRest_iff, symbolsOf_eq_nil_iff]
      cases angleName
      · exact decides_false (by simp)
      · exact ⟨_, head?_bytesOf after qs, by simp⟩
    · -- any other character is left to `IsValidPartOfMemberNameUtf8`
      rw [isValidMemberNameLoop_part hb0 hgt, ← hbt]
      obtain ⟨c', cs', hcs', hpart⟩ :=
        @isValidPartOfMemberNameUtf8_sequences q qs after (hqs q List.mem_cons_self)
      rw [hcs, List.cons.injEq] at hcs'
      obtain ⟨rfl, rfl⟩ := hcs'
      have hcgt : c ≠ '>'.toNat := fun h => hgt ((hascii _ (by decide) (by decide)).mpr h)
      rw [cons_mem_memberNameRest_iff angleName hcgt]
      rcases hpart with ⟨hs, qs', hsuf, rfl, hp⟩ | ⟨hs, p, hp⟩
      · rw [hp, Option.bind_some, if_pos rfl]
        have hlen : qs'.length < n := by
          have := hsuf.length_le
          rw [← hn, List.length_cons]
          omega
        exact (ih _ hlen qs' (fun q' hq' => htail_shortest q' (hsuf.subset hq')) rfl).congr
          (by simp [hs])
      · rw [hp, Option.bind_some, if_neg Bool.false_ne_true]
        exact decides_false fun h => hs h.1

theorem nil_not_mem_memberName : [] ∉ memberName + {['<'.toNat, '>'.toNat]} := by
  rw [memberName, Language.mem_add, Language.mem_add, mem_singleton_iff, mul_assoc]
  simp only [not_or]
  exact ⟨⟨nil_not_mem_plus, nil_not_mem_singleton_mul⟩, by simp⟩

/-- A name that opens with `<`: an angle name, or `<>`. -/
theorem lt_cons_mem_memberName_iff (cs : List Nat) :
    '<'.toNat :: cs ∈ memberName + {['<'.toNat, '>'.toNat]} ↔
      cs ∈ (simpleName + 1) * memberNameEnd true := by
  -- simp reads the character literal as its code, 60
  have hsimple : ¬SimpleNameChar 60 := by decide
  rw [memberName, Language.mem_add, Language.mem_add, mul_assoc, cons_mem_singleton_mul_iff,
    memberNameEnd, if_pos rfl, add_mul, one_mul, Language.mem_add, simpleName,
    cons_mem_plus_iff, mem_singleton_iff, mem_singleton_iff, List.cons_eq_cons]
  simp [hsimple]

/-- A name that does not open with `<` is a simple name. -/
theorem cons_mem_memberName_iff {c : Nat} (hlt : c ≠ '<'.toNat) (cs : List Nat) :
    c :: cs ∈ memberName + {['<'.toNat, '>'.toNat]} ↔
      c :: cs ∈ (simpleName + 1) * memberNameEnd false := by
  rw [memberName, Language.mem_add, Language.mem_add, mul_assoc, cons_mem_singleton_mul_iff,
    memberNameEnd, if_neg Bool.false_ne_true, mul_one, Language.mem_add, mem_singleton_iff,
    List.cons_eq_cons]
  have hlt' : c ≠ 60 := hlt
  simp [hlt', Language.mem_one]

/-- `IsValidMemberName` decides, on every shortest-form string, whether it is a member name or
`<>`. -/
theorem isValidMemberName_decides (after : List UInt8) (qs : List Sequence)
    (hqs : ∀ q ∈ qs, q.Shortest) :
    Decides (isValidMemberName (bytesOf qs ++ 0 :: after))
      (symbolsOf qs ∈ memberName + {['<'.toNat, '>'.toNat]}) := by
  cases qs with
  | nil =>
    rw [bytesOf_nil, symbolsOf_nil]
    exact decides_false nil_not_mem_memberName
  | cons q qs =>
    have htail_shortest : ∀ q' ∈ qs, q'.Shortest := fun q' hq' => hqs q' (List.mem_cons_of_mem _ hq')
    obtain ⟨b, t, c, cs, hbt, hcs, hb0, hascii, htail⟩ :=
      @sequences_head q qs after (hqs q List.mem_cons_self)
    rw [hbt, hcs, isValidMemberName, if_neg hb0]
    by_cases hlt : b = '<'.toUInt8
    · have hc : c = '<'.toNat := (hascii _ (by decide) (by decide)).mp hlt
      obtain ⟨rfl, rfl⟩ := htail (by rw [hc]; decide) (by rw [hc]; decide)
      rw [if_pos hlt, hc, lt_cons_mem_memberName_iff]
      exact isValidMemberNameLoop_decides true after qs htail_shortest
    · have hclt : c ≠ '<'.toNat := fun h => hlt ((hascii _ (by decide) (by decide)).mpr h)
      rw [if_neg hlt, cons_mem_memberName_iff hclt, ← hbt, ← hcs]
      exact isValidMemberNameLoop_decides false after _ hqs

/-- `<init>`, the name of a constructor, as the writer's sequences. -/
theorem isValidMemberName_decides_init :
    (∀ q ∈ sequences [0x3c, 0x69, 0x6e, 0x69, 0x74, 0x3e], q.Shortest) ∧
      Decides (isValidMemberName (bytesOf (sequences [0x3c, 0x69, 0x6e, 0x69, 0x74, 0x3e]) ++ [0]))
        (symbolsOf (sequences [0x3c, 0x69, 0x6e, 0x69, 0x74, 0x3e]) ∈
          memberName + {['<'.toNat, '>'.toNat]}) :=
  ⟨shortest_of_mem_sequences _, isValidMemberName_decides [] _ (shortest_of_mem_sequences _)⟩

end MemberName

/-! ### Descriptors and class names -/

section Descriptor

/-- The language `IsValidClassName<kType, sep>` is written for: a class name or the descriptor of
an array for `kName`, a descriptor for `kDescriptor`. -/
def classNameLanguage : ClassNameType → Nat → Language Nat
  | .kName, sep => className sep + arrayClassName sep
  | .kDescriptor, sep => descriptor sep

variable {sep : Nat}

theorem primitiveDescriptors_toNat :
    primitiveDescriptors.map UInt8.toNat = "BCDFIJSZ".toList.map Char.toNat := by
  decide

theorem cons_mem_primitiveType_iff {c : Nat} {cs : List Nat} :
    c :: cs ∈ primitiveType ↔ c ∈ "BCDFIJSZ".toList.map Char.toNat ∧ cs = [] := by
  constructor
  · rintro ⟨x, hx, h⟩
    obtain ⟨rfl, rfl⟩ := List.cons_eq_cons.mp h
    exact ⟨List.mem_map.mpr ⟨x, hx, rfl⟩, rfl⟩
  · rintro ⟨hc, rfl⟩
    obtain ⟨x, hx, rfl⟩ := List.mem_map.mp hc
    exact ⟨x, hx, rfl⟩

theorem cons_mem_fieldType_iff {c : Nat} {cs : List Nat} :
    c :: cs ∈ fieldType sep ↔ (c ∈ "BCDFIJSZ".toList.map Char.toNat ∧ cs = []) ∨
      (c = 'L'.toNat ∧ cs ∈ className sep * {[';'.toNat]}) := by
  rw [fieldType, Language.mem_add, mul_assoc, cons_mem_singleton_mul_iff, cons_mem_primitiveType_iff]

theorem head?_ne_of_mem_fieldType : ∀ u ∈ fieldType sep, u.head? ≠ some '['.toNat := by
  rintro (_ | ⟨c, cs⟩) hu
  · simp
  · rw [cons_mem_fieldType_iff] at hu
    have hcodes : '['.toNat ∉ "BCDFIJSZ".toList.map Char.toNat := by decide
    rcases hu with ⟨hc, -⟩ | ⟨rfl, -⟩
    · exact fun h => hcodes (by simpa [← Option.some_inj.mp h] using hc)
    · simp

theorem nil_not_mem_fieldType : [] ∉ fieldType sep := by
  rw [fieldType, Language.mem_add, mul_assoc, not_or]
  exact ⟨fun ⟨_, _, h⟩ => List.cons_ne_nil _ _ h.symm, nil_not_mem_singleton_mul⟩

theorem replicate_append_eq_singleton_iff {k : Nat} {r : List Nat} {x : Nat} (hx : x ≠ '['.toNat) :
    List.replicate k '['.toNat ++ r = [x] ↔ k = 0 ∧ r = [x] := by
  cases k with
  | zero => simp
  | succ k =>
    simp only [List.replicate_succ, List.cons_append, List.cons_eq_cons, Nat.add_one_ne_zero,
      false_and, iff_false, not_and]
    exact fun h => absurd h.symm hx

/-- A word led by `[` is no class name, whatever the separator. -/
theorem lbracket_cons_not_mem_className (w : List Nat) : '['.toNat :: w ∉ className sep := by
  rw [← mul_one (className sep), className, cons_mem_sepBy_mul_iff]
  exact fun h => absurd h.1 (by decide)

/-- Membership in a descriptor, after the `[` in front. -/
theorem replicate_append_mem_descriptor_iff {k : Nat} {r : List Nat}
    (hhead : r.head? ≠ some '['.toNat) :
    List.replicate k '['.toNat ++ r ∈ descriptor sep ↔
      (k ≤ 255 ∧ r ∈ fieldType sep) ∨ (k = 0 ∧ r = ['V'.toNat]) := by
  rw [descriptor, Language.mem_add, replicate_append_mem_runUpTo_mul_iff hhead head?_ne_of_mem_fieldType,
    mem_singleton_iff, replicate_append_eq_singleton_iff (by decide)]

/-- The byte the validators see is one of some ASCII bytes exactly when the code point is one of
their codes. -/
theorem mem_ascii_iff {b : UInt8} {c : Nat}
    (hascii : ∀ x : UInt8, x.toNat ≤ 0x7f → x ≠ 0 → (b = x ↔ c = x.toNat)) :
    ∀ l : List UInt8, (∀ x ∈ l, x.toNat ≤ 0x7f ∧ x ≠ 0) → (b ∈ l ↔ c ∈ l.map UInt8.toNat)
  | [], _ => by simp
  | x :: l, hl => by
    have hx := hl x List.mem_cons_self
    rw [List.mem_cons, List.map_cons, List.mem_cons, hascii x hx.1 hx.2,
      mem_ascii_iff hascii l fun y hy => hl y (List.mem_cons_of_mem _ hy)]

variable (after : List UInt8)

/-- `skipArrayDims` counts the `[` in front of a shortest-form string and stops at the first code
point that is none: by induction on the sequences. -/
theorem skipArrayDims_sequences :
    ∀ qs : List Sequence, (∀ q ∈ qs, q.Shortest) → ∃ k qs', qs' <:+ qs ∧
      symbolsOf qs = List.replicate k '['.toNat ++ symbolsOf qs' ∧
      (symbolsOf qs').head? ≠ some '['.toNat ∧
      ∀ arrayCount, skipArrayDims (bytesOf qs ++ 0 :: after) arrayCount =
        some (arrayCount + k, bytesOf qs' ++ 0 :: after)
  | [], _ =>
    ⟨0, [], List.suffix_refl _, rfl, by simp [symbolsOf_nil],
      fun _ => by rw [bytesOf_nil, skipArrayDims, if_neg (by decide), Nat.add_zero]⟩
  | q :: qs, hqs => by
    obtain ⟨b, t, c, cs, hbt, hcs, hb0, hascii, htail⟩ :=
      @sequences_head q qs after (hqs q List.mem_cons_self)
    by_cases hb : b = '['.toUInt8
    · -- one more dimension
      have hc : c = '['.toNat := (hascii _ (by decide) (by decide)).mp hb
      obtain ⟨rfl, rfl⟩ := htail (by rw [hc]; decide) (by rw [hc]; decide)
      obtain ⟨k, qs', hsuf, hsym, hhead, hskip⟩ :=
        skipArrayDims_sequences qs fun q' hq' => hqs q' (List.mem_cons_of_mem _ hq')
      refine ⟨k + 1, qs', hsuf.trans (List.suffix_cons _ _), ?_, hhead, fun arrayCount => ?_⟩
      · rw [hcs, hsym, hc, List.replicate_succ, List.cons_append]
      · rw [hbt, skipArrayDims, if_pos hb, hskip, Nat.add_assoc, Nat.add_comm 1 k]
    · -- the first code point that is not `[`
      have hc : c ≠ '['.toNat := fun h => hb ((hascii _ (by decide) (by decide)).mpr h)
      refine ⟨0, q :: qs, List.suffix_refl _, rfl, by rw [hcs]; simpa using hc, fun arrayCount => ?_⟩
      rw [hbt, skipArrayDims, if_neg hb, Nat.add_zero]

/-- After the dimensions, `descriptorSwitch` decides whether they and the field type after them
form a descriptor: one case for each branch of the `switch`. -/
theorem descriptorSwitch_decides {kSeparator : UInt8}
    (hsep : kSeparator = '/'.toUInt8 ∨ kSeparator = '.'.toUInt8) {k : Nat} (hk : k ≤ 255)
    (qs : List Sequence) (hqs : ∀ q ∈ qs, q.Shortest) (hhead : (symbolsOf qs).head? ≠ some '['.toNat) :
    Decides (descriptorSwitch k kSeparator (bytesOf qs ++ 0 :: after))
      (List.replicate k '['.toNat ++ symbolsOf qs ∈ descriptor kSeparator.toNat) := by
  rw [replicate_append_mem_descriptor_iff hhead]
  cases qs with
  | nil =>
    rw [bytesOf_nil, symbolsOf_nil]
    exact decides_false (by simp [nil_not_mem_fieldType])
  | cons q qs =>
    have htail_shortest : ∀ q' ∈ qs, q'.Shortest := fun q' hq' => hqs q' (List.mem_cons_of_mem _ hq')
    obtain ⟨b, t, c, cs, hbt, hcs, hb0, hascii, htail⟩ :=
      @sequences_head q qs after (hqs q List.mem_cons_self)
    have hprim_iff := mem_ascii_iff hascii primitiveDescriptors (by decide +kernel)
    rw [primitiveDescriptors_toNat] at hprim_iff
    have hcodes : ∀ x ∈ "BCDFIJSZ".toList.map Char.toNat,
        x ≠ 0 ∧ x ≤ 0x7f ∧ x ≠ 'L'.toNat ∧ x ≠ 'V'.toNat := by decide
    rw [hbt, hcs, cons_mem_fieldType_iff, List.cons_eq_cons, descriptorSwitch]
    by_cases hprim : b ∈ primitiveDescriptors
    · -- a primitive type ends the string
      have hc := hprim_iff.mp hprim
      obtain ⟨rfl, rfl⟩ := htail (hcodes c hc).1 (hcodes c hc).2.1
      have hcL := (hcodes c hc).2.2.1
      have hcV := (hcodes c hc).2.2.2
      rw [if_pos hprim]
      refine ⟨_, head?_bytesOf after qs, ?_⟩
      rw [decide_eq_true_iff, symbolsOf_eq_nil_iff]
      tauto
    rw [if_neg hprim]
    have hc_prim : c ∉ "BCDFIJSZ".toList.map Char.toNat := mt hprim_iff.mpr hprim
    by_cases hv : b = 'V'.toUInt8
    · -- `V`, for no array
      have hc : c = 'V'.toNat := (hascii _ (by decide) (by decide)).mp hv
      obtain ⟨rfl, rfl⟩ := htail (by rw [hc]; decide) (by rw [hc]; decide)
      rw [if_pos hv]
      have hcL : c ≠ 'L'.toNat := by rw [hc]; decide
      by_cases hk0 : k = 0
      · rw [if_pos hk0]
        refine ⟨_, head?_bytesOf after qs, ?_⟩
        rw [decide_eq_true_iff, symbolsOf_eq_nil_iff]
        tauto
      · rw [if_neg hk0]
        exact decides_false (by tauto)
    rw [if_neg hv]
    have hcv : c ≠ 'V'.toNat := fun h => hv ((hascii _ (by decide) (by decide)).mpr h)
    by_cases hl : b = 'L'.toUInt8
    · -- `L`: a class name up to the `;` that ends the string
      have hc : c = 'L'.toNat := (hascii _ (by decide) (by decide)).mp hl
      obtain ⟨rfl, rfl⟩ := htail (by rw [hc]; decide) (by rw [hc]; decide)
      rw [if_pos hl]
      refine (isValidClassNameLoop_decides .kDescriptor hsep after qs htail_shortest true).congr ?_
      rw [classNameRest, if_pos rfl, classNameEnd]
      tauto
    · -- any other character
      rw [if_neg hl]
      have hcl : c ≠ 'L'.toNat := fun h => hl ((hascii _ (by decide) (by decide)).mpr h)
      exact decides_false (by tauto)

theorem mem_classNameLanguage_of_lbracket {kType : ClassNameType} {w : List Nat}
    (hw : w.head? = some '['.toNat) :
    w ∈ classNameLanguage kType sep ↔ w ∈ descriptor sep := by
  cases kType with
  | kDescriptor => rfl
  | kName =>
    obtain ⟨w, rfl⟩ : ∃ w', w = '['.toNat :: w' := by
      cases w with
      | nil => simp at hw
      | cons c w => exact ⟨w, by simpa using hw⟩
    rw [classNameLanguage, Language.mem_add]
    constructor
    · rintro (h | ⟨h, -⟩)
      · exact absurd h (lbracket_cons_not_mem_className w)
      · exact h
    · exact fun h => .inr ⟨h, rfl⟩

theorem mem_classNameLanguage_kName {w : List Nat} (hw : w.head? ≠ some '['.toNat) :
    w ∈ classNameLanguage .kName sep ↔ w ∈ className sep := by
  rw [classNameLanguage, Language.mem_add]
  exact or_iff_left fun h => hw h.2

/-- `IsValidClassName` decides its language on every shortest-form string: the dimensions in
front, and then the `switch` of a descriptor or the class name loop. -/
theorem isValidClassName_decides (kType : ClassNameType) {kSeparator : UInt8}
    (hsep : kSeparator = '/'.toUInt8 ∨ kSeparator = '.'.toUInt8) (qs : List Sequence)
    (hqs : ∀ q ∈ qs, q.Shortest) :
    Decides (isValidClassName kType kSeparator (bytesOf qs ++ 0 :: after))
      (symbolsOf qs ∈ classNameLanguage kType kSeparator.toNat) := by
  obtain ⟨k, qs', hsuf, hsym, hhead, hskip⟩ := skipArrayDims_sequences after qs hqs
  have hqs' : ∀ q ∈ qs', q.Shortest := fun q hq => hqs q (hsuf.subset hq)
  rw [isValidClassName_of_skipArrayDims (by rw [hskip 0, Nat.zero_add]), hsym]
  split_ifs with hk hdesc
  · -- more than 255 dimensions
    refine decides_false fun h => ?_
    have hlead : (List.replicate k '['.toNat ++ symbolsOf qs').head? = some '['.toNat := by
      obtain ⟨j, rfl⟩ : ∃ j, k = j + 1 := ⟨k - 1, by omega⟩
      simp [List.replicate_succ]
    rw [mem_classNameLanguage_of_lbracket hlead, replicate_append_mem_descriptor_iff hhead] at h
    omega
  · -- a descriptor, or an array of any sort
    refine (descriptorSwitch_decides after hsep (by omega) qs' hqs' hhead).congr ?_
    rcases hdesc with rfl | hk0
    · rfl
    · obtain ⟨j, rfl⟩ : ∃ j, k = j + 1 := ⟨k - 1, by omega⟩
      rw [mem_classNameLanguage_of_lbracket (by simp [List.replicate_succ])]
  · -- a class name with no dimensions
    obtain ⟨rfl, rfl⟩ : kType = .kName ∧ k = 0 := by
      cases kType <;> simp_all
    rw [List.replicate_zero, List.nil_append, mem_classNameLanguage_kName hhead]
    exact (isValidClassNameLoop_decides .kName hsep after qs' hqs' true).congr
      (by simp [classNameRest, classNameEnd])

/-- `[LA;`, the descriptor of an array of a class, with `/` as the separator. -/
theorem isValidClassName_decides_array :
    ('/'.toUInt8 = '/'.toUInt8 ∨ '/'.toUInt8 = '.'.toUInt8) ∧
      (∀ q ∈ sequences [0x5b, 0x4c, 0x41, 0x3b], q.Shortest) ∧
      Decides (isValidClassName .kDescriptor '/'.toUInt8
          (bytesOf (sequences [0x5b, 0x4c, 0x41, 0x3b]) ++ [0]))
        (symbolsOf (sequences [0x5b, 0x4c, 0x41, 0x3b]) ∈
          classNameLanguage .kDescriptor '/'.toUInt8.toNat) :=
  ⟨.inl rfl, shortest_of_mem_sequences _,
    isValidClassName_decides [] .kDescriptor (.inl rfl) _ (shortest_of_mem_sequences _)⟩

end Descriptor

end AndroidArt.Dex
