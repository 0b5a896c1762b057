/-
Module: AndroidArt.Dex.DescriptorsNames
Purpose: `libdexfile/dex/descriptors_names.cc`: the validators `IsValidMemberName`,
  `IsValidBinaryClassName`, `IsValidJniClassName` and `IsValidDescriptor`, which walk a
  NUL-terminated modified UTF-8 string with `IsValidPartOfMemberNameUtf8` (a low-ASCII bit table,
  and `GetUtf16FromUtf8` with surrogate pairing for the other characters), and `DotToDescriptor`
  / `DescriptorToDot`.
Trusted boundary: a pointer is the rest of the buffer from it; `*s` is its first byte and `s[1]`
  its second. A byte read through `char` is taken unsigned, as `(uint8_t) *s` and the masks of
  `GetUtf16FromUtf8` see it.
Main exports: getUtf16FromUtf8In, isValidPartOfMemberNameUtf8, isValidMemberName,
  isValidClassName
-/
import AndroidArt.Dex.UtfConvert

namespace AndroidArt.Dex

open AndroidArt.Lib

/-! ### Reading a character -/

/-- How many bytes `GetUtf16FromUtf8` reads for the sequence that `one` leads: it tests bit 7,
then bit 5, then bit 4 of it. -/
def sequenceLength (one : UInt8) : Nat :=
  if one.toNat &&& 0x80 = 0 then 1
  else if one.toNat &&& 0x20 = 0 then 2
  else if one.toNat &&& 0x10 = 0 then 3
  else 4

/-- `GetUtf16FromUtf8(&s)` on a pointer into a buffer: the value and the pointer after the
sequence, or `none` when a byte it reads lies past the buffer. -/
def getUtf16FromUtf8In (s : List UInt8) : Option (Nat × List UInt8) :=
  match s with
  | [] => none
  | one :: _ => if sequenceLength one ≤ s.length then some (getUtf16FromUtf8 s) else none

theorem getUtf16FromUtf8In_nil : getUtf16FromUtf8In [] = none := rfl

theorem getUtf16FromUtf8In_cons (one : UInt8) (t : List UInt8) :
    getUtf16FromUtf8In (one :: t) =
      if sequenceLength one ≤ t.length + 1 then some (getUtf16FromUtf8 (one :: t)) else none := rfl

/-- `DEX_MEMBER_VALID_LOW_ASCII`: a bit for each of the 128 ASCII characters, set for `0`–`9`,
`$`, `-`, `A`–`Z`, `_` and `a`–`z`. -/
def dexMemberValidLowAscii : List Nat := [0x00000000, 0x03ff2010, 0x87fffffe, 0x07fffffe]

/-- The `switch` of `IsValidPartOfMemberNameUtf8Slow` on the high byte of a character that is
not the leading half of a surrogate pair: an encoded `0`–`0xa0`, a trailing surrogate and the
spaces and specials `U+2000`–`U+200f`, `U+2028`–`U+202f` and `U+fff0`–`U+ffff` are rejected. -/
def unitVerdict (leading : Nat) : Bool :=
  match leading >>> 8 with
  | 0x00 => decide (leading > 0x00a0)
  | 0xdc | 0xdd | 0xde | 0xdf => false
  | 0x20 | 0xff =>
    match leading &&& 0xfff8 with
    | 0x2000 | 0x2008 | 0x2028 | 0xfff0 | 0xfff8 => false
    | _ => true
  | _ => true

/-- `IsValidPartOfMemberNameUtf8Slow`: decode a multi-byte character; a four-byte sequence is
accepted whatever it holds, a leading surrogate (`case 0xd8` to `case 0xdb`) only when the next
character is a trailing one, and any other character by `unitVerdict`. -/
def isValidPartOfMemberNameUtf8Slow (s : List UInt8) : Option (Bool × List UInt8) := do
  let (pair, s) ← getUtf16FromUtf8In s
  let leading := getLeadingUtf16Char pair
  if getTrailingUtf16Char pair ≠ 0 then return (true, s)
  if 0xd8 ≤ leading >>> 8 ∧ leading >>> 8 ≤ 0xdb then
    -- the other half of the pair is the next character of the string
    let (pair2, s) ← getUtf16FromUtf8In s
    let trailing := getLeadingUtf16Char pair2
    return (getTrailingUtf16Char pair2 == 0 && (0xdc00 ≤ trailing && trailing ≤ 0xdfff), s)
  return (unitVerdict leading, s)

/-- `IsValidPartOfMemberNameUtf8`: an ASCII byte is looked up in the table, any other byte leads
a sequence for the slow path. -/
def isValidPartOfMemberNameUtf8 (s : List UInt8) : Option (Bool × List UInt8) :=
  match s with
  | [] => none
  | c :: rest =>
    if c.toNat ≤ 0x7f then
      some ((dexMemberValidLowAscii.getD (c.toNat >>> 5) 0 &&& 1 <<< (c.toNat &&& 0x1f)) != 0, rest)
    else isValidPartOfMemberNameUtf8Slow s

theorem isValidPartOfMemberNameUtf8_cons (c : UInt8) (rest : List UInt8) :
    isValidPartOfMemberNameUtf8 (c :: rest) =
      if c.toNat ≤ 0x7f then
        some ((dexMemberValidLowAscii.getD (c.toNat >>> 5) 0 &&& 1 <<< (c.toNat &&& 0x1f)) != 0,
          rest)
      else isValidPartOfMemberNameUtf8Slow (c :: rest) := rfl

/-! ### Every read moves the pointer on -/

theorem one_le_sequenceLength (one : UInt8) : 1 ≤ sequenceLength one := by
  unfold sequenceLength
  split_ifs <;> omega

theorem nextByte_cons (b : UInt8) (s : List UInt8) : nextByte (b :: s) = (b, s) := rfl

theorem nextByte_snd (s : List UInt8) : (nextByte s).2 = s.drop 1 := by
  cases s <;> rfl

/-- `GetUtf16FromUtf8` leaves the pointer `sequenceLength` bytes on. -/
theorem getUtf16FromUtf8_snd (one : UInt8) (t : List UInt8) :
    (getUtf16FromUtf8 (one :: t)).2 = t.drop (sequenceLength one - 1) := by
  unfold getUtf16FromUtf8 sequenceLength
  by_cases h1 : one.toNat &&& 0x80 = 0
  · simp [nextByte_cons, h1]
  by_cases h2 : one.toNat &&& 0x20 = 0
  · simp [nextByte_cons, h1, h2, nextByte_snd]
  by_cases h3 : one.toNat &&& 0x10 = 0
  · simp [nextByte_cons, h1, h2, h3, nextByte_snd]
  · simp [nextByte_cons, h1, h2, h3, nextByte_snd]

theorem getUtf16FromUtf8In_eq_some {s s' : List UInt8} {v : Nat}
    (h : getUtf16FromUtf8In s = some (v, s')) : s'.length < s.length := by
  unfold getUtf16FromUtf8In at h
  split at h
  · exact absurd h (by simp)
  · rename_i one t
    split at h
    · have hs' : s' = t.drop (sequenceLength one - 1) := by
        rw [← getUtf16FromUtf8_snd, Option.some.inj h]
      rw [hs', List.length_drop, List.length_cons]
      have := one_le_sequenceLength one
      omega
    · exact absurd h (by simp)

/-- The slow path reads one sequence, or two for the leading half of a surrogate pair. -/
theorem isValidPartOfMemberNameUtf8Slow_reads {s s' : List UInt8} {b : Bool}
    (h : isValidPartOfMemberNameUtf8Slow s = some (b, s')) :
    ∃ pair p, getUtf16FromUtf8In s = some (pair, p) ∧
      (s' = p ∨ ∃ pair2, getUtf16FromUtf8In p = some (pair2, s')) := by
  unfold isValidPartOfMemberNameUtf8Slow at h
  cases hget : getUtf16FromUtf8In s with
  | none => simp [hget] at h
  | some r =>
    obtain ⟨pair, p⟩ := r
    refine ⟨pair, p, rfl, ?_⟩
    simp only [hget, Option.bind_eq_bind, Option.bind_some] at h
    split_ifs at h with htrail hlead
    · exact .inl (Prod.mk.inj (Option.some.inj h)).2.symm
    · cases hget2 : getUtf16FromUtf8In p with
      | none => simp [hget2] at h
      | some r2 =>
        simp only [hget2, Option.bind_some, Option.pure_def, Option.some.injEq, Prod.mk.injEq] at h
        exact .inr ⟨r2.1, by rw [← h.2]⟩
    · exact .inl (Prod.mk.inj (Option.some.inj h)).2.symm

theorem length_lt_of_isValidPartOfMemberNameUtf8Slow {s s' : List UInt8} {b : Bool}
    (h : isValidPartOfMemberNameUtf8Slow s = some (b, s')) : s'.length < s.length := by
  obtain ⟨pair, p, hget, rfl | ⟨pair2, hget2⟩⟩ := isValidPartOfMemberNameUtf8Slow_reads h
  · exact getUtf16FromUtf8In_eq_some hget
  · exact (getUtf16FromUtf8In_eq_some hget2).trans (getUtf16FromUtf8In_eq_some hget)

theorem length_lt_of_isValidPartOfMemberNameUtf8 {s s' : List UInt8} {b : Bool}
    (h : isValidPartOfMemberNameUtf8 s = some (b, s')) : s'.length < s.length := by
  unfold isValidPartOfMemberNameUtf8 at h
  split at h
  · exact absurd h (by simp)
  · split at h
    · cases h
      exact Nat.lt_succ_self _
    · exact length_lt_of_isValidPartOfMemberNameUtf8Slow h

/-! ### The slow path, case by case -/

section Slow

variable {s p : List UInt8} {pair : Nat}

/-- A four-byte sequence is accepted. -/
theorem isValidPartOfMemberNameUtf8Slow_of_pair (hget : getUtf16FromUtf8In s = some (pair, p))
    (htrail : getTrailingUtf16Char pair ≠ 0) : isValidPartOfMemberNameUtf8Slow s = some (true, p) := by
  unfold isValidPartOfMemberNameUtf8Slow
  simp [hget, htrail]

/-- A leading surrogate is decided by the next character. -/
theorem isValidPartOfMemberNameUtf8Slow_of_lead (hget : getUtf16FromUtf8In s = some (pair, p))
    (htrail : getTrailingUtf16Char pair = 0)
    (hlead : 0xd8 ≤ getLeadingUtf16Char pair >>> 8 ∧ getLeadingUtf16Char pair >>> 8 ≤ 0xdb) :
    isValidPartOfMemberNameUtf8Slow s = (getUtf16FromUtf8In p).map fun r =>
      (getTrailingUtf16Char r.1 == 0 &&
        (0xdc00 ≤ getLeadingUtf16Char r.1 && getLeadingUtf16Char r.1 ≤ 0xdfff), r.2) := by
  unfold isValidPartOfMemberNameUtf8Slow
  simp only [hget, htrail, Option.bind_eq_bind, Option.bind_some, ne_eq, not_true_eq_false,
    if_false, hlead, and_self, if_true]
  cases getUtf16FromUtf8In p <;> rfl

/-- Any other character is decided by `unitVerdict`. -/
theorem isValidPartOfMemberNameUtf8Slow_of_unit (hget : getUtf16FromUtf8In s = some (pair, p))
    (htrail : getTrailingUtf16Char pair = 0)
    (hlead : ¬(0xd8 ≤ getLeadingUtf16Char pair >>> 8 ∧ getLeadingUtf16Char pair >>> 8 ≤ 0xdb)) :
    isValidPartOfMemberNameUtf8Slow s = some (unitVerdict (getLeadingUtf16Char pair), p) := by
  unfold isValidPartOfMemberNameUtf8Slow
  simp only [hget, htrail, Option.bind_eq_bind, Option.bind_some, ne_eq, not_true_eq_false,
    if_false, hlead]
  rfl

end Slow

/-! ### The validators -/

-- `hpart` is read by the termination proof only
set_option linter.unusedVariables false in
/-- The loop of `IsValidMemberName`: the terminator ends the name, and a `>` has to be the last
character of a name that began with `<`. -/
def isValidMemberNameLoop (angleName : Bool) (s : List UInt8) : Option Bool :=
  match s with
  | [] => none
  | c :: rest =>
    if c = 0 then some !angleName
    else if c = '>'.toUInt8 then
      -- `angle_name && s[1] == '\0'` reads `s[1]` for an angle name only
      if angleName then rest.head?.map (· == 0) else some false
    else
      match hpart : isValidPartOfMemberNameUtf8 (c :: rest) with
      | none => none
      | some (false, _) => some false
      | some (true, s') => isValidMemberNameLoop angleName s'
termination_by s.length
decreasing_by exact length_lt_of_isValidPartOfMemberNameUtf8 hpart

/-- `IsValidMemberName(s)`: a name that is not empty, wrapped in `<` and `>` or not. -/
def isValidMemberName (s : List UInt8) : Option Bool :=
  match s with
  | [] => none
  | c :: rest =>
    if c = 0 then some false
    else if c = '<'.toUInt8 then isValidMemberNameLoop true rest
    else isValidMemberNameLoop false s

/-- `ClassNameType`: what `IsValidClassName` is asked to check. -/
inductive ClassNameType where
  | kName
  | kDescriptor
deriving DecidableEq, Repr

set_option linter.unusedVariables false in
/-- The class name loop of `IsValidClassName`: components of `IsValidPartOfMemberNameUtf8`
characters between separators, `sepOrFirst` while the current one is still empty; a type
descriptor ends at a `;` that is the string's last character, a class name at the terminator. -/
def isValidClassNameLoop (type : ClassNameType) (kSeparator : UInt8) (sepOrFirst : Bool)
    (s : List UInt8) : Option Bool :=
  match s with
  | [] => none
  | c :: rest =>
    if c = 0 then some (type == .kName && !sepOrFirst)
    else if c = ';'.toUInt8 then
      -- `s[1]` is read only after the first two conditions hold
      if type == .kDescriptor && !sepOrFirst then rest.head?.map (· == 0) else some false
    else if c = '/'.toUInt8 ∨ c = '.'.toUInt8 then
      if c ≠ kSeparator then some false
      else if sepOrFirst then some false
      else isValidClassNameLoop type kSeparator true rest
    else
      match hpart : isValidPartOfMemberNameUtf8 (c :: rest) with
      | none => none
      | some (false, _) => some false
      | some (true, s') => isValidClassNameLoop type kSeparator false s'
termination_by s.length
decreasing_by
  · exact Nat.lt_succ_self _
  · exact length_lt_of_isValidPartOfMemberNameUtf8 hpart

/-- `while (*s == '[') { arrayCount++; s++; }`. -/
def skipArrayDims : List UInt8 → Nat → Option (Nat × List UInt8)
  | [], _ => none
  | c :: rest, arrayCount =>
    if c = '['.toUInt8 then skipArrayDims rest (arrayCount + 1) else some (arrayCount, c :: rest)

/-- The single-character descriptors of the primitive types. -/
def primitiveDescriptors : List UInt8 :=
  ['B'.toUInt8, 'C'.toUInt8, 'D'.toUInt8, 'F'.toUInt8, 'I'.toUInt8, 'J'.toUInt8, 'S'.toUInt8,
    'Z'.toUInt8]

/-- The `switch (*(s++))` of `IsValidClassName` in descriptor mode: after the dimensions, a
primitive, `V` without dimensions, or `L` and a class name. -/
def descriptorSwitch (arrayCount : Nat) (kSeparator : UInt8) (s : List UInt8) : Option Bool :=
  match s with
  | [] => none
  | c :: s =>
    if c ∈ primitiveDescriptors then s.head?.map (· == 0)
    else if c = 'V'.toUInt8 then
      if arrayCount = 0 then s.head?.map (· == 0) else some false
    else if c = 'L'.toUInt8 then isValidClassNameLoop .kDescriptor kSeparator true s
    else some false

/-- `IsValidClassName<kType, kSeparator>(s)`: at most 255 dimensions, then a descriptor or a
class name. -/
def isValidClassName (kType : ClassNameType) (kSeparator : UInt8) (s : List UInt8) :
    Option Bool := do
  let (arrayCount, s) ← skipArrayDims s 0
  if arrayCount > 255 then return false
  -- an array of any sort is checked as a descriptor
  let type := if kType ≠ .kDescriptor ∧ arrayCount ≠ 0 then .kDescriptor else kType
  if type = .kDescriptor then descriptorSwitch arrayCount kSeparator s
  else isValidClassNameLoop type kSeparator true s

/-- `IsValidBinaryClassName`: `IsValidClassName<kName, '.'>`. -/
def isValidBinaryClassName (s : List UInt8) : Option Bool :=
  isValidClassName .kName '.'.toUInt8 s

/-- `IsValidJniClassName`: `IsValidClassName<kName, '/'>`. -/
def isValidJniClassName (s : List UInt8) : Option Bool :=
  isValidClassName .kName '/'.toUInt8 s

/-- `IsValidDescriptor`: `IsValidClassName<kDescriptor, '/'>`. -/
def isValidDescriptor (s : List UInt8) : Option Bool :=
  isValidClassName .kDescriptor '/'.toUInt8 s

/-! ### Dots and descriptors

These take the string itself, the bytes before its terminator. -/

/-- `std::replace(begin, end, oldValue, newValue)`. -/
def replaceAll (s : List UInt8) (oldValue newValue : UInt8) : List UInt8 :=
  s.map fun c => if c = oldValue then newValue else c

/-- `DotToDescriptor(class_name)`: dots become slashes, and a name that is not empty and not an
array is wrapped in `L` and `;`. -/
def dotToDescriptor (className : List UInt8) : List UInt8 :=
  let descriptor := replaceAll className '.'.toUInt8 '/'.toUInt8
  if descriptor.length > 0 ∧ descriptor[0]? ≠ some '['.toUInt8 then
    'L'.toUInt8 :: descriptor ++ [';'.toUInt8]
  else descriptor

/-- `DescriptorToDot(descriptor)`: a class descriptor loses its `L` and `;`, and slashes become
dots in it and in an array descriptor. -/
def descriptorToDot (descriptor : List UInt8) : List UInt8 :=
  let length := descriptor.length
  if length > 1 then
    if descriptor[0]? = some 'L'.toUInt8 ∧ descriptor[length - 1]? = some ';'.toUInt8 then
      replaceAll ((descriptor.drop 1).take (length - 2)) '/'.toUInt8 '.'.toUInt8
    else replaceAll descriptor '/'.toUInt8 '.'.toUInt8
  else descriptor

theorem length_replaceAll (s : List UInt8) (oldValue newValue : UInt8) :
    (replaceAll s oldValue newValue).length = s.length := List.length_map _

/-- Slashes put back as dots give the name again, when it had no slash of its own. -/
theorem replaceAll_replaceAll {s : List UInt8} (hs : '/'.toUInt8 ∉ s) :
    replaceAll (replaceAll s '.'.toUInt8 '/'.toUInt8) '/'.toUInt8 '.'.toUInt8 = s := by
  unfold replaceAll
  rw [List.map_map]
  refine (List.map_congr_left fun c hc => ?_).trans (List.map_id s)
  have hc' : c ≠ '/'.toUInt8 := fun h => hs (h ▸ hc)
  by_cases hdot : c = '.'.toUInt8
  · simp [hdot]
  · simp [hdot, hc']

/-- `DescriptorToDot` undoes `DotToDescriptor` on every name without a slash, array names
included. -/
theorem descriptorToDot_dotToDescriptor {s : List UInt8} (hs : '/'.toUInt8 ∉ s) :
    descriptorToDot (dotToDescriptor s) = s := by
  unfold dotToDescriptor
  generalize hd : replaceAll s '.'.toUInt8 '/'.toUInt8 = d
  have hback : replaceAll d '/'.toUInt8 '.'.toUInt8 = s := by rw [← hd, replaceAll_replaceAll hs]
  have hlen : d.length = s.length := by rw [← hd, length_replaceAll]
  dsimp only
  split_ifs with hwrap
  · -- a class name: `L`, the name, `;`
    have hlength : ('L'.toUInt8 :: d ++ [';'.toUInt8]).length = d.length + 2 := by simp
    have hfirst : ('L'.toUInt8 :: d ++ [';'.toUInt8])[0]? = some 'L'.toUInt8 := rfl
    have hlast : ('L'.toUInt8 :: d ++ [';'.toUInt8])[d.length + 2 - 1]? = some ';'.toUInt8 := by
      rw [List.getElem?_append_right (by simp)]
      simp
    have hinner : (('L'.toUInt8 :: d ++ [';'.toUInt8]).drop 1).take (d.length + 2 - 2) = d := by
      simp
    unfold descriptorToDot
    dsimp only
    rw [hlength, if_pos (by omega), if_pos ⟨hfirst, hlast⟩, hinner, hback]
  · -- an array name, or the empty one, stays as it is
    unfold descriptorToDot
    dsimp only
    split_ifs with hlong hclass
    · exfalso
      have hbracket : d[0]? = some '['.toUInt8 := by
        by_contra hne
        exact hwrap ⟨by omega, hne⟩
      rw [hbracket] at hclass
      exact absurd hclass.1 (by decide)
    · exact hback
    · -- one character, a `[`, which no dot became
      obtain _ | ⟨c, _ | ⟨c', t⟩⟩ := s
      · rw [← hd]
        rfl
      · have hbracket : d[0]? = some '['.toUInt8 := by
          by_contra hne
          exact hwrap ⟨by simp at hlen; omega, hne⟩
        rw [← hd] at hbracket ⊢
        simp only [replaceAll, List.map_cons, List.map_nil, List.getElem?_cons_zero,
          Option.some.injEq] at hbracket ⊢
        split_ifs at hbracket ⊢ with hdot
        · exact absurd hbracket (by decide)
        · rfl
      · simp at hlen
        omega

/-! ### One step of each validator -/

section Steps

variable {angleName sepOrFirst : Bool} {type : ClassNameType} {kSeparator c : UInt8}
  {rest : List UInt8}

theorem isValidMemberNameLoop_nil : isValidMemberNameLoop angleName [] = none := by
  unfold isValidMemberNameLoop
  rfl

theorem isValidMemberNameLoop_zero :
    isValidMemberNameLoop angleName (0 :: rest) = some !angleName := by
  rw [isValidMemberNameLoop]
  simp

theorem isValidMemberNameLoop_gt :
    isValidMemberNameLoop angleName ('>'.toUInt8 :: rest) =
      if angleName then rest.head?.map (· == 0) else some false := by
  rw [isValidMemberNameLoop]
  simp only [show '>'.toUInt8 ≠ 0 by decide, if_false, if_true]

/-- Any other character is left to `IsValidPartOfMemberNameUtf8`, and the loop goes on after it
when it is valid. -/
theorem isValidMemberNameLoop_part (hc : c ≠ 0) (hgt : c ≠ '>'.toUInt8) :
    isValidMemberNameLoop angleName (c :: rest) =
      (isValidPartOfMemberNameUtf8 (c :: rest)).bind fun r =>
        if r.1 then isValidMemberNameLoop angleName r.2 else some false := by
  rw [isValidMemberNameLoop]
  simp only [hc, hgt, if_false]
  split <;> simp_all

theorem isValidClassNameLoop_nil : isValidClassNameLoop type kSeparator sepOrFirst [] = none := by
  unfold isValidClassNameLoop
  rfl

theorem isValidClassNameLoop_zero :
    isValidClassNameLoop type kSeparator sepOrFirst (0 :: rest) =
      some (type == .kName && !sepOrFirst) := by
  rw [isValidClassNameLoop]
  simp

theorem isValidClassNameLoop_semicolon :
    isValidClassNameLoop type kSeparator sepOrFirst (';'.toUInt8 :: rest) =
      if (type == .kDescriptor && !sepOrFirst) = true then rest.head?.map (· == 0)
      else some false := by
  rw [isValidClassNameLoop]
  simp only [show ';'.toUInt8 ≠ 0 by decide, if_false, if_true]

theorem isValidClassNameLoop_separator (hc : c = '/'.toUInt8 ∨ c = '.'.toUInt8) :
    isValidClassNameLoop type kSeparator sepOrFirst (c :: rest) =
      if c ≠ kSeparator then some false
      else if sepOrFirst then some false
      else isValidClassNameLoop type kSeparator true rest := by
  have hc0 : c ≠ 0 := by rcases hc with rfl | rfl <;> decide
  have hsemi : c ≠ ';'.toUInt8 := by rcases hc with rfl | rfl <;> decide
  rw [isValidClassNameLoop]
  simp only [hc0, hsemi, hc, if_false, if_true]

theorem isValidClassNameLoop_part (hc : c ≠ 0) (hsemi : c ≠ ';'.toUInt8)
    (hsep : ¬(c = '/'.toUInt8 ∨ c = '.'.toUInt8)) :
    isValidClassNameLoop type kSeparator sepOrFirst (c :: rest) =
      (isValidPartOfMemberNameUtf8 (c :: rest)).bind fun r =>
        if r.1 then isValidClassNameLoop type kSeparator false r.2 else some false := by
  rw [isValidClassNameLoop]
  simp only [hc, hsemi, hsep, if_false]
  split <;> simp_all

/-- `IsValidClassName` after the dimensions: too many, a descriptor (asked for, or an array of
any sort), or a class name. -/
theorem isValidClassName_of_skipArrayDims {kType : ClassNameType} {s p : List UInt8} {k : Nat}
    (hskip : skipArrayDims s 0 = some (k, p)) :
    isValidClassName kType kSeparator s =
      if k > 255 then some false
      else if kType = .kDescriptor ∨ k ≠ 0 then descriptorSwitch k kSeparator p
      else isValidClassNameLoop .kName kSeparator true p := by
  unfold isValidClassName
  simp only [hskip, Option.bind_eq_bind, Option.bind_some]
  cases kType <;> by_cases hk : k = 0 <;> simp [hk]

end Steps

/-! ### What a validator reads inside the buffer does not depend on what follows it -/

section Frame

variable (more : List UInt8)

theorem getUtf16FromUtf8_append {one : UInt8} {t : List UInt8}
    (h : sequenceLength one ≤ (one :: t).length) :
    getUtf16FromUtf8 (one :: t ++ more) =
      ((getUtf16FromUtf8 (one :: t)).1, (getUtf16FromUtf8 (one :: t)).2 ++ more) := by
  unfold sequenceLength at h
  by_cases h1 : one.toNat &&& 0x80 = 0
  · simp [getUtf16FromUtf8, nextByte_cons, h1]
  by_cases h2 : one.toNat &&& 0x20 = 0
  · rcases t with _ | ⟨a, t⟩
    · simp [h1, h2] at h
    · simp [getUtf16FromUtf8, nextByte_cons, h1, h2]
  by_cases h3 : one.toNat &&& 0x10 = 0
  · rcases t with _ | ⟨a, _ | ⟨b, t⟩⟩
    · simp [h1, h2, h3] at h
    · simp [h1, h2, h3] at h
    · simp [getUtf16FromUtf8, nextByte_cons, h1, h2, h3]
  · rcases t with _ | ⟨a, _ | ⟨b, _ | ⟨c, t⟩⟩⟩
    · simp [h1, h2, h3] at h
    · simp [h1, h2, h3] at h
    · simp [h1, h2, h3] at h
    · simp [getUtf16FromUtf8, nextByte_cons, h1, h2, h3]

theorem getUtf16FromUtf8In_append {s p : List UInt8} {v : Nat}
    (h : getUtf16FromUtf8In s = some (v, p)) :
    getUtf16FromUtf8In (s ++ more) = some (v, p ++ more) := by
  cases s with
  | nil => exact absurd h (by simp [getUtf16FromUtf8In_nil])
  | cons one t =>
    rw [getUtf16FromUtf8In_cons] at h
    split_ifs at h with hlen
    rw [List.cons_append, getUtf16FromUtf8In_cons, if_pos (by simp only [List.length_append]; omega),
      ← List.cons_append, getUtf16FromUtf8_append more (by simpa using hlen), Option.some.inj h]

theorem head?_map_append {s : List UInt8} {r : Bool}
    (h : s.head?.map (· == 0) = some r) : (s ++ more).head?.map (· == 0) = some r := by
  cases s with
  | nil => exact absurd h (by simp)
  | cons x s => exact h

theorem isValidPartOfMemberNameUtf8Slow_append {s p : List UInt8} {b : Bool}
    (h : isValidPartOfMemberNameUtf8Slow s = some (b, p)) :
    isValidPartOfMemberNameUtf8Slow (s ++ more) = some (b, p ++ more) := by
  unfold isValidPartOfMemberNameUtf8Slow at h ⊢
  cases hget : getUtf16FromUtf8In s with
  | none => simp [hget] at h
  | some r =>
    obtain ⟨pair, q⟩ := r
    simp only [hget, getUtf16FromUtf8In_append more hget, Option.bind_eq_bind,
      Option.bind_some] at h ⊢
    split_ifs at h ⊢
    · simp only [Option.pure_def, Option.some.injEq, Prod.mk.injEq] at h ⊢
      exact ⟨h.1, by rw [h.2]⟩
    · cases hget2 : getUtf16FromUtf8In q with
      | none => simp [hget2] at h
      | some r2 =>
        simp only [hget2, getUtf16FromUtf8In_append more hget2, Option.bind_some,
          Option.pure_def, Option.some.injEq, Prod.mk.injEq] at h ⊢
        exact ⟨h.1, by rw [h.2]⟩
    · simp only [Option.pure_def, Option.some.injEq, Prod.mk.injEq] at h ⊢
      exact ⟨h.1, by rw [h.2]⟩

theorem isValidPartOfMemberNameUtf8_append {s p : List UInt8} {b : Bool}
    (h : isValidPartOfMemberNameUtf8 s = some (b, p)) :
    isValidPartOfMemberNameUtf8 (s ++ more) = some (b, p ++ more) := by
  cases s with
  | nil => exact absurd h (by simp [isValidPartOfMemberNameUtf8])
  | cons c rest =>
    rw [isValidPartOfMemberNameUtf8_cons] at h
    rw [List.cons_append, isValidPartOfMemberNameUtf8_cons]
    split_ifs at h ⊢
    · simp only [Option.some.injEq, Prod.mk.injEq] at h ⊢
      exact ⟨h.1, by rw [h.2]⟩
    · rw [← List.cons_append]
      exact isValidPartOfMemberNameUtf8Slow_append more h

variable {angleName sepOrFirst r : Bool} {type : ClassNameType} {kSeparator : UInt8}

theorem isValidMemberNameLoop_append :
    ∀ (s : List UInt8), isValidMemberNameLoop angleName s = some r →
      isValidMemberNameLoop angleName (s ++ more) = some r
  | [], h => by
    rw [isValidMemberNameLoop_nil] at h
    cases h
  | c :: rest, h => by
    rw [List.cons_append]
    by_cases hc : c = 0
    · subst hc
      rw [isValidMemberNameLoop_zero] at h ⊢
      exact h
    by_cases hgt : c = '>'.toUInt8
    · subst hgt
      rw [isValidMemberNameLoop_gt] at h ⊢
      split_ifs at h ⊢
      · exact head?_map_append more h
      · exact h
    rw [isValidMemberNameLoop_part hc hgt] at h
    rw [isValidMemberNameLoop_part hc hgt]
    cases hpart : isValidPartOfMemberNameUtf8 (c :: rest) with
    | none => simp [hpart] at h
    | some v =>
      obtain ⟨b, p⟩ := v
      have hlt := length_lt_of_isValidPartOfMemberNameUtf8 hpart
      rw [← List.cons_append, isValidPartOfMemberNameUtf8_append more hpart, Option.bind_some]
      rw [hpart, Option.bind_some] at h
      split_ifs at h ⊢
      · exact isValidMemberNameLoop_append p h
      · exact h
termination_by s => s.length
decreasing_by
  -- the part read at least one byte
  simp only [List.length_cons] at hlt ⊢
  omega

theorem isValidClassNameLoop_append :
    ∀ (sepOrFirst : Bool) (s : List UInt8), isValidClassNameLoop type kSeparator sepOrFirst s = some r →
      isValidClassNameLoop type kSeparator sepOrFirst (s ++ more) = some r
  | _, [], h => by
    rw [isValidClassNameLoop_nil] at h
    cases h
  | sepOrFirst, c :: rest, h => by
    rw [List.cons_append]
    by_cases hc : c = 0
    · subst hc
      rw [isValidClassNameLoop_zero] at h ⊢
      exact h
    by_cases hsemi : c = ';'.toUInt8
    · subst hsemi
      rw [isValidClassNameLoop_semicolon] at h ⊢
      split_ifs at h ⊢
      · exact head?_map_append more h
      · exact h
    by_cases hsep : c = '/'.toUInt8 ∨ c = '.'.toUInt8
    · rw [isValidClassNameLoop_separator hsep] at h ⊢
      split_ifs at h ⊢
      · exact h
      · exact h
      · exact isValidClassNameLoop_append true rest h
    rw [isValidClassNameLoop_part hc hsemi hsep] at h
    rw [isValidClassNameLoop_part hc hsemi hsep]
    cases hpart : isValidPartOfMemberNameUtf8 (c :: rest) with
    | none => simp [hpart] at h
    | some v =>
      obtain ⟨b, p⟩ := v
      have hlt := length_lt_of_isValidPartOfMemberNameUtf8 hpart
      rw [← List.cons_append, isValidPartOfMemberNameUtf8_append more hpart, Option.bind_some]
      rw [hpart, Option.bind_some] at h
      split_ifs at h ⊢
      · exact isValidClassNameLoop_append false p h
      · exact h
termination_by _ s => s.length
decreasing_by
  -- the separator, or the part, read at least one byte
  all_goals simp only [List.length_cons] at *
  all_goals omega

theorem skipArrayDims_append {k : Nat} {p : List UInt8} :
    ∀ {s : List UInt8} {arrayCount : Nat}, skipArrayDims s arrayCount = some (k, p) →
      skipArrayDims (s ++ more) arrayCount = some (k, p ++ more)
  | [], _, h => by simp [skipArrayDims] at h
  | c :: rest, arrayCount, h => by
    simp only [skipArrayDims, List.cons_append] at h ⊢
    split_ifs at h ⊢
    · exact skipArrayDims_append h
    · simp only [Option.some.injEq, Prod.mk.injEq] at h ⊢
      exact ⟨h.1, by rw [← h.2, List.cons_append]⟩

theorem descriptorSwitch_append {arrayCount : Nat} {s : List UInt8}
    (h : descriptorSwitch arrayCount kSeparator s = some r) :
    descriptorSwitch arrayCount kSeparator (s ++ more) = some r := by
  cases s with
  | nil => exact absurd h (by simp [descriptorSwitch])
  | cons c p =>
    simp only [descriptorSwitch, List.cons_append] at h ⊢
    split_ifs at h ⊢
    · exact head?_map_append more h
    · exact head?_map_append more h
    · exact h
    · exact isValidClassNameLoop_append more true p h
    · exact h

theorem isValidClassName_append {kType : ClassNameType} {s : List UInt8}
    (h : isValidClassName kType kSeparator s = some r) :
    isValidClassName kType kSeparator (s ++ more) = some r := by
  unfold isValidClassName at h ⊢
  cases hskip : skipArrayDims s 0 with
  | none => simp [hskip] at h
  | some v =>
    obtain ⟨k, p⟩ := v
    simp only [hskip, skipArrayDims_append more hskip, Option.bind_eq_bind, Option.bind_some]
      at h ⊢
    split_ifs at h ⊢
    · exact h
    all_goals first
      | exact descriptorSwitch_append more h
      | exact isValidClassNameLoop_append more true p h

theorem isValidMemberName_append {s : List UInt8} (h : isValidMemberName s = some r) :
    isValidMemberName (s ++ more) = some r := by
  cases s with
  | nil => exact absurd h (by simp [isValidMemberName])
  | cons c rest =>
    unfold isValidMemberName at h ⊢
    simp only [List.cons_append] at h ⊢
    split_ifs at h ⊢
    · exact h
    · exact isValidMemberNameLoop_append more rest h
    · rw [← List.cons_append]
      exact isValidMemberNameLoop_append more (c :: rest) h

end Frame

/-! ### Strings of whole sequences are decided before their terminator -/

/-- A string of whole sequences: the lead byte of each asks for no more bytes than the string
has left. -/
inductive Complete : List UInt8 → Prop
  | nil : Complete []
  | cons {one : UInt8} {t : List UInt8} : sequenceLength one ≤ t.length + 1 →
      Complete (t.drop (sequenceLength one - 1)) → Complete (one :: t)

section Complete

variable {s : List UInt8} (more : List UInt8)

theorem sequenceLength_of_le {one : UInt8} (h : one.toNat ≤ 0x7f) : sequenceLength one = 1 := by
  rw [sequenceLength, if_pos (ascii_byte (by omega))]

/-- After an ASCII character the rest of the string is whole again. -/
theorem Complete.tail {one : UInt8} {t : List UInt8} (hs : Complete (one :: t))
    (h : one.toNat ≤ 0x7f) : Complete t := by
  cases hs with
  | cons _ hrest => rwa [sequenceLength_of_le h] at hrest

/-- The sequence that starts a string of whole sequences is read inside it. -/
theorem getUtf16FromUtf8In_complete {one : UInt8} {t : List UInt8}
    (hlen : sequenceLength one ≤ t.length + 1) :
    getUtf16FromUtf8In (one :: t ++ more) =
      some ((getUtf16FromUtf8 (one :: t)).1, t.drop (sequenceLength one - 1) ++ more) := by
  have hin : getUtf16FromUtf8In (one :: t) =
      some ((getUtf16FromUtf8 (one :: t)).1, t.drop (sequenceLength one - 1)) := by
    rw [getUtf16FromUtf8In_cons, if_pos hlen, ← getUtf16FromUtf8_snd]
  exact getUtf16FromUtf8In_append more hin

/-- The terminator read as a character is `0`. -/
theorem getUtf16FromUtf8In_zero : getUtf16FromUtf8In (0 :: more) = some (0, more) := by
  rw [getUtf16FromUtf8In_cons, if_pos (by rw [sequenceLength_of_le (by decide)]; omega)]
  rfl

/-- On a string of whole sequences, a character is read inside the string, or the leading half of
a pair at its end reads the terminator and is rejected. -/
theorem isValidPartOfMemberNameUtf8_complete (hs : Complete s) (hne : s ≠ []) (hz : 0 ∉ s) :
    ∃ b p, isValidPartOfMemberNameUtf8 (s ++ 0 :: more) = some (b, p) ∧
      (b = true → ∃ s', Complete s' ∧ 0 ∉ s' ∧ s'.length < s.length ∧ p = s' ++ 0 :: more) := by
  cases hs with
  | nil => exact absurd rfl hne
  | @cons one t hlen hrest =>
    have htz : 0 ∉ t := fun h => hz (List.mem_cons_of_mem _ h)
    rw [List.cons_append, isValidPartOfMemberNameUtf8_cons]
    split_ifs with hascii
    · -- an ASCII character is looked up in the table
      rw [sequenceLength_of_le hascii] at hrest
      exact ⟨_, _, rfl, fun _ => ⟨t, hrest, htz, Nat.lt_succ_self _, rfl⟩⟩
    · rw [← List.cons_append]
      have hget := getUtf16FromUtf8In_complete (0 :: more) hlen
      set pair := (getUtf16FromUtf8 (one :: t)).1
      have hshorter : (t.drop (sequenceLength one - 1)).length < (one :: t).length := by
        simp only [List.length_drop, List.length_cons]
        omega
      have hz' : 0 ∉ t.drop (sequenceLength one - 1) := fun h => htz (List.mem_of_mem_drop h)
      generalize t.drop (sequenceLength one - 1) = t' at hget hrest hshorter hz'
      by_cases htrail : getTrailingUtf16Char pair ≠ 0
      · exact ⟨true, _, isValidPartOfMemberNameUtf8Slow_of_pair hget htrail,
          fun _ => ⟨t', hrest, hz', hshorter, rfl⟩⟩
      rw [not_not] at htrail
      by_cases hlead : 0xd8 ≤ getLeadingUtf16Char pair >>> 8 ∧ getLeadingUtf16Char pair >>> 8 ≤ 0xdb
      · rw [isValidPartOfMemberNameUtf8Slow_of_lead hget htrail hlead]
        cases hrest with
        | nil =>
          -- the other half would be the terminator, which decodes as `0`
          refine ⟨false, more, ?_, fun h => nomatch h⟩
          rw [List.nil_append, getUtf16FromUtf8In_zero, Option.map_some]
          simp [getLeadingUtf16Char]
        | @cons one' t'' hlen' hrest' =>
          rw [List.cons_append, ← List.cons_append, getUtf16FromUtf8In_complete (0 :: more) hlen',
            Option.map_some]
          refine ⟨_, _, rfl, fun _ => ⟨_, hrest', fun h => hz' (List.mem_cons_of_mem _
            (List.mem_of_mem_drop h)), ?_, rfl⟩⟩
          have : (t''.drop (sequenceLength one' - 1)).length ≤ t''.length := by simp
          simp only [List.length_cons] at hshorter ⊢
          omega
      · exact ⟨_, _, isValidPartOfMemberNameUtf8Slow_of_unit hget htrail hlead,
          fun _ => ⟨t', hrest, hz', hshorter, rfl⟩⟩

theorem head?_map_append_zero (s : List UInt8) : ∃ r, (s ++ [0]).head?.map (· == 0) = some r := by
  cases s <;> exact ⟨_, rfl⟩

theorem isValidMemberNameLoop_complete (angleName : Bool) :
    ∀ s, Complete s → 0 ∉ s → ∃ r, isValidMemberNameLoop angleName (s ++ [0]) = some r
  | [], _, _ => ⟨_, isValidMemberNameLoop_zero⟩
  | c :: rest, hs, hz => by
    have hc : c ≠ 0 := fun h => hz (h ▸ List.mem_cons_self)
    rw [List.cons_append]
    by_cases hgt : c = '>'.toUInt8
    · subst hgt
      rw [isValidMemberNameLoop_gt]
      split_ifs
      · exact head?_map_append_zero rest
      · exact ⟨_, rfl⟩
    rw [isValidMemberNameLoop_part hc hgt, ← List.cons_append]
    obtain ⟨b, p, hpart, hnext⟩ := isValidPartOfMemberNameUtf8_complete [] hs (List.cons_ne_nil _ _) hz
    rw [hpart, Option.bind_some]
    cases b with
    | false => exact ⟨false, rfl⟩
    | true =>
      obtain ⟨s', hs', hz', hlt, rfl⟩ := hnext rfl
      exact isValidMemberNameLoop_complete angleName s' hs' hz'
termination_by s => s.length
decreasing_by
  -- the part read at least one byte
  simp only [List.length_cons] at hlt ⊢
  omega

theorem isValidClassNameLoop_complete (type : ClassNameType) (kSeparator : UInt8) :
    ∀ sepOrFirst s, Complete s → 0 ∉ s →
      ∃ r, isValidClassNameLoop type kSeparator sepOrFirst (s ++ [0]) = some r
  | _, [], _, _ => ⟨_, isValidClassNameLoop_zero⟩
  | sepOrFirst, c :: rest, hs, hz => by
    have hc : c ≠ 0 := fun h => hz (h ▸ List.mem_cons_self)
    rw [List.cons_append]
    by_cases hsemi : c = ';'.toUInt8
    · subst hsemi
      rw [isValidClassNameLoop_semicolon]
      split_ifs
      · exact head?_map_append_zero rest
      · exact ⟨_, rfl⟩
    by_cases hsep : c = '/'.toUInt8 ∨ c = '.'.toUInt8
    · have hascii : c.toNat ≤ 0x7f := by rcases hsep with rfl | rfl <;> decide
      rw [isValidClassNameLoop_separator hsep]
      split_ifs
      · exact ⟨_, rfl⟩
      · exact ⟨_, rfl⟩
      · exact isValidClassNameLoop_complete type kSeparator true rest (hs.tail hascii)
          fun h => hz (List.mem_cons_of_mem _ h)
    rw [isValidClassNameLoop_part hc hsemi hsep, ← List.cons_append]
    obtain ⟨b, p, hpart, hnext⟩ := isValidPartOfMemberNameUtf8_complete [] hs (List.cons_ne_nil _ _) hz
    rw [hpart, Option.bind_some]
    cases b with
    | false => exact ⟨false, rfl⟩
    | true =>
      obtain ⟨s', hs', hz', hlt, rfl⟩ := hnext rfl
      exact isValidClassNameLoop_complete type kSeparator false s' hs' hz'
termination_by _ s => s.length
decreasing_by
  -- the separator, or the part, read at least one byte
  all_goals simp only [List.length_cons] at *
  all_goals omega

theorem isValidMemberName_complete (hs : Complete s) (hz : 0 ∉ s) :
    ∃ r, isValidMemberName (s ++ [0]) = some r := by
  cases s with
  | nil => exact ⟨false, rfl⟩
  | cons c rest =>
    have hc : c ≠ 0 := fun h => hz (h ▸ List.mem_cons_self)
    unfold isValidMemberName
    simp only [List.cons_append, hc, if_false]
    split_ifs with hlt
    · exact isValidMemberNameLoop_complete true rest (hs.tail (by rw [hlt]; decide))
        fun h => hz (List.mem_cons_of_mem _ h)
    · rw [← List.cons_append]
      exact isValidMemberNameLoop_complete false (c :: rest) hs hz

theorem skipArrayDims_complete :
    ∀ s, Complete s → 0 ∉ s → ∀ arrayCount, ∃ k p, Complete p ∧ 0 ∉ p ∧
      skipArrayDims (s ++ [0]) arrayCount = some (k, p ++ [0])
  | [], _, _, arrayCount => ⟨arrayCount, [], .nil, List.not_mem_nil, rfl⟩
  | c :: rest, hs, hz, arrayCount => by
    rw [List.cons_append, skipArrayDims]
    split_ifs with hbracket
    · exact skipArrayDims_complete rest (hs.tail (by rw [hbracket]; decide))
        (fun h => hz (List.mem_cons_of_mem _ h)) (arrayCount + 1)
    · exact ⟨arrayCount, c :: rest, hs, hz, rfl⟩

theorem descriptorSwitch_complete (arrayCount : Nat) (kSeparator : UInt8) (hs : Complete s)
    (hz : 0 ∉ s) : ∃ r, descriptorSwitch arrayCount kSeparator (s ++ [0]) = some r := by
  cases s with
  | nil => exact ⟨false, rfl⟩
  | cons c rest =>
    simp only [descriptorSwitch, List.cons_append]
    split_ifs with hprim hv hzero hl
    · exact head?_map_append_zero rest
    · exact head?_map_append_zero rest
    · exact ⟨_, rfl⟩
    · exact isValidClassNameLoop_complete .kDescriptor kSeparator true rest
        (hs.tail (by rw [hl]; decide)) fun h => hz (List.mem_cons_of_mem _ h)
    · exact ⟨_, rfl⟩

theorem isValidClassName_complete (kType : ClassNameType) (kSeparator : UInt8)
    (hs : Complete s) (hz : 0 ∉ s) : ∃ r, isValidClassName kType kSeparator (s ++ [0]) = some r := by
  obtain ⟨k, p, hp, hpz, hskip⟩ := skipArrayDims_complete s hs hz 0
  unfold isValidClassName
  simp only [hskip, Option.bind_eq_bind, Option.bind_some]
  split_ifs
  · exact ⟨_, rfl⟩
  all_goals first
    | exact descriptorSwitch_complete k kSeparator hp hpz
    | exact isValidClassNameLoop_complete _ kSeparator true p hp hpz

end Complete

/-- A string of whole sequences is decided without reading past its terminator: whatever the
buffer holds after the terminator, the answer is the one given when the buffer ends there. -/
theorem isValidMemberName_decides_before_terminator {s : List UInt8} (hs : Complete s)
    (hz : 0 ∉ s) :
    ∃ r, isValidMemberName (s ++ [0]) = some r ∧ ∀ more, isValidMemberName (s ++ 0 :: more) = some r := by
  obtain ⟨r, hr⟩ := isValidMemberName_complete hs hz
  refine ⟨r, hr, fun more => ?_⟩
  have h := isValidMemberName_append more hr
  rwa [List.append_assoc, List.singleton_append] at h

/-- The same for the class name and descriptor validators. -/
theorem isValidClassName_decides_before_terminator (kType : ClassNameType) (kSeparator : UInt8)
    {s : List UInt8} (hs : Complete s) (hz : 0 ∉ s) :
    ∃ r, isValidClassName kType kSeparator (s ++ [0]) = some r ∧
      ∀ more, isValidClassName kType kSeparator (s ++ 0 :: more) = some r := by
  obtain ⟨r, hr⟩ := isValidClassName_complete kType kSeparator hs hz
  refine ⟨r, hr, fun more => ?_⟩
  have h := isValidClassName_append more hr
  rwa [List.append_assoc, List.singleton_append] at h

/-- `C3`, a two-byte lead, with the terminator after it: `GetUtf16FromUtf8` takes the terminator
as the continuation byte, the character `U+00C0` is valid, and the pointer ends past the
terminator. -/
theorem isValidPartOfMemberNameUtf8_truncated (more : List UInt8) :
    isValidPartOfMemberNameUtf8 (0xC3 :: 0 :: more) = some (true, more) := by
  have hget : getUtf16FromUtf8In (0xC3 :: 0 :: more) = some (0xC0, more) := by
    rw [getUtf16FromUtf8In_cons, if_pos (by rw [show sequenceLength 0xC3 = 2 by decide]; simp)]
    rfl
  rw [isValidPartOfMemberNameUtf8_cons, if_neg (by decide),
    isValidPartOfMemberNameUtf8Slow_of_unit hget (by decide) (by decide)]
  rfl

/-- The string `"\xC3"`, its last sequence cut short by the terminator: all four validators
read past the terminator, the answer depends on the byte after it, and there the binary class
name check and the descriptor check of its `DotToDescriptor` disagree. -/
theorem validators_read_past_terminator :
    isValidMemberName ([0xC3] ++ [0]) = none ∧ isValidBinaryClassName ([0xC3] ++ [0]) = none ∧
    isValidJniClassName ([0xC3] ++ [0]) = none ∧
    isValidDescriptor (['L'.toUInt8, 0xC3] ++ [0]) = none ∧
    isValidMemberName ([0xC3] ++ [0, 0]) = some true ∧
    isValidMemberName ([0xC3] ++ [0, 1]) = some false ∧
    isValidBinaryClassName ([0xC3] ++ [0, 0]) = some true ∧
    isValidDescriptor (dotToDescriptor [0xC3] ++ [0]) = some false := by
  -- the member name loop and the class name loop both run into the truncated character
  have hmember : ∀ more, isValidMemberName (0xC3 :: 0 :: more) = isValidMemberNameLoop false more := by
    intro more
    rw [isValidMemberName, if_neg (by decide), if_neg (by decide),
      isValidMemberNameLoop_part (by decide) (by decide), isValidPartOfMemberNameUtf8_truncated,
      Option.bind_some, if_pos rfl]
  have hclass : ∀ kSeparator more, isValidClassName .kName kSeparator (0xC3 :: 0 :: more) =
      isValidClassNameLoop .kName kSeparator false more := by
    intro kSeparator more
    rw [isValidClassName_of_skipArrayDims (by rw [skipArrayDims, if_neg (by decide)]),
      if_neg (by decide), if_neg (by decide), isValidClassNameLoop_part (by decide) (by decide)
      (by decide), isValidPartOfMemberNameUtf8_truncated, Option.bind_some, if_pos rfl]
  refine ⟨?_, ?_, ?_, ?_, ?_, ?_, ?_, ?_⟩
  · rw [List.singleton_append, hmember, isValidMemberNameLoop_nil]
  · rw [List.singleton_append, isValidBinaryClassName, hclass, isValidClassNameLoop_nil]
  · rw [List.singleton_append, isValidJniClassName, hclass, isValidClassNameLoop_nil]
  · rw [isValidDescriptor, isValidClassName_of_skipArrayDims (k := 0) (p := ['L'.toUInt8, 0xC3, 0])
      (by decide), if_neg (by decide), if_pos (.inl rfl), descriptorSwitch, if_neg (by decide), if_neg (by decide),
      if_pos rfl, isValidClassNameLoop_part (by decide) (by decide) (by decide),
      isValidPartOfMemberNameUtf8_truncated, Option.bind_some, if_pos rfl, isValidClassNameLoop_nil]
  · rw [List.singleton_append, hmember, isValidMemberNameLoop_zero]
    rfl
  · rw [List.singleton_append, hmember, isValidMemberNameLoop_part (by decide) (by decide),
      show isValidPartOfMemberNameUtf8 [1] = some (false, []) by decide]
    rfl
  · rw [List.singleton_append, isValidBinaryClassName, hclass, isValidClassNameLoop_zero]
    rfl
  · -- `L`, then `C3` takes the `;` as its continuation byte, and the terminator ends the name
    rw [isValidDescriptor, show dotToDescriptor [0xC3] ++ [0] = ['L'.toUInt8, 0xC3, ';'.toUInt8, 0] by
      decide, isValidClassName_of_skipArrayDims (k := 0) (p := ['L'.toUInt8, 0xC3, ';'.toUInt8, 0])
      (by decide), if_neg (by decide), if_pos (.inl rfl), descriptorSwitch, if_neg (by decide), if_neg (by decide),
      if_pos rfl, isValidClassNameLoop_part (by decide) (by decide) (by decide),
      show isValidPartOfMemberNameUtf8 [0xC3, ';'.toUInt8, 0] = some (true, [0]) by decide,
      Option.bind_some, if_pos rfl, isValidClassNameLoop_zero]
    rfl

end AndroidArt.Dex
