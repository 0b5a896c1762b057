/-
Module: AndroidArt.Dex.UtfConvert
Purpose: reading modified UTF-8 back, as `libdexfile/dex/utf.cc` does it:
  `CountModifiedUtf8Chars`, `ConvertModifiedUtf8ToUtf16` with its all-ASCII fast path, and
  `ComputeUtf16HashFromModifiedUtf8`, against `ComputeUtf16Hash`, the `java.lang.String` hash.
Trusted boundary: a byte read through `char` is taken unsigned; `ic & 0x80`, `ic & 0x20` and `ic
  & 0x10` test the same bits of the sign-extended `int`, and the fast path copies only ASCII
  bytes, where the two agree. `ComputeUtf16HashFromModifiedUtf8` on a pair when one unit is left,
  which its `DCHECK_NE` rules out, returns `none`: the code would wrap the count and read on.
Main exports: countModifiedUtf8Chars, convertModifiedUtf8ToUtf16, computeUtf16Hash,
  computeUtf16HashFromModifiedUtf8
-/
import AndroidArt.Dex.Utf

namespace AndroidArt.Dex

open AndroidArt.Lib

/-! ### The readers -/

/-- The loop of `CountModifiedUtf8Chars`, while more than `endLength` bytes are left: a leading
byte counts one unit and skips the continuation bytes its class says, a four-byte one counts
two. -/
def countModifiedUtf8CharsLoop (endLength : Nat) : Nat → List UInt8 → Nat
  | 0, _ => 0
  | fuel + 1, utf8 =>
    if utf8.length ≤ endLength then 0
    else
      let (ic, utf8) := nextByte utf8
      if ic.toNat &&& 0x80 = 0 then countModifiedUtf8CharsLoop endLength fuel utf8 + 1
      else if ic.toNat &&& 0x20 = 0 then
        countModifiedUtf8CharsLoop endLength fuel (utf8.drop 1) + 1
      else if ic.toNat &&& 0x10 = 0 then
        countModifiedUtf8CharsLoop endLength fuel (utf8.drop 2) + 1
      else countModifiedUtf8CharsLoop endLength fuel (utf8.drop 3) + 2

/-- `CountModifiedUtf8Chars(utf8, byte_count)`: every round takes a byte or more, so
`byte_count` rounds reach the end. -/
def countModifiedUtf8Chars (utf8 : List UInt8) (byteCount : Nat) : Nat :=
  countModifiedUtf8CharsLoop (utf8.length - byteCount) byteCount utf8

/-- The general loop of `ConvertModifiedUtf8ToUtf16`, while more than `endLength` bytes are
left: the leading unit of every sequence, and its trailing unit when it is not `0`. -/
def convertModifiedUtf8ToUtf16Loop (endLength : Nat) : Nat → List UInt8 → List UInt16
  | 0, _ => []
  | fuel + 1, p =>
    if p.length ≤ endLength then []
    else
      let (ch, p) := getUtf16FromUtf8 p
      let leading := UInt16.ofNat (getLeadingUtf16Char ch)
      let trailing := UInt16.ofNat (getTrailingUtf16Char ch)
      if trailing ≠ 0 then leading :: trailing :: convertModifiedUtf8ToUtf16Loop endLength fuel p
      else leading :: convertModifiedUtf8ToUtf16Loop endLength fuel p

/-- `ConvertModifiedUtf8ToUtf16(utf16_data_out, out_chars, utf8_data_in, in_bytes)`: as many
units as bytes means every byte is ASCII and is copied; otherwise the general loop. -/
def convertModifiedUtf8ToUtf16 (outChars : Nat) (utf8 : List UInt8) (inBytes : Nat) :
    List UInt16 :=
  if outChars = inBytes then (utf8.take inBytes).map (fun b => UInt16.ofNat b.toNat)
  else convertModifiedUtf8ToUtf16Loop (utf8.length - inBytes) inBytes utf8

/-- One step of the `java.lang.String` hash in `uint32_t`. -/
def hashStep (hash unit : Nat) : Nat := (hash * 31 + unit) % 2 ^ 32

/-- `ComputeUtf16Hash(chars, char_count)`, returned as `int32_t`. -/
def computeUtf16Hash (chars : List UInt16) : Int :=
  toSigned 32 (chars.foldl (fun hash ch => hashStep hash ch.toNat) 0 : Nat)

/-- The loop of `ComputeUtf16HashFromModifiedUtf8` over `utf16_length` units: the leading unit
of every sequence, then its trailing unit when it is not `0`. -/
def computeUtf16HashFromModifiedUtf8Loop : List UInt8 → Nat → Nat → Option Nat
  | _, 0, hash => some hash
  | utf8, utf16Length + 1, hash =>
    let (pair, utf8) := getUtf16FromUtf8 utf8
    let hash := hashStep hash (getLeadingUtf16Char pair)
    let second := getTrailingUtf16Char pair
    if second ≠ 0 then
      match utf16Length with
      | 0 => none
      | utf16Length + 1 =>
        computeUtf16HashFromModifiedUtf8Loop utf8 utf16Length (hashStep hash second)
    else computeUtf16HashFromModifiedUtf8Loop utf8 utf16Length hash

/-- `ComputeUtf16HashFromModifiedUtf8(utf8, utf16_length)`, returned as `int32_t`. -/
def computeUtf16HashFromModifiedUtf8 (utf8 : List UInt8) (utf16Length : Nat) : Option Int :=
  (computeUtf16HashFromModifiedUtf8Loop utf8 utf16Length 0).map fun (hash : Nat) =>
    toSigned 32 hash

/-- `ComputeModifiedUtf8Hash(chars)`: `hash * 31` plus each byte before the terminator, in
`uint32_t`. -/
def computeModifiedUtf8Hash (chars : List UInt8) : UInt32 :=
  chars.foldl (fun hash c => hash * 31 + c.toUInt32) 0

/-! ### The writer's sequences -/

/-- A sequence the general loop of `ConvertUtf16ToModifiedUtf8` writes, with what makes it one:
an ASCII unit other than `0`, any other unit alone, or a leading surrogate with the trailing
one after it. -/
inductive Sequence where
  | ascii (ch : UInt16) (h : 0 < ch.toNat ∧ ch.toNat ≤ 0x7f)
  | unit (ch : UInt16)
  | pair (hi lo : UInt16) (hhi : isLeadingSurrogate hi) (hlo : isTrailingSurrogate lo)

namespace Sequence

/-- The units a sequence stands for. -/
def units : Sequence → List UInt16
  | ascii ch _ => [ch]
  | unit ch => [ch]
  | pair hi lo _ _ => [hi, lo]

/-- The bytes written for it. -/
def bytes : Sequence → List UInt8
  | ascii ch _ => [UInt8.ofNat ch.toNat]
  | unit ch => encodeUnit ch
  | pair hi lo _ _ => encodePair hi lo

/-- What `GetUtf16FromUtf8` returns for it: a unit, or a pair with the leading unit low. -/
def packed : Sequence → Nat
  | ascii ch _ => ch.toNat
  | unit ch => ch.toNat
  | pair hi lo _ _ => hi.toNat + lo.toNat * 65536

/-- A sequence in shortest form: no ASCII character other than `0` in two bytes. -/
def Shortest : Sequence → Prop
  | .unit ch => ch.toNat = 0 ∨ 0x7f < ch.toNat
  | _ => True

end Sequence

/-- The bytes of a string of sequences. -/
def bytesOf (qs : List Sequence) : List UInt8 := qs.flatMap Sequence.bytes

theorem bytesOf_cons (q : Sequence) (qs : List Sequence) (after : List UInt8) :
    bytesOf (q :: qs) ++ after = q.bytes ++ (bytesOf qs ++ after) := by
  rw [bytesOf, List.flatMap_cons, List.append_assoc]
  rfl

theorem bytesOf_nil (after : List UInt8) : bytesOf [] ++ after = after := rfl

/-- The sequences of a string, in the order the general loop writes them. -/
def sequences : List UInt16 → List Sequence
  | [] => []
  | [ch] => if h : ch.toNat > 0 ∧ ch.toNat ≤ 0x7f then [.ascii ch h] else [.unit ch]
  | ch :: ch2 :: rest =>
    if h : ch.toNat > 0 ∧ ch.toNat ≤ 0x7f then .ascii ch h :: sequences (ch2 :: rest)
    else if hp : isLeadingSurrogate ch ∧ isTrailingSurrogate ch2 then
      .pair ch ch2 hp.1 hp.2 :: sequences rest
    else .unit ch :: sequences (ch2 :: rest)

theorem flatMap_units_sequences : ∀ a : List UInt16, (sequences a).flatMap Sequence.units = a
  | [] => rfl
  | [ch] => by
    unfold sequences
    split <;> rfl
  | ch :: ch2 :: rest => by
    unfold sequences
    split
    · rw [List.flatMap_cons, flatMap_units_sequences (ch2 :: rest)]
      rfl
    · split
      · rw [List.flatMap_cons, flatMap_units_sequences rest]
        rfl
      · rw [List.flatMap_cons, flatMap_units_sequences (ch2 :: rest)]
        rfl

theorem flatMap_bytes_sequences :
    ∀ a : List UInt16, (sequences a).flatMap Sequence.bytes = convertUtf16ToModifiedUtf8Loop a
  | [] => rfl
  | [ch] => by
    unfold sequences convertUtf16ToModifiedUtf8Loop
    split <;> simp [Sequence.bytes]
  | ch :: ch2 :: rest => by
    unfold sequences convertUtf16ToModifiedUtf8Loop
    split
    · rw [List.flatMap_cons, flatMap_bytes_sequences (ch2 :: rest)]
      rfl
    · split
      · rw [List.flatMap_cons, flatMap_bytes_sequences rest]
        rfl
      · rw [List.flatMap_cons, flatMap_bytes_sequences (ch2 :: rest)]
        rfl

namespace Sequence

variable (q : Sequence) (rest : List UInt8)

theorem getUtf16FromUtf8_bytes : getUtf16FromUtf8 (q.bytes ++ rest) = (q.packed, rest) := by
  cases q with
  | ascii ch h => exact getUtf16FromUtf8_ascii rest h
  | unit ch => exact getUtf16FromUtf8_encodeUnit rest ch
  | pair hi lo hhi hlo => exact getUtf16FromUtf8_encodePair rest hhi hlo

theorem length_bytes_pos : 0 < q.bytes.length := by
  cases q with
  | ascii ch h => exact Nat.one_pos
  | unit ch => exact lt_of_lt_of_le (by decide) (two_le_length_encodeUnit ch)
  | pair hi lo hhi hlo => exact Nat.lt_of_sub_eq_succ rfl

/-- No byte of a sequence is the terminator. -/
theorem bytes_ne_zero : ∀ b ∈ q.bytes, b ≠ 0 := by
  cases q with
  | ascii ch h =>
    intro b hb
    rw [bytes, List.mem_singleton] at hb
    rw [hb]
    exact ofNat_ne_zero_of_lt h.1 (by omega)
  | unit ch =>
    have hlt := ch.toNat_lt
    by_cases hbig : 0x07ff < ch.toNat
    · simp only [bytes, encodeUnit_of_gt hbig, List.mem_cons, List.not_mem_nil, or_false]
      rintro b (rfl | rfl | rfl) <;> exact ofNat_ne_zero_of_lt (by omega) (by omega)
    · simp only [bytes, encodeUnit_of_le (Nat.le_of_not_lt hbig), List.mem_cons,
        List.not_mem_nil, or_false]
      rintro b (rfl | rfl) <;> exact ofNat_ne_zero_of_lt (by omega) (by omega)
  | pair hi lo hhi hlo =>
    have hcp := pairCodePoint_eq hhi hlo
    simp only [isLeadingSurrogate, isTrailingSurrogate, Bool.and_eq_true, decide_eq_true_eq]
      at hhi hlo
    simp only [bytes, encodePair_eq (by simpa [isLeadingSurrogate] using hhi)
      (by simpa [isTrailingSurrogate] using hlo), List.mem_cons, List.not_mem_nil, or_false]
    rintro b (rfl | rfl | rfl | rfl) <;> exact ofNat_ne_zero_of_lt (by omega) (by omega)

variable {endLength : Nat}

/-- A round of `CountModifiedUtf8Chars` takes a whole sequence and counts its units. -/
theorem countModifiedUtf8CharsLoop_bytes (fuel : Nat) (h : endLength ≤ rest.length) :
    countModifiedUtf8CharsLoop endLength (fuel + 1) (q.bytes ++ rest) =
      countModifiedUtf8CharsLoop endLength fuel rest + q.units.length := by
  have hlen : ¬(q.bytes ++ rest).length ≤ endLength := by
    have := length_bytes_pos q
    rw [List.length_append]
    omega
  rw [countModifiedUtf8CharsLoop, if_neg hlen]
  cases q with
  | ascii ch hch =>
    simp only [bytes, List.cons_append, List.nil_append, nextByte,
      toNat_ofNat_of_lt (show ch.toNat < 256 by omega), ascii_byte (show ch.toNat < 128 by omega),
      if_true, units, List.length_singleton]
  | unit ch =>
    have hlt := ch.toNat_lt
    by_cases hbig : 0x07ff < ch.toNat
    · -- a leading byte `1110xxxx` and two continuation bytes
      obtain ⟨t1, t2, t3, -⟩ := lead_three (v := ch.toNat / 4096) (by omega)
      simp only [bytes, encodeUnit_of_gt hbig, List.cons_append, List.nil_append, nextByte,
        toNat_ofNat_of_lt (show ch.toNat / 4096 + 224 < 256 by omega), t1, t2, t3, if_false,
        if_true, List.drop_succ_cons, List.drop_zero, units, List.length_singleton]
    · -- a leading byte `110xxxxx` and one continuation byte
      obtain ⟨t1, t2, -⟩ := lead_two (v := ch.toNat / 64) (by omega)
      simp only [bytes, encodeUnit_of_le (Nat.le_of_not_lt hbig), List.cons_append,
        List.nil_append, nextByte, toNat_ofNat_of_lt (show ch.toNat / 64 + 192 < 256 by omega),
        t1, t2, if_false, if_true, List.drop_succ_cons, List.drop_zero, units,
        List.length_singleton]
  | pair hi lo hhi hlo =>
    -- a leading byte `11110xxx` and three continuation bytes, for two units
    have hcp := pairCodePoint_eq hhi hlo
    have hhi' := hhi
    have hlo' := hlo
    simp only [isLeadingSurrogate, isTrailingSurrogate, Bool.and_eq_true, decide_eq_true_eq]
      at hhi' hlo'
    obtain ⟨t1, t2, t3, -⟩ := lead_four
      (v := ((hi.toNat - 0xd800) * 1024 + (lo.toNat - 0xdc00) + 0x10000) / 262144) (by omega)
    simp only [bytes, encodePair_eq hhi hlo, List.cons_append, List.nil_append, nextByte,
      toNat_ofNat_of_lt (show ((hi.toNat - 0xd800) * 1024 + (lo.toNat - 0xdc00) + 0x10000) /
        262144 + 240 < 256 by omega), t1, t2, t3, if_false, List.drop_succ_cons, List.drop_zero,
      units, List.length_cons, List.length_nil]

/-- A round of the general loop of `ConvertModifiedUtf8ToUtf16` takes a whole sequence and
writes its units. -/
theorem convertModifiedUtf8ToUtf16Loop_bytes (fuel : Nat) (h : endLength ≤ rest.length) :
    convertModifiedUtf8ToUtf16Loop endLength (fuel + 1) (q.bytes ++ rest) =
      q.units ++ convertModifiedUtf8ToUtf16Loop endLength fuel rest := by
  have hlen : ¬(q.bytes ++ rest).length ≤ endLength := by
    have := length_bytes_pos q
    rw [List.length_append]
    omega
  rw [convertModifiedUtf8ToUtf16Loop, if_neg hlen, getUtf16FromUtf8_bytes]
  cases q with
  | ascii ch _ =>
    simp [packed, units, getLeadingUtf16Char_of_lt ch.toNat_lt,
      getTrailingUtf16Char_of_lt ch.toNat_lt]
  | unit ch =>
    simp [packed, units, getLeadingUtf16Char_of_lt ch.toNat_lt,
      getTrailingUtf16Char_of_lt ch.toNat_lt]
  | pair hi lo _ hlo =>
    -- the trailing unit of a pair is a surrogate, never `0`
    have hlo0 : lo ≠ 0 := by
      intro h0
      simp [isTrailingSurrogate, h0] at hlo
    simp [packed, units, getLeadingUtf16Char_pair hi.toNat_lt,
      getTrailingUtf16Char_pair hi.toNat_lt lo.toNat_lt, hlo0]

/-- A round of `ComputeUtf16HashFromModifiedUtf8` takes a whole sequence and hashes its units. -/
theorem computeUtf16HashFromModifiedUtf8Loop_bytes (n hash : Nat) :
    computeUtf16HashFromModifiedUtf8Loop (q.bytes ++ rest) (q.units.length + n) hash =
      computeUtf16HashFromModifiedUtf8Loop rest n
        (q.units.foldl (fun hash ch => hashStep hash ch.toNat) hash) := by
  cases q with
  | ascii ch _ =>
    rw [show (ascii ch _).units.length + n = n + 1 by simp [units]; omega,
      computeUtf16HashFromModifiedUtf8Loop, getUtf16FromUtf8_bytes]
    simp [packed, units, getLeadingUtf16Char_of_lt ch.toNat_lt,
      getTrailingUtf16Char_of_lt ch.toNat_lt]
  | unit ch =>
    rw [show (unit ch).units.length + n = n + 1 by simp [units]; omega,
      computeUtf16HashFromModifiedUtf8Loop, getUtf16FromUtf8_bytes]
    simp [packed, units, getLeadingUtf16Char_of_lt ch.toNat_lt,
      getTrailingUtf16Char_of_lt ch.toNat_lt]
  | pair hi lo _ hlo =>
    have hlo0 : lo.toNat ≠ 0 := by
      simp only [isTrailingSurrogate, Bool.and_eq_true, decide_eq_true_eq] at hlo
      omega
    rw [show (pair hi lo _ hlo).units.length + n = n + 1 + 1 by simp [units]; omega,
      computeUtf16HashFromModifiedUtf8Loop, getUtf16FromUtf8_bytes]
    simp [packed, units, getLeadingUtf16Char_pair hi.toNat_lt,
      getTrailingUtf16Char_pair hi.toNat_lt lo.toNat_lt, hlo0]

end Sequence

/-! ### Runs over the sequences -/

section Runs

variable (qs : List Sequence)

theorem countModifiedUtf8CharsLoop_flatMap :
    ∀ (qs : List Sequence) {fuel : Nat}, (qs.flatMap Sequence.bytes).length ≤ fuel →
      countModifiedUtf8CharsLoop 0 fuel (qs.flatMap Sequence.bytes) =
        (qs.flatMap Sequence.units).length
  | [], 0, _ => rfl
  | [], _ + 1, _ => rfl
  | q :: qs, fuel, hfuel => by
    have hpos := q.length_bytes_pos
    obtain ⟨fuel, rfl⟩ : ∃ f, fuel = f + 1 :=
      ⟨fuel - 1, by simp only [List.flatMap_cons, List.length_append] at hfuel; omega⟩
    simp only [List.flatMap_cons, List.length_append] at hfuel ⊢
    rw [q.countModifiedUtf8CharsLoop_bytes _ fuel (Nat.zero_le _),
      countModifiedUtf8CharsLoop_flatMap qs (by omega)]
    omega

theorem convertModifiedUtf8ToUtf16Loop_flatMap :
    ∀ (qs : List Sequence) {fuel : Nat}, (qs.flatMap Sequence.bytes).length ≤ fuel →
      convertModifiedUtf8ToUtf16Loop 0 fuel (qs.flatMap Sequence.bytes) =
        qs.flatMap Sequence.units
  | [], 0, _ => rfl
  | [], _ + 1, _ => rfl
  | q :: qs, fuel, hfuel => by
    have hpos := q.length_bytes_pos
    obtain ⟨fuel, rfl⟩ : ∃ f, fuel = f + 1 :=
      ⟨fuel - 1, by simp only [List.flatMap_cons, List.length_append] at hfuel; omega⟩
    simp only [List.flatMap_cons, List.length_append] at hfuel ⊢
    rw [q.convertModifiedUtf8ToUtf16Loop_bytes _ fuel (Nat.zero_le _),
      convertModifiedUtf8ToUtf16Loop_flatMap qs (by omega)]

theorem computeUtf16HashFromModifiedUtf8Loop_flatMap :
    ∀ (qs : List Sequence) (hash : Nat),
      computeUtf16HashFromModifiedUtf8Loop (qs.flatMap Sequence.bytes)
          (qs.flatMap Sequence.units).length hash =
        some ((qs.flatMap Sequence.units).foldl (fun hash ch => hashStep hash ch.toNat) hash)
  | [], hash => by simp [computeUtf16HashFromModifiedUtf8Loop]
  | q :: qs, hash => by
    simp only [List.flatMap_cons, List.length_append, List.foldl_append]
    rw [q.computeUtf16HashFromModifiedUtf8Loop_bytes,
      computeUtf16HashFromModifiedUtf8Loop_flatMap qs]

/-- The runs again, over the sequences followed by any bytes, which the loops leave alone: how
they read a NUL-terminated buffer. -/
theorem countModifiedUtf8CharsLoop_flatMap_append (rest : List UInt8) :
    ∀ (qs : List Sequence) {fuel : Nat}, (qs.flatMap Sequence.bytes).length ≤ fuel →
      countModifiedUtf8CharsLoop rest.length fuel (qs.flatMap Sequence.bytes ++ rest) =
        (qs.flatMap Sequence.units).length
  | [], 0, _ => rfl
  | [], _ + 1, _ => by simp [countModifiedUtf8CharsLoop]
  | q :: qs, fuel, hfuel => by
    have hpos := q.length_bytes_pos
    obtain ⟨fuel, rfl⟩ : ∃ f, fuel = f + 1 :=
      ⟨fuel - 1, by simp only [List.flatMap_cons, List.length_append] at hfuel; omega⟩
    simp only [List.flatMap_cons, List.length_append, List.append_assoc] at hfuel ⊢
    rw [q.countModifiedUtf8CharsLoop_bytes _ fuel (by simp),
      countModifiedUtf8CharsLoop_flatMap_append rest qs (by omega)]
    omega

theorem convertModifiedUtf8ToUtf16Loop_flatMap_append (rest : List UInt8) :
    ∀ (qs : List Sequence) {fuel : Nat}, (qs.flatMap Sequence.bytes).length ≤ fuel →
      convertModifiedUtf8ToUtf16Loop rest.length fuel (qs.flatMap Sequence.bytes ++ rest) =
        qs.flatMap Sequence.units
  | [], 0, _ => rfl
  | [], _ + 1, _ => by simp [convertModifiedUtf8ToUtf16Loop]
  | q :: qs, fuel, hfuel => by
    have hpos := q.length_bytes_pos
    obtain ⟨fuel, rfl⟩ : ∃ f, fuel = f + 1 :=
      ⟨fuel - 1, by simp only [List.flatMap_cons, List.length_append] at hfuel; omega⟩
    simp only [List.flatMap_cons, List.length_append, List.append_assoc] at hfuel ⊢
    rw [q.convertModifiedUtf8ToUtf16Loop_bytes _ fuel (by simp),
      convertModifiedUtf8ToUtf16Loop_flatMap_append rest qs (by omega)]

end Runs

/-! ### ASCII sequences

A sequence takes one byte a unit exactly when it is an ASCII character, and in shortest form
every ASCII character is written so. -/

namespace Sequence

variable (q : Sequence)

theorem length_units_le_length_bytes : q.units.length ≤ q.bytes.length := by
  cases q with
  | ascii ch h => exact le_refl 1
  | unit ch => exact le_trans (by simp [units]) (two_le_length_encodeUnit ch)
  | pair hi lo _ _ => simp [units, bytes, length_encodePair]

/-- A sequence of as many bytes as units is an ASCII character, its byte the character. -/
theorem ascii_of_length_eq (h : q.units.length = q.bytes.length) :
    q.bytes.map UInt8.toUInt16 = q.units ∧ ∀ ch ∈ q.units, 0 < ch.toNat ∧ ch.toNat ≤ 0x7f := by
  cases q with
  | ascii ch hch =>
    refine ⟨?_, by simpa [units] using hch⟩
    simp only [bytes, units, List.map_cons, List.map_nil, List.cons.injEq, and_true]
    apply UInt16.toNat_inj.mp
    rw [UInt8.toNat_toUInt16, toNat_ofNat_of_lt (by omega)]
  | unit ch =>
    have := two_le_length_encodeUnit ch
    simp only [units, bytes, List.length_singleton] at h
    omega
  | pair hi lo _ _ => simp [units, bytes, length_encodePair] at h

/-- In shortest form an ASCII character takes one byte. -/
theorem length_eq_of_shortest (hs : q.Shortest)
    (hascii : ∀ ch ∈ q.units, 0 < ch.toNat ∧ ch.toNat ≤ 0x7f) :
    q.units.length = q.bytes.length := by
  cases q with
  | ascii ch _ => rfl
  | unit ch =>
    have := hascii ch (by simp [units])
    simp only [Shortest] at hs
    omega
  | pair hi lo hhi _ =>
    have := hascii hi (by simp [units])
    simp only [isLeadingSurrogate, Bool.and_eq_true, decide_eq_true_eq] at hhi
    omega

end Sequence

/-- The writer's sequences are in shortest form: it writes a unit alone only when it is not an
ASCII character. -/
theorem shortest_of_mem_sequences : ∀ (a : List UInt16), ∀ q ∈ sequences a, q.Shortest
  | [] => by simp [sequences]
  | [ch] => by
    unfold sequences
    split
    · simp [Sequence.Shortest]
    · rename_i h
      simp only [List.mem_singleton, forall_eq, Sequence.Shortest]
      omega
  | ch :: ch2 :: rest => by
    unfold sequences
    split
    · rintro q (_ | ⟨_, hq⟩)
      · trivial
      · exact shortest_of_mem_sequences (ch2 :: rest) q hq
    · rename_i h
      split
      · rintro q (_ | ⟨_, hq⟩)
        · trivial
        · exact shortest_of_mem_sequences rest q hq
      · rintro q (_ | ⟨_, hq⟩)
        · simp only [Sequence.Shortest]
          omega
        · exact shortest_of_mem_sequences (ch2 :: rest) q hq

/-! ### The writer -/

theorem length_encodeUnit (ch : UInt16) :
    (encodeUnit ch).length = if 0x07ff < ch.toNat then 3 else 2 := by
  unfold encodeUnit
  split <;> rfl

/-- The general loop writes as many bytes as `CountUtf8Bytes` counts. -/
theorem length_convertUtf16ToModifiedUtf8Loop :
    ∀ a : List UInt16, (convertUtf16ToModifiedUtf8Loop a).length = countUtf8Bytes a
  | [] => rfl
  | [ch] => by
    simp only [convertUtf16ToModifiedUtf8Loop, countUtf8Bytes]
    split_ifs <;> simp only [List.length_singleton, length_encodeUnit] <;> (try split_ifs) <;>
      omega
  | ch :: ch2 :: rest => by
    have ih := length_convertUtf16ToModifiedUtf8Loop (ch2 :: rest)
    have ih' := length_convertUtf16ToModifiedUtf8Loop rest
    simp only [convertUtf16ToModifiedUtf8Loop, countUtf8Bytes, isLeadingSurrogate,
      isTrailingSurrogate, Bool.and_eq_true, decide_eq_true_eq]
    split_ifs <;>
      simp only [List.length_cons, List.length_append, length_encodeUnit, length_encodePair,
        ih, ih'] <;> (try split_ifs) <;> omega

/-- A count equal to the length leaves every unit an ASCII character other than `0`. -/
theorem ascii_of_countUtf8Bytes_eq :
    ∀ a : List UInt16, countUtf8Bytes a = a.length → ∀ ch ∈ a, 0 < ch.toNat ∧ ch.toNat ≤ 0x7f
  | [] => fun _ _ h => absurd h List.not_mem_nil
  | [ch] => by
    intro h c hc
    rw [List.mem_singleton] at hc
    subst hc
    simp only [countUtf8Bytes, List.length_singleton] at h
    split_ifs at h with h1 h2 <;> omega
  | ch :: ch2 :: rest => by
    intro h c hc
    have hle := length_le_countUtf8Bytes (ch2 :: rest)
    have hle' := length_le_countUtf8Bytes rest
    simp only [countUtf8Bytes, List.length_cons] at h hle hle'
    -- every unit but a one-byte one makes the count pass the length
    by_cases hascii : ch.toNat ≠ 0 ∧ ch.toNat < 0x80
    · rw [if_pos hascii] at h
      rcases List.mem_cons.mp hc with rfl | hc
      · omega
      · exact ascii_of_countUtf8Bytes_eq (ch2 :: rest) (by simp only [List.length_cons]; omega) c hc
    · exfalso
      rw [if_neg hascii] at h
      split_ifs at h <;> omega

/-- ASCII characters other than `0` take one byte each. -/
theorem countUtf8Bytes_of_ascii :
    ∀ a : List UInt16, (∀ ch ∈ a, 0 < ch.toNat ∧ ch.toNat ≤ 0x7f) → countUtf8Bytes a = a.length
  | [] => fun _ => rfl
  | [ch] => by
    intro h
    have := h ch List.mem_cons_self
    rw [countUtf8Bytes, if_pos (by omega), List.length_singleton]
  | ch :: ch2 :: rest => by
    intro h
    have hch := h ch List.mem_cons_self
    rw [countUtf8Bytes, if_pos (by omega),
      countUtf8Bytes_of_ascii (ch2 :: rest) fun c hc => h c (List.mem_cons_of_mem _ hc)]
    rfl

/-! ### The round trip -/

/-- For every string of UTF-16 units, `0` and unpaired surrogates included,
`ConvertUtf16ToModifiedUtf8` sized by `CountUtf8Bytes` writes that many bytes, none of them
`0`; `CountModifiedUtf8Chars` on them counts the units; `ConvertModifiedUtf8ToUtf16` with the
unit count gives the string back, on either of its paths; and
`ComputeUtf16HashFromModifiedUtf8` is the `java.lang.String` hash of the string. -/
theorem modifiedUtf8_round_trip (s : List UInt16) :
    (mutf8 s).length = countUtf8Bytes s ∧ (∀ b ∈ mutf8 s, b ≠ 0) ∧
      countModifiedUtf8Chars (mutf8 s) (countUtf8Bytes s) = s.length ∧
      convertModifiedUtf8ToUtf16 s.length (mutf8 s) (countUtf8Bytes s) = s ∧
      computeUtf16HashFromModifiedUtf8 (mutf8 s) s.length = some (computeUtf16Hash s) := by
  -- whichever path writes them, the bytes are those of the sequences of `s`
  have hout : mutf8 s = (sequences s).flatMap Sequence.bytes := by
    rw [flatMap_bytes_sequences, mutf8_eq_convertUtf16ToModifiedUtf8Loop]
  have hunits := flatMap_units_sequences s
  have hlen : (mutf8 s).length = countUtf8Bytes s := by
    rw [mutf8_eq_convertUtf16ToModifiedUtf8Loop, length_convertUtf16ToModifiedUtf8Loop]
  refine ⟨hlen, ?_, ?_, ?_, ?_⟩
  · intro b hb
    rw [hout, List.mem_flatMap] at hb
    obtain ⟨q, -, hb⟩ := hb
    exact q.bytes_ne_zero b hb
  · rw [countModifiedUtf8Chars, hlen, Nat.sub_self, ← hlen, hout,
      countModifiedUtf8CharsLoop_flatMap _ (le_refl _), hunits]
  · unfold convertModifiedUtf8ToUtf16
    split
    · -- as many units as bytes: every unit is ASCII, and both paths copy it
      rename_i heq
      have hascii := ascii_of_countUtf8Bytes_eq s heq.symm
      rw [mutf8, convertUtf16ToModifiedUtf8, if_pos heq.symm,
        List.take_of_length_le (by simp [heq]), List.map_map]
      refine (List.map_congr_left fun ch hch => ?_).trans (List.map_id s)
      have hch := hascii ch hch
      simp only [Function.comp_apply, id]
      rw [toNat_ofNat_of_lt (by omega), UInt16.ofNat_toNat]
    · rw [hlen, Nat.sub_self, ← hlen, hout, convertModifiedUtf8ToUtf16Loop_flatMap _ (le_refl _),
        hunits]
  · have hlength : s.length = ((sequences s).flatMap Sequence.units).length := by rw [hunits]
    rw [computeUtf16HashFromModifiedUtf8, hout, hlength,
      computeUtf16HashFromModifiedUtf8Loop_flatMap, hunits, Option.map_some, computeUtf16Hash]

/-- `a`, `U+0000` and `U+1F600`: the `0` written as two bytes, the pair as four. -/
example : (mutf8 [0x61, 0, 0xd83d, 0xde00]).length = 7 ∧
    convertModifiedUtf8ToUtf16 4 (mutf8 [0x61, 0, 0xd83d, 0xde00]) 7 = [0x61, 0, 0xd83d, 0xde00] ∧
    computeUtf16HashFromModifiedUtf8 (mutf8 [0x61, 0, 0xd83d, 0xde00]) 4 =
      some (computeUtf16Hash [0x61, 0, 0xd83d, 0xde00]) := by
  decide

end AndroidArt.Dex
