/-
Module: AndroidArt.Base.Leb128
Purpose: LEB128 as `libartbase/base/leb128.h` writes and reads it over a byte memory: the
  unsigned and signed readers `DecodeUnsignedLeb128` and `DecodeSignedLeb128`, which trust their
  input, and their `Checked` forms, which read no byte at or past an end position; the sizes
  `UnsignedLeb128Size` and `SignedLeb128Size`; the writers `EncodeUnsignedLeb128` and
  `EncodeSignedLeb128`; `UpdateUnsignedLeb128`, which rewrites an encoding in place at its old
  length; and `ReverseSearchUnsignedLeb128`.
Trusted boundary: the shifts of the readers' `int` accumulator wrap modulo 2^32, which is what
  `cur << 28` does in the fifth byte; `(result << k) >> k` on an `int32_t` is the sign extension
  of its low `32 - k` bits. `ReverseSearchUnsignedLeb128` is taken at an address above 0.
Main exports: Memory, decodeUnsignedLeb128, decodeUnsignedLeb128Checked, decodeSignedLeb128
-/
import Mathlib.Data.Nat.Bitwise
import Mathlib.Tactic.IntervalCases
import Mathlib.Tactic.LinearCombination
import Mathlib.Tactic.Positivity
import Mathlib.Tactic.Linarith
import Mathlib.Tactic.Ring
import AndroidArt.Lib.BitString
import AndroidArt.Lib.BitField
import AndroidArt.Lib.ByteMemory

namespace AndroidArt.Base

open AndroidArt.Lib AndroidArt.Lib.ByteMemory

/-- A byte-addressed memory.  A file mapped at offset `0` is its prefix; what lies past the
file is arbitrary. -/
abbrev Memory := Nat → UInt8

/-- `DecodeUnsignedLeb128`: at most five bytes, the fifth contributing its whole value at bit
28; returns the value (as the `uint32_t` the C++ returns) and the position after it. -/
def decodeUnsignedLeb128 (mem : Memory) (ptr : Nat) : Nat × Nat :=
  let b0 := (mem ptr).toNat
  if b0 ≤ 0x7f then (b0, ptr + 1) else
  let b1 := (mem (ptr + 1)).toNat
  let r1 := (b0 &&& 0x7f) ||| ((b1 &&& 0x7f) <<< 7)
  if b1 ≤ 0x7f then (r1, ptr + 2) else
  let b2 := (mem (ptr + 2)).toNat
  let r2 := r1 ||| ((b2 &&& 0x7f) <<< 14)
  if b2 ≤ 0x7f then (r2, ptr + 3) else
  let b3 := (mem (ptr + 3)).toNat
  let r3 := r2 ||| ((b3 &&& 0x7f) <<< 21)
  if b3 ≤ 0x7f then (r3, ptr + 4) else
  let b4 := (mem (ptr + 4)).toNat
  ((r3 ||| (b4 <<< 28)) % 2 ^ 32, ptr + 5)

/-- `DecodeUnsignedLeb128Checked`: the same reading, failing before any byte at or past
`endPos`. -/
def decodeUnsignedLeb128Checked (mem : Memory) (endPos ptr : Nat) : Option (Nat × Nat) :=
  if endPos ≤ ptr then none else
  let b0 := (mem ptr).toNat
  if b0 ≤ 0x7f then some (b0, ptr + 1) else
  if endPos ≤ ptr + 1 then none else
  let b1 := (mem (ptr + 1)).toNat
  let r1 := (b0 &&& 0x7f) ||| ((b1 &&& 0x7f) <<< 7)
  if b1 ≤ 0x7f then some (r1, ptr + 2) else
  if endPos ≤ ptr + 2 then none else
  let b2 := (mem (ptr + 2)).toNat
  let r2 := r1 ||| ((b2 &&& 0x7f) <<< 14)
  if b2 ≤ 0x7f then some (r2, ptr + 3) else
  if endPos ≤ ptr + 3 then none else
  let b3 := (mem (ptr + 3)).toNat
  let r3 := r2 ||| ((b3 &&& 0x7f) <<< 21)
  if b3 ≤ 0x7f then some (r3, ptr + 4) else
  if endPos ≤ ptr + 4 then none else
  let b4 := (mem (ptr + 4)).toNat
  some ((r3 ||| (b4 <<< 28)) % 2 ^ 32, ptr + 5)

/-- The two's-complement value of the `bits` low bits `x`: what `(result << (32 - bits)) >>
(32 - bits)` leaves of an `int32_t` that holds `x`. -/
def signExtend (bits x : Nat) : Int :=
  if x < 2 ^ (bits - 1) then x else (x : Int) - 2 ^ bits

/-- `DecodeSignedLeb128`: the unsigned reading, sign-extended from the last bit the encoding
holds; a fifth byte fills the top four bits. -/
def decodeSignedLeb128 (mem : Memory) (ptr : Nat) : Int × Nat :=
  let b0 := (mem ptr).toNat
  if b0 ≤ 0x7f then (signExtend 7 b0, ptr + 1) else
  let b1 := (mem (ptr + 1)).toNat
  let r1 := (b0 &&& 0x7f) ||| ((b1 &&& 0x7f) <<< 7)
  if b1 ≤ 0x7f then (signExtend 14 r1, ptr + 2) else
  let b2 := (mem (ptr + 2)).toNat
  let r2 := r1 ||| ((b2 &&& 0x7f) <<< 14)
  if b2 ≤ 0x7f then (signExtend 21 r2, ptr + 3) else
  let b3 := (mem (ptr + 3)).toNat
  let r3 := r2 ||| ((b3 &&& 0x7f) <<< 21)
  if b3 ≤ 0x7f then (signExtend 28 r3, ptr + 4) else
  let b4 := (mem (ptr + 4)).toNat
  (signExtend 32 ((r3 ||| (b4 <<< 28)) % 2 ^ 32), ptr + 5)

/-- `DecodeSignedLeb128Checked`: the same reading, failing before any byte at or past
`endPos`. -/
def decodeSignedLeb128Checked (mem : Memory) (endPos ptr : Nat) : Option (Int × Nat) :=
  if endPos ≤ ptr then none else
  let b0 := (mem ptr).toNat
  if b0 ≤ 0x7f then some (signExtend 7 b0, ptr + 1) else
  if endPos ≤ ptr + 1 then none else
  let b1 := (mem (ptr + 1)).toNat
  let r1 := (b0 &&& 0x7f) ||| ((b1 &&& 0x7f) <<< 7)
  if b1 ≤ 0x7f then some (signExtend 14 r1, ptr + 2) else
  if endPos ≤ ptr + 2 then none else
  let b2 := (mem (ptr + 2)).toNat
  let r2 := r1 ||| ((b2 &&& 0x7f) <<< 14)
  if b2 ≤ 0x7f then some (signExtend 21 r2, ptr + 3) else
  if endPos ≤ ptr + 3 then none else
  let b3 := (mem (ptr + 3)).toNat
  let r3 := r2 ||| ((b3 &&& 0x7f) <<< 21)
  if b3 ≤ 0x7f then some (signExtend 28 r3, ptr + 4) else
  if endPos ≤ ptr + 4 then none else
  let b4 := (mem (ptr + 4)).toNat
  some (signExtend 32 ((r3 ||| (b4 <<< 28)) % 2 ^ 32), ptr + 5)

/-- `CLZ` of a non-zero `uint32_t`: the zero bits above its highest set bit. -/
def clz32 (x : Nat) : Nat := 32 - minimumBitsToStore x

/-- `UnsignedLeb128Size`: `(x * 37) >> 8` stands for `x / 7` on the bits to encode plus six. -/
def unsignedLeb128Size (data : Nat) : Nat :=
  let x := 6 + 32 - clz32 (data ||| 1)
  (x * 37) >>> 8

/-- `data ^ (data >> 31)` of an `int32_t`: the value when it is non-negative and its complement
`-data - 1` otherwise, a non-negative value in both cases. -/
def foldSign (data : Int) : Nat :=
  (if data < 0 then -data - 1 else data).toNat

/-- `SignedLeb128Size`: one bit more than the bits that differ from the sign. -/
def signedLeb128Size (data : Int) : Nat :=
  let x := 1 + 6 + 32 - clz32 (foldSign data ||| 1)
  (x * 37) >>> 8

/-- The loop of `EncodeUnsignedLeb128` from the byte `out`, with the bits `value` still to
write: a byte with the continuation bit while bits are left. -/
def encodeUnsignedLeb128Loop (out value : Nat) : List UInt8 :=
  if value = 0 then [UInt8.ofNat out]
  else UInt8.ofNat (out ||| 0x80) :: encodeUnsignedLeb128Loop (value &&& 0x7f) (value >>> 7)
termination_by value
decreasing_by
  rw [Nat.shiftRight_eq_div_pow]
  omega

/-- `EncodeUnsignedLeb128`: the bytes it writes from `dest` on. -/
def encodeUnsignedLeb128 (value : Nat) : List UInt8 :=
  encodeUnsignedLeb128Loop (value &&& 0x7f) (value >>> 7)

/-- The loop of `EncodeSignedLeb128` at `value`, with `extraBits` the bits beyond the six of a
one-byte encoding that still differ from the sign. -/
def encodeSignedLeb128Loop (value : Int) (extraBits : Nat) : List UInt8 :=
  if extraBits = 0 then [UInt8.ofNat (value % 128).toNat]
  else
    UInt8.ofNat ((value % 128).toNat ||| 0x80) ::
      encodeSignedLeb128Loop (value / 128) (extraBits >>> 7)
termination_by extraBits
decreasing_by
  rw [Nat.shiftRight_eq_div_pow]
  omega

/-- `EncodeSignedLeb128`: the bytes it writes from `dest` on. -/
def encodeSignedLeb128 (value : Int) : List UInt8 :=
  encodeSignedLeb128Loop value (foldSign value >>> 6)

/-- The padding loop of `UpdateUnsignedLeb128`, run `count` times from `end`: the byte before
`end` gets the continuation bit and the byte at `end` becomes `0`. -/
def padUnsignedLeb128 (mem : Memory) (endPos : Nat) : Nat → Memory
  | 0 => mem
  | count + 1 =>
    padUnsignedLeb128
      (Function.update (Function.update mem (endPos - 1) (mem (endPos - 1) ||| 0x80)) endPos 0)
      (endPos + 1) count

/-- `UpdateUnsignedLeb128`: the new value written over the encoding at `dest`, padded with
`0x80` bytes and a final `0` up to the old encoding's end. -/
def updateUnsignedLeb128 (mem : Memory) (dest value : Nat) : Memory :=
  let oldEnd := (decodeUnsignedLeb128 mem dest).2
  let bytes := encodeUnsignedLeb128 value
  padUnsignedLeb128 (storeBytes mem dest bytes) (dest + bytes.length) (oldEnd - (dest + bytes.length))

/-- The loop of `ReverseSearchUnsignedLeb128` at `ptr`: it moves back while the byte before
`ptr` carries the continuation bit. -/
def reverseSearchLoop (mem : Memory) : Nat → Nat
  | 0 => 0
  | p + 1 => if (mem p).toNat ≤ 0x7f then p + 1 else reverseSearchLoop mem p

/-- `ReverseSearchUnsignedLeb128`: the first byte of the encoding that ends right before
`endPtr`. -/
def reverseSearchUnsignedLeb128 (mem : Memory) (endPtr : Nat) : Nat :=
  reverseSearchLoop mem (endPtr - 1)

/-- The checked reader is the unchecked one, cut off when the encoding would reach past
`endPos`: each of its tests fails exactly when the next byte the unchecked reader takes lies at
or past `endPos`. -/
theorem decodeUnsignedLeb128Checked_eq (mem : Memory) (endPos ptr : Nat) :
    decodeUnsignedLeb128Checked mem endPos ptr =
      if (decodeUnsignedLeb128 mem ptr).2 ≤ endPos then some (decodeUnsignedLeb128 mem ptr)
      else none := by
  unfold decodeUnsignedLeb128Checked decodeUnsignedLeb128
  -- one case for each byte that ends the reading; the end is tested before every byte read
  by_cases h0 : (mem ptr).toNat ≤ 0x7f
  · simp only [h0, if_true]
    split_ifs <;> first | rfl | omega
  by_cases h1 : (mem (ptr + 1)).toNat ≤ 0x7f
  · simp only [h0, h1, if_true, if_false]
    split_ifs <;> first | rfl | omega
  by_cases h2 : (mem (ptr + 2)).toNat ≤ 0x7f
  · simp only [h0, h1, h2, if_true, if_false]
    split_ifs <;> first | rfl | omega
  by_cases h3 : (mem (ptr + 3)).toNat ≤ 0x7f
  · simp only [h0, h1, h2, h3, if_true, if_false]
    split_ifs <;> first | rfl | omega
  · simp only [h0, h1, h2, h3, if_false]
    split_ifs <;> first | rfl | omega

/-- The same holds of the signed readers, whose tests are those of the unsigned ones. -/
theorem decodeSignedLeb128Checked_eq (mem : Memory) (endPos ptr : Nat) :
    decodeSignedLeb128Checked mem endPos ptr =
      if (decodeSignedLeb128 mem ptr).2 ≤ endPos then some (decodeSignedLeb128 mem ptr)
      else none := by
  unfold decodeSignedLeb128Checked decodeSignedLeb128
  -- one case for each byte that ends the reading; the end is tested before every byte read
  by_cases h0 : (mem ptr).toNat ≤ 0x7f
  · simp only [h0, if_true]
    split_ifs <;> first | rfl | omega
  by_cases h1 : (mem (ptr + 1)).toNat ≤ 0x7f
  · simp only [h0, h1, if_true, if_false]
    split_ifs <;> first | rfl | omega
  by_cases h2 : (mem (ptr + 2)).toNat ≤ 0x7f
  · simp only [h0, h1, h2, if_true, if_false]
    split_ifs <;> first | rfl | omega
  by_cases h3 : (mem (ptr + 3)).toNat ≤ 0x7f
  · simp only [h0, h1, h2, h3, if_true, if_false]
    split_ifs <;> first | rfl | omega
  · simp only [h0, h1, h2, h3, if_false]
    split_ifs <;> first | rfl | omega

/-- Every reading advances by one to five bytes. -/
theorem decodeUnsignedLeb128_advance (mem : Memory) (ptr : Nat) :
    ptr < (decodeUnsignedLeb128 mem ptr).2 ∧ (decodeUnsignedLeb128 mem ptr).2 ≤ ptr + 5 := by
  simp only [decodeUnsignedLeb128]
  split_ifs <;> simp

/-! ### The readers in arithmetic -/

theorem and_0x7f (x : Nat) : x &&& 0x7f = x % 128 := by
  rw [show (0x7f : Nat) = 2 ^ 7 - 1 from rfl, Nat.and_two_pow_sub_one_eq_mod]

theorem or_0x80 {x : Nat} (h : x < 128) : x ||| 0x80 = x + 128 :=
  Nat.or_two_pow_eq_add_of_lt (n := 7) h

/-- The value the first `k` bytes of a reading accumulate: their seven low bits at their
places. -/
def leb128Bits (b : Nat → Nat) : Nat → Nat
  | 0 => 0
  | k + 1 => leb128Bits b k + b k % 128 * 2 ^ (7 * k)

theorem leb128Bits_lt (b : Nat → Nat) : ∀ k, leb128Bits b k < 2 ^ (7 * k)
  | 0 => by simp [leb128Bits]
  | k + 1 => by
    have ih := leb128Bits_lt b k
    have hb : b k % 128 < 2 ^ 7 := Nat.mod_lt _ (by decide)
    have hpow : 2 ^ (7 * (k + 1)) = 2 ^ (7 * k) * 2 ^ 7 := by
      rw [Nat.mul_add, Nat.mul_one, Nat.pow_add]
    rw [leb128Bits, hpow]
    -- the new byte sits above the bits so far
    calc leb128Bits b k + b k % 128 * 2 ^ (7 * k)
        < 2 ^ (7 * k) + b k % 128 * 2 ^ (7 * k) := by omega
      _ = (b k % 128 + 1) * 2 ^ (7 * k) := by rw [Nat.add_mul, Nat.one_mul, Nat.add_comm]
      _ ≤ 2 ^ 7 * 2 ^ (7 * k) := Nat.mul_le_mul_right _ hb
      _ = 2 ^ (7 * k) * 2 ^ 7 := Nat.mul_comm _ _

/-- One more byte ORed in at its place. -/
theorem leb128Bits_succ_or (b : Nat → Nat) (k : Nat) :
    leb128Bits b k ||| (b k &&& 0x7f) <<< (7 * k) = leb128Bits b (k + 1) := by
  rw [and_0x7f, or_shiftLeft_of_lt _ (leb128Bits_lt b k), leb128Bits]

section Readers

variable (mem : Memory) (ptr : Nat)

/-- The accumulator of the readers: every step ORs the next byte's seven low bits in at its
place. -/
theorem accumulators :
    ((mem ptr).toNat &&& 0x7f) ||| ((mem (ptr + 1)).toNat &&& 0x7f) <<< 7 =
        leb128Bits (fun i => (mem (ptr + i)).toNat) 2 ∧
      leb128Bits (fun i => (mem (ptr + i)).toNat) 2 ||| ((mem (ptr + 2)).toNat &&& 0x7f) <<< 14 =
        leb128Bits (fun i => (mem (ptr + i)).toNat) 3 ∧
      leb128Bits (fun i => (mem (ptr + i)).toNat) 3 ||| ((mem (ptr + 3)).toNat &&& 0x7f) <<< 21 =
        leb128Bits (fun i => (mem (ptr + i)).toNat) 4 ∧
      leb128Bits (fun i => (mem (ptr + i)).toNat) 4 ||| (mem (ptr + 4)).toNat <<< 28 =
        leb128Bits (fun i => (mem (ptr + i)).toNat) 4 + (mem (ptr + 4)).toNat * 2 ^ 28 := by
  have h0 : (mem ptr).toNat &&& 0x7f = leb128Bits (fun i => (mem (ptr + i)).toNat) 1 := by
    simp [leb128Bits, and_0x7f]
  refine ⟨?_, leb128Bits_succ_or _ 2, leb128Bits_succ_or _ 3,
    or_shiftLeft_of_lt _ (leb128Bits_lt _ 4)⟩
  rw [h0]
  exact leb128Bits_succ_or _ 1

/-- `DecodeUnsignedLeb128` in arithmetic: the bytes up to the first without the continuation
bit, seven bits each at their places, and a fifth byte whole at bit 28, modulo 2^32. -/
theorem decodeUnsignedLeb128_eq :
    decodeUnsignedLeb128 mem ptr =
      if (mem ptr).toNat ≤ 0x7f then ((mem ptr).toNat, ptr + 1)
      else if (mem (ptr + 1)).toNat ≤ 0x7f then
        (leb128Bits (fun i => (mem (ptr + i)).toNat) 2, ptr + 2)
      else if (mem (ptr + 2)).toNat ≤ 0x7f then
        (leb128Bits (fun i => (mem (ptr + i)).toNat) 3, ptr + 3)
      else if (mem (ptr + 3)).toNat ≤ 0x7f then
        (leb128Bits (fun i => (mem (ptr + i)).toNat) 4, ptr + 4)
      else ((leb128Bits (fun i => (mem (ptr + i)).toNat) 4 + (mem (ptr + 4)).toNat * 2 ^ 28) %
        2 ^ 32, ptr + 5) := by
  obtain ⟨e1, e2, e3, e4⟩ := accumulators mem ptr
  simp only [decodeUnsignedLeb128, e1, e2, e3, e4]

/-- `DecodeSignedLeb128` in arithmetic: the unsigned accumulation, sign-extended from its last
bit. -/
theorem decodeSignedLeb128_eq :
    decodeSignedLeb128 mem ptr =
      if (mem ptr).toNat ≤ 0x7f then (signExtend 7 (mem ptr).toNat, ptr + 1)
      else if (mem (ptr + 1)).toNat ≤ 0x7f then
        (signExtend 14 (leb128Bits (fun i => (mem (ptr + i)).toNat) 2), ptr + 2)
      else if (mem (ptr + 2)).toNat ≤ 0x7f then
        (signExtend 21 (leb128Bits (fun i => (mem (ptr + i)).toNat) 3), ptr + 3)
      else if (mem (ptr + 3)).toNat ≤ 0x7f then
        (signExtend 28 (leb128Bits (fun i => (mem (ptr + i)).toNat) 4), ptr + 4)
      else (signExtend 32 ((leb128Bits (fun i => (mem (ptr + i)).toNat) 4 +
        (mem (ptr + 4)).toNat * 2 ^ 28) % 2 ^ 32), ptr + 5) := by
  obtain ⟨e1, e2, e3, e4⟩ := accumulators mem ptr
  simp only [decodeSignedLeb128, e1, e2, e3, e4]

end Readers

/-! ### The unsigned writer -/

theorem shiftRight_seven (u : Nat) : u >>> 7 = u / 128 := by
  rw [Nat.shiftRight_eq_div_pow]

theorem toNat_ofNat_byte {x : Nat} (h : x < 256) : (UInt8.ofNat x).toNat = x :=
  UInt8.toNat_ofNat_of_lt' h

theorem encodeUnsignedLeb128_of_lt {u : Nat} (h : u < 128) :
    encodeUnsignedLeb128 u = [UInt8.ofNat u] := by
  rw [encodeUnsignedLeb128, encodeUnsignedLeb128Loop, shiftRight_seven, if_pos (by omega),
    and_0x7f, Nat.mod_eq_of_lt h]

/-- A value of eight bits or more is written as its seven low bits with the continuation bit,
then the rest. -/
theorem encodeUnsignedLeb128_of_le {u : Nat} (h : 128 ≤ u) :
    encodeUnsignedLeb128 u = UInt8.ofNat (u % 128 + 128) :: encodeUnsignedLeb128 (u / 128) := by
  rw [encodeUnsignedLeb128, encodeUnsignedLeb128Loop, shiftRight_seven, if_neg (by omega),
    and_0x7f, or_0x80 (Nat.mod_lt _ (by decide)), encodeUnsignedLeb128, shiftRight_seven]

/-- Every byte of an encoding but the last carries the continuation bit, and the last does
not. -/
theorem encodeUnsignedLeb128_shape (u : Nat) :
    ∃ body last, encodeUnsignedLeb128 u = body ++ [last] ∧ (∀ b ∈ body, 0x80 ≤ b.toNat) ∧
      last.toNat ≤ 0x7f := by
  induction u using Nat.strong_induction_on with
  | _ u ih =>
    by_cases h : u < 128
    · refine ⟨[], UInt8.ofNat u, by rw [encodeUnsignedLeb128_of_lt h]; rfl, by simp, ?_⟩
      rw [toNat_ofNat_byte (by omega)]
      omega
    · obtain ⟨body, last, henc, hbody, hlast⟩ := ih (u / 128) (by omega)
      refine ⟨UInt8.ofNat (u % 128 + 128) :: body, last, ?_, ?_, hlast⟩
      · rw [encodeUnsignedLeb128_of_le (by omega), henc, List.cons_append]
      · intro b hb
        rcases List.mem_cons.mp hb with rfl | hb
        · rw [toNat_ofNat_byte (by omega)]
          omega
        · exact hbody b hb

/-- A value below `2 ^ (7 * k)` and, unless `k = 1`, at least `2 ^ (7 * (k - 1))` needs `k`
bytes. -/
def NeedsBytes (u k : Nat) : Prop :=
  u < 2 ^ (7 * k) ∧ (k = 1 ∨ 2 ^ (7 * (k - 1)) ≤ u)

theorem length_encodeUnsignedLeb128_of_needs :
    ∀ {k u : Nat}, NeedsBytes u k → (encodeUnsignedLeb128 u).length = k
  | 0, u, ⟨hlt, hk⟩ => by
    simp at hlt hk
    omega
  | 1, u, ⟨hlt, _⟩ => by
    rw [encodeUnsignedLeb128_of_lt (by simpa using hlt), List.length_singleton]
  | k + 2, u, ⟨hlt, hk⟩ => by
    have hpow : 2 ^ (7 * (k + 1)) = 2 ^ (7 * k) * 128 := by
      rw [Nat.mul_add, Nat.mul_one, Nat.pow_add]
    have hpow' : 2 ^ (7 * (k + 2)) = 2 ^ (7 * k) * 128 * 128 := by
      rw [show 7 * (k + 2) = 7 * k + 7 + 7 by omega, Nat.pow_add, Nat.pow_add]
    have hlo : 2 ^ (7 * (k + 1)) ≤ u := by simpa using hk
    have hk1 : 1 ≤ 2 ^ (7 * k) := Nat.one_le_two_pow
    rw [hpow'] at hlt
    rw [hpow] at hlo
    -- the bytes after the first are those of `u / 128`, which needs one byte less
    have hrest : NeedsBytes (u / 128) (k + 1) := by
      refine ⟨by rw [hpow]; omega, ?_⟩
      rcases Nat.eq_zero_or_pos k with rfl | hkpos
      · exact Or.inl rfl
      · refine Or.inr ?_
        rw [Nat.add_sub_cancel]
        omega
    rw [encodeUnsignedLeb128_of_le (by omega), List.length_cons,
      length_encodeUnsignedLeb128_of_needs hrest]

theorem one_le_of_needs {u k : Nat} (h : NeedsBytes u k) : 1 ≤ k := by
  rcases Nat.eq_zero_or_pos k with rfl | hk
  · obtain ⟨hlt, hlo⟩ := h
    simp at hlt hlo
    omega
  · exact hk

/-- `UnsignedLeb128Size` counts the bytes a value needs: its highest set bit (or bit 0) over
seven, rounded up. -/
theorem unsignedLeb128Size_of_needs {u k : Nat} (h : NeedsBytes u k) (hu : u < 2 ^ 32) :
    unsignedLeb128Size u = k := by
  have hk := one_le_of_needs h
  obtain ⟨hlt, hlo⟩ := h
  have hhi : minimumBitsToStore (u ||| 1) ≤ 7 * k :=
    minimumBitsToStore_le_iff.mpr (Nat.or_lt_two_pow hlt (Nat.one_lt_two_pow (by omega)))
  have h32 : minimumBitsToStore (u ||| 1) ≤ 32 :=
    minimumBitsToStore_le_iff.mpr (Nat.or_lt_two_pow hu (by decide))
  have hpos : 1 ≤ minimumBitsToStore (u ||| 1) := by
    by_contra h0
    have hzero := minimumBitsToStore_le_iff.mp (show minimumBitsToStore (u ||| 1) ≤ 0 by omega)
    have hone : 1 ≤ u ||| 1 := Nat.right_le_or
    rw [Nat.pow_zero] at hzero
    omega
  -- a value of more than one byte has a set bit above the bytes before its last
  have hlow : k = 1 ∨ 7 * (k - 1) < minimumBitsToStore (u ||| 1) := by
    rcases hlo with hk1 | hlo
    · exact Or.inl hk1
    · right
      by_contra hle
      have hsmall := minimumBitsToStore_le_iff.mp (Nat.le_of_not_lt hle)
      have hor : u ≤ u ||| 1 := Nat.left_le_or
      omega
  unfold unsignedLeb128Size clz32
  rw [Nat.shiftRight_eq_div_pow]
  omega

/-- Every `uint32_t` needs between one and five bytes. -/
theorem exists_needsBytes {u : Nat} (hu : u < 2 ^ 32) : ∃ k ≤ 5, NeedsBytes u k := by
  by_cases h1 : u < 2 ^ 7
  · exact ⟨1, by omega, h1, Or.inl rfl⟩
  by_cases h2 : u < 2 ^ 14
  · exact ⟨2, by omega, h2, Or.inr (by omega)⟩
  by_cases h3 : u < 2 ^ 21
  · exact ⟨3, by omega, h3, Or.inr (by omega)⟩
  by_cases h4 : u < 2 ^ 28
  · exact ⟨4, by omega, h4, Or.inr (by omega)⟩
  · exact ⟨5, by omega, by omega, Or.inr (by omega)⟩

/-- `EncodeUnsignedLeb128` writes `UnsignedLeb128Size` bytes. -/
theorem length_encodeUnsignedLeb128 {u : Nat} (hu : u < 2 ^ 32) :
    (encodeUnsignedLeb128 u).length = unsignedLeb128Size u := by
  obtain ⟨k, -, hk⟩ := exists_needsBytes hu
  rw [length_encodeUnsignedLeb128_of_needs hk, unsignedLeb128Size_of_needs hk hu]

/-- Byte `i` of an encoding holds bits `7 * i` to `7 * i + 6` of the value. -/
theorem toNat_getElem_encodeUnsignedLeb128_mod :
    ∀ (i u : Nat) (hi : i < (encodeUnsignedLeb128 u).length),
      (encodeUnsignedLeb128 u)[i].toNat % 128 = u / 2 ^ (7 * i) % 128
  | 0, u, hi => by
    by_cases h : u < 128
    · simp only [encodeUnsignedLeb128_of_lt h, List.getElem_cons_zero, toNat_ofNat_byte (by omega :
        u < 256)]
      simp
    · simp only [encodeUnsignedLeb128_of_le (by omega : 128 ≤ u), List.getElem_cons_zero,
        toNat_ofNat_byte (by omega : u % 128 + 128 < 256)]
      simp
  | i + 1, u, hi => by
    by_cases h : u < 128
    · simp [encodeUnsignedLeb128_of_lt h] at hi
    · have hlen : i < (encodeUnsignedLeb128 (u / 128)).length := by
        rw [encodeUnsignedLeb128_of_le (by omega), List.length_cons] at hi
        omega
      have hpow : 2 ^ (7 * (i + 1)) = 128 * 2 ^ (7 * i) := by
        rw [Nat.mul_add, Nat.mul_one, Nat.pow_add, Nat.mul_comm]
      simp only [encodeUnsignedLeb128_of_le (by omega : 128 ≤ u), List.getElem_cons_succ]
      rw [toNat_getElem_encodeUnsignedLeb128_mod i (u / 128) hlen, Nat.div_div_eq_div_mul, hpow]

/-- The seven-bit groups of `u`, accumulated, are `u` modulo their range. -/
theorem leb128Bits_of_mod {b : Nat → Nat} {u : Nat} :
    ∀ k, (∀ i < k, b i % 128 = u / 2 ^ (7 * i) % 128) → leb128Bits b k = u % 2 ^ (7 * k)
  | 0, _ => by simp [leb128Bits, Nat.mod_one]
  | k + 1, hb => by
    rw [leb128Bits, leb128Bits_of_mod k (fun i hi => hb i (by omega)), hb k (by omega),
      Nat.mul_add, Nat.mul_one, Nat.pow_add, Nat.mod_mul, Nat.mul_comm (2 ^ (7 * k))]

section Reading

variable {mem : Memory} {ptr : Nat}

/-- A reading of `k` bytes: the first `k - 1` carry the continuation bit and the last does
not. -/
def ReadsBytes (mem : Memory) (ptr k : Nat) : Prop :=
  1 ≤ k ∧ k ≤ 5 ∧ (∀ i, i + 1 < k → 0x80 ≤ (mem (ptr + i)).toNat) ∧
    (mem (ptr + (k - 1))).toNat ≤ 0x7f

/-- The tests the readers make on a reading of `k` bytes: the first `k - 1` bytes carry the
continuation bit and the `k`-th does not, unless it is the fifth. -/
theorem ReadsBytes.cases {k : Nat} (h : ReadsBytes mem ptr k) :
    (k = 1 ∧ (mem ptr).toNat ≤ 0x7f) ∨
    (k = 2 ∧ ¬(mem ptr).toNat ≤ 0x7f ∧ (mem (ptr + 1)).toNat ≤ 0x7f) ∨
    (k = 3 ∧ ¬(mem ptr).toNat ≤ 0x7f ∧ ¬(mem (ptr + 1)).toNat ≤ 0x7f ∧
      (mem (ptr + 2)).toNat ≤ 0x7f) ∨
    (k = 4 ∧ ¬(mem ptr).toNat ≤ 0x7f ∧ ¬(mem (ptr + 1)).toNat ≤ 0x7f ∧
      ¬(mem (ptr + 2)).toNat ≤ 0x7f ∧ (mem (ptr + 3)).toNat ≤ 0x7f) ∨
    (k = 5 ∧ ¬(mem ptr).toNat ≤ 0x7f ∧ ¬(mem (ptr + 1)).toNat ≤ 0x7f ∧
      ¬(mem (ptr + 2)).toNat ≤ 0x7f ∧ ¬(mem (ptr + 3)).toNat ≤ 0x7f) := by
  obtain ⟨hk1, hk5, hcont, hlast⟩ := h
  have hc : ∀ i, i + 1 < k → ¬(mem (ptr + i)).toNat ≤ 0x7f := by
    intro i hi
    have := hcont i hi
    omega
  interval_cases k
  · exact Or.inl ⟨rfl, hlast⟩
  · exact Or.inr (Or.inl ⟨rfl, hc 0 (by omega), hlast⟩)
  · exact Or.inr (Or.inr (Or.inl ⟨rfl, hc 0 (by omega), hc 1 (by omega), hlast⟩))
  · exact Or.inr (Or.inr (Or.inr (Or.inl
      ⟨rfl, hc 0 (by omega), hc 1 (by omega), hc 2 (by omega), hlast⟩)))
  · exact Or.inr (Or.inr (Or.inr (Or.inr
      ⟨rfl, hc 0 (by omega), hc 1 (by omega), hc 2 (by omega), hc 3 (by omega)⟩)))

/-- One byte below `0x80` is its own seven bits. -/
theorem leb128Bits_one {b : Nat → Nat} (h : b 0 ≤ 0x7f) : leb128Bits b 1 = b 0 := by
  simp [leb128Bits, Nat.mod_eq_of_lt (show b 0 < 128 by omega)]

/-- `DecodeUnsignedLeb128` over `k` bytes: their bits, the fifth byte's whole, and the cursor
`k` bytes on. -/
theorem decodeUnsignedLeb128_of_readsBytes {k : Nat} (h : ReadsBytes mem ptr k) :
    decodeUnsignedLeb128 mem ptr =
      (if k = 5 then (leb128Bits (fun i => (mem (ptr + i)).toNat) 4 +
          (mem (ptr + 4)).toNat * 2 ^ 28) % 2 ^ 32
        else leb128Bits (fun i => (mem (ptr + i)).toNat) k, ptr + k) := by
  rw [decodeUnsignedLeb128_eq]
  rcases h.cases with ⟨rfl, h0⟩ | ⟨rfl, h0, h1⟩ | ⟨rfl, h0, h1, h2⟩ | ⟨rfl, h0, h1, h2, h3⟩ |
    ⟨rfl, h0, h1, h2, h3⟩
  · rw [if_pos h0, if_neg (by decide), leb128Bits_one h0]
    rfl
  · rw [if_neg h0, if_pos h1, if_neg (by decide)]
  · rw [if_neg h0, if_neg h1, if_pos h2, if_neg (by decide)]
  · rw [if_neg h0, if_neg h1, if_neg h2, if_pos h3, if_neg (by decide)]
  · rw [if_neg h0, if_neg h1, if_neg h2, if_neg h3, if_pos rfl]

/-- Bytes held in memory whose every byte but the last carries the continuation bit are a
reading of their own length, if there are one to five of them. -/
theorem readsBytes_of_shape {bs : List UInt8} (hmem : loadBytes mem ptr bs.length = bs)
    (hshape : ∃ body last, bs = body ++ [last] ∧ (∀ b ∈ body, 0x80 ≤ b.toNat) ∧
      last.toNat ≤ 0x7f) (hlen : bs.length ≤ 5) :
    ReadsBytes mem ptr bs.length := by
  obtain ⟨body, last, rfl, hbody, hlast⟩ := hshape
  refine ⟨by simp, hlen, fun i hi => ?_, ?_⟩
  · have hib : i < body.length := by simp at hi; omega
    rw [apply_of_loadBytes hmem (by simp; omega), List.getElem_append_left hib]
    exact hbody _ (List.getElem_mem hib)
  · have hidx : (body ++ [last]).length - 1 = body.length := by simp
    rw [hidx, apply_of_loadBytes hmem (by simp)]
    simpa using hlast

/-- A reading of `k` bytes that hold the seven-bit groups of a `uint32_t` below `2 ^ (7 * k)`
decodes to it. -/
theorem decodeUnsignedLeb128_of_bits {k u : Nat} (hread : ReadsBytes mem ptr k)
    (hbits : ∀ i < k, (mem (ptr + i)).toNat % 128 = u / 2 ^ (7 * i) % 128)
    (hlt : u < 2 ^ (7 * k)) (hu : u < 2 ^ 32) :
    decodeUnsignedLeb128 mem ptr = (u, ptr + k) := by
  rw [decodeUnsignedLeb128_of_readsBytes hread]
  split_ifs with hk5
  · subst hk5
    have h4 := hbits 4 (by omega)
    have hlast : (mem (ptr + 4)).toNat ≤ 0x7f := hread.2.2.2
    rw [leb128Bits_of_mod 4 (fun i hi => hbits i (by omega))]
    simp only [Prod.mk.injEq, and_true]
    omega
  · rw [leb128Bits_of_mod k hbits, Nat.mod_eq_of_lt hlt]

/-- `DecodeUnsignedLeb128` reads back every `uint32_t` that `EncodeUnsignedLeb128` wrote, and
moves the cursor by `UnsignedLeb128Size` bytes. -/
theorem decodeUnsignedLeb128_encode {u : Nat} (hu : u < 2 ^ 32)
    (hmem : loadBytes mem ptr (encodeUnsignedLeb128 u).length = encodeUnsignedLeb128 u) :
    decodeUnsignedLeb128 mem ptr = (u, ptr + unsignedLeb128Size u) := by
  obtain ⟨k, hk5, hk⟩ := exists_needsBytes hu
  have hlen := length_encodeUnsignedLeb128_of_needs hk
  have hread := readsBytes_of_shape hmem (encodeUnsignedLeb128_shape u) (by omega)
  -- every byte read holds its seven bits of `u`
  have hbits : ∀ i < k, (mem (ptr + i)).toNat % 128 = u / 2 ^ (7 * i) % 128 := by
    intro i hi
    rw [apply_of_loadBytes hmem (by omega)]
    exact toNat_getElem_encodeUnsignedLeb128_mod i u (by omega)
  rw [hlen] at hread
  rw [← length_encodeUnsignedLeb128 hu, hlen]
  exact decodeUnsignedLeb128_of_bits hread hbits hk.1 hu

/-- `DecodeUnsignedLeb128Checked` reads an encoding as the unchecked reader does when the end
lies at or past the byte after it, and fails otherwise. -/
theorem decodeUnsignedLeb128Checked_encode {u : Nat} (hu : u < 2 ^ 32) (endPos : Nat)
    (hmem : loadBytes mem ptr (encodeUnsignedLeb128 u).length = encodeUnsignedLeb128 u) :
    decodeUnsignedLeb128Checked mem endPos ptr =
      if ptr + unsignedLeb128Size u ≤ endPos then some (u, ptr + unsignedLeb128Size u)
      else none := by
  rw [decodeUnsignedLeb128Checked_eq, decodeUnsignedLeb128_encode hu hmem]

end Reading

/-! ### Updating in place and searching back -/

theorem toNat_or_0x80 (b : UInt8) :
    (b ||| 0x80).toNat % 128 = b.toNat % 128 ∧ 0x80 ≤ (b ||| 0x80).toNat := by
  rw [UInt8.toNat_or]
  refine ⟨?_, Nat.right_le_or⟩
  rw [show (128 : Nat) = 2 ^ 7 from rfl, Nat.or_mod_two_pow]
  simp

/-- The padding loop of `UpdateUnsignedLeb128` over `count` rounds from `endPos`: it sets the
continuation bit of the byte before `endPos`, writes `0x80` up to the last byte and `0` there. -/
theorem padUnsignedLeb128_apply (mem : Memory) {endPos : Nat} (he : 1 ≤ endPos) (count x : Nat) :
    padUnsignedLeb128 mem endPos count x =
      if count = 0 ∨ x + 1 < endPos ∨ endPos + count ≤ x then mem x
      else if x + 1 = endPos then mem x ||| 0x80
      else if x + 1 = endPos + count then 0 else 0x80 := by
  induction count generalizing mem endPos with
  | zero => simp [padUnsignedLeb128]
  | succ c ih =>
    rw [padUnsignedLeb128, ih _ (by omega)]
    simp only [Function.update_apply, Nat.add_one_ne_zero, false_or]
    split_ifs <;> first | rfl | omega | (subst_vars; rfl)

section Update

variable {mem : Memory} {ptr : Nat}

/-- Over the encoding of `w`, `UpdateUnsignedLeb128` stores the encoding of `v` and pads from
its end for the bytes by which it is shorter. -/
theorem updateUnsignedLeb128_eq {v w : Nat} (hv : v < 2 ^ 32) (hw : w < 2 ^ 32)
    (hmem : loadBytes mem ptr (encodeUnsignedLeb128 w).length = encodeUnsignedLeb128 w) :
    updateUnsignedLeb128 mem ptr v =
      padUnsignedLeb128 (storeBytes mem ptr (encodeUnsignedLeb128 v)) (ptr + unsignedLeb128Size v)
        (unsignedLeb128Size w - unsignedLeb128Size v) := by
  rw [updateUnsignedLeb128, decodeUnsignedLeb128_encode hw hmem, length_encodeUnsignedLeb128 hv]
  congr 1
  omega

/-- `UpdateUnsignedLeb128` over the encoding of `w` leaves, at the old length, the encoding of
`v` padded with continuation bytes: it decodes to `v` with the cursor at the old end. -/
theorem decodeUnsignedLeb128_update {v w : Nat} (hv : v < 2 ^ 32) (hw : w < 2 ^ 32)
    (hsize : unsignedLeb128Size v ≤ unsignedLeb128Size w)
    (hmem : loadBytes mem ptr (encodeUnsignedLeb128 w).length = encodeUnsignedLeb128 w) :
    decodeUnsignedLeb128 (updateUnsignedLeb128 mem ptr v) ptr =
      (v, ptr + unsignedLeb128Size w) := by
  obtain ⟨kv, hkv5, hkv⟩ := exists_needsBytes hv
  obtain ⟨kw, hkw5, hkw⟩ := exists_needsBytes hw
  have hlv := length_encodeUnsignedLeb128_of_needs hkv
  have hsw := unsignedLeb128Size_of_needs hkw hw
  have hkv1 := one_le_of_needs hkv
  have hle : kv ≤ kw := by
    rw [← unsignedLeb128Size_of_needs hkv hv, ← hsw]
    exact hsize
  -- the new encoding, stored over the old one, is a reading of `kv` bytes of `v`
  set ms := storeBytes mem ptr (encodeUnsignedLeb128 v)
  have hstored : loadBytes ms ptr (encodeUnsignedLeb128 v).length = encodeUnsignedLeb128 v :=
    loadBytes_storeBytes _
  have hread := readsBytes_of_shape hstored (encodeUnsignedLeb128_shape v) (by omega)
  rw [hlv] at hread
  have hbits : ∀ i < kv, (ms (ptr + i)).toNat % 128 = v / 2 ^ (7 * i) % 128 := by
    intro i hi
    rw [apply_of_loadBytes hstored (by omega)]
    exact toNat_getElem_encodeUnsignedLeb128_mod i v (by omega)
  -- the padding bytes hold no bits of `v`
  have hzero : ∀ i, kv ≤ i → v / 2 ^ (7 * i) % 128 = 0 := by
    intro i hi
    rw [Nat.div_eq_of_lt (lt_of_lt_of_le hkv.1 (Nat.pow_le_pow_right (by decide) (by omega)))]
  have hupd : updateUnsignedLeb128 mem ptr v = padUnsignedLeb128 ms (ptr + kv) (kw - kv) := by
    rw [updateUnsignedLeb128_eq hv hw hmem, hsw, unsignedLeb128Size_of_needs hkv hv]
  have hpad := padUnsignedLeb128_apply ms (show 1 ≤ ptr + kv by omega) (kw - kv)
  rw [hupd, hsw]
  refine decodeUnsignedLeb128_of_bits ⟨by omega, hkw5, fun i hi => ?_, ?_⟩ (fun i hi => ?_)
    (lt_of_lt_of_le hkv.1 (Nat.pow_le_pow_right (by decide) (by omega))) hv
  · rw [hpad]
    split_ifs
    · exact hread.2.2.1 i (by omega)
    · exact (toNat_or_0x80 _).2
    · omega
    · decide
  · rw [hpad]
    split_ifs
    · obtain rfl : kw = kv := by omega
      exact hread.2.2.2
    · omega
    · decide
    · omega
  · rw [hpad]
    split_ifs
    · exact hbits i (by omega)
    · rw [(toNat_or_0x80 _).1]
      exact hbits i (by omega)
    · rw [hzero i (by omega)]
      decide
    · rw [hzero i (by omega)]
      decide

/-- `UpdateUnsignedLeb128` writes nothing outside the old encoding. -/
theorem updateUnsignedLeb128_frame {v w : Nat} (hv : v < 2 ^ 32) (hw : w < 2 ^ 32)
    (hsize : unsignedLeb128Size v ≤ unsignedLeb128Size w)
    (hmem : loadBytes mem ptr (encodeUnsignedLeb128 w).length = encodeUnsignedLeb128 w)
    {x : Nat} (hx : x < ptr ∨ ptr + unsignedLeb128Size w ≤ x) :
    updateUnsignedLeb128 mem ptr v x = mem x := by
  obtain ⟨k, -, hk⟩ := exists_needsBytes hv
  have hk1 := one_le_of_needs hk
  have hsv := unsignedLeb128Size_of_needs hk hv
  rw [updateUnsignedLeb128_eq hv hw hmem, padUnsignedLeb128_apply _ (by omega), if_pos (by omega)]
  exact storeBytes_of_not_mem (by rw [length_encodeUnsignedLeb128 hv]; omega)

/-- The loop of `ReverseSearchUnsignedLeb128` runs back over continuation bytes and stops right
after a terminating byte. -/
theorem reverseSearchLoop_of_cont {p : Nat} (hp : 0 < p) (hprev : (mem (p - 1)).toNat ≤ 0x7f) :
    ∀ m, (∀ i < m, 0x80 ≤ (mem (p + i)).toNat) → reverseSearchLoop mem (p + m) = p
  | 0, _ => by
    obtain ⟨q, rfl⟩ : ∃ q, p = q + 1 := ⟨p - 1, by omega⟩
    rw [Nat.add_sub_cancel] at hprev
    rw [Nat.add_zero, reverseSearchLoop, if_pos hprev]
  | m + 1, hcont => by
    have hm := hcont m (by omega)
    rw [← Nat.add_assoc, reverseSearchLoop, if_neg (by omega)]
    exact reverseSearchLoop_of_cont hp hprev m (fun i hi => hcont i (by omega))

/-- From the end of an encoding that follows a terminating byte, `ReverseSearchUnsignedLeb128`
finds its first byte. -/
theorem reverseSearchUnsignedLeb128_encode {u : Nat} (hp : 0 < ptr)
    (hprev : (mem (ptr - 1)).toNat ≤ 0x7f)
    (hmem : loadBytes mem ptr (encodeUnsignedLeb128 u).length = encodeUnsignedLeb128 u) :
    reverseSearchUnsignedLeb128 mem (ptr + (encodeUnsignedLeb128 u).length) = ptr := by
  obtain ⟨body, last, hsplit, hbody, -⟩ := encodeUnsignedLeb128_shape u
  have hlen : (encodeUnsignedLeb128 u).length = body.length + 1 := by simp [hsplit]
  rw [reverseSearchUnsignedLeb128, hlen, ← Nat.add_assoc, Nat.add_sub_cancel]
  refine reverseSearchLoop_of_cont hp hprev _ (fun i hi => ?_)
  rw [apply_of_loadBytes hmem (by omega)]
  simp only [hsplit, List.getElem_append_left hi]
  exact hbody _ (List.getElem_mem hi)

/-- The last byte of an encoding terminates it. -/
theorem toNat_last_encodeUnsignedLeb128 {u : Nat}
    (hmem : loadBytes mem ptr (encodeUnsignedLeb128 u).length = encodeUnsignedLeb128 u) :
    (mem (ptr + (encodeUnsignedLeb128 u).length - 1)).toNat ≤ 0x7f := by
  obtain ⟨body, last, hsplit, -, hlast⟩ := encodeUnsignedLeb128_shape u
  have hlen : (encodeUnsignedLeb128 u).length = body.length + 1 := by simp [hsplit]
  rw [hlen, show ptr + (body.length + 1) - 1 = ptr + body.length by omega,
    apply_of_loadBytes hmem (by omega)]
  simpa [hsplit] using hlast

/-- In a concatenation of encodings, `ReverseSearchUnsignedLeb128` from the end of any encoding
after the first finds that encoding's first byte. -/
theorem reverseSearchUnsignedLeb128_concat {pre post : List Nat} {u : Nat} (hpre : pre ≠ [])
    (hmem : loadBytes mem ptr ((pre ++ u :: post).flatMap encodeUnsignedLeb128).length =
      (pre ++ u :: post).flatMap encodeUnsignedLeb128) :
    reverseSearchUnsignedLeb128 mem
        (ptr + ((pre ++ [u]).flatMap encodeUnsignedLeb128).length) =
      ptr + (pre.flatMap encodeUnsignedLeb128).length := by
  obtain ⟨pre', v, rfl⟩ : ∃ pre' v, pre = pre' ++ [v] :=
    ⟨pre.dropLast, pre.getLast hpre, (List.dropLast_append_getLast hpre).symm⟩
  simp only [List.flatMap_append, List.flatMap_cons, List.flatMap_nil, List.append_nil,
    List.append_assoc] at hmem ⊢
  obtain ⟨-, hrest⟩ := loadBytes_append.mp hmem
  obtain ⟨hv, hrest⟩ := loadBytes_append.mp hrest
  obtain ⟨hu, -⟩ := loadBytes_append.mp hrest
  have hprev := toNat_last_encodeUnsignedLeb128 hv
  have hne : 0 < (encodeUnsignedLeb128 v).length := by
    obtain ⟨body, last, hsplit, -⟩ := encodeUnsignedLeb128_shape v
    simp [hsplit]
  simp only [List.length_append, ← Nat.add_assoc] at hu ⊢
  exact reverseSearchUnsignedLeb128_encode (by omega) (by simpa using hprev) hu

end Update

/-! ### The signed writer -/

theorem foldSign_ediv (s : Int) : foldSign (s / 128) = foldSign s / 128 := by
  unfold foldSign
  split_ifs <;> omega

theorem shiftRight_six (x : Nat) : x >>> 6 = x / 64 := by
  rw [Nat.shiftRight_eq_div_pow]

theorem encodeSignedLeb128_of_lt {s : Int} (h : foldSign s < 64) :
    encodeSignedLeb128 s = [UInt8.ofNat (s % 128).toNat] := by
  rw [encodeSignedLeb128, encodeSignedLeb128Loop, shiftRight_six, if_pos (by omega)]

/-- A value whose bits differ from its sign above bit 5 is written as its seven low bits with
the continuation bit, then the rest, shifted arithmetically. -/
theorem encodeSignedLeb128_of_le {s : Int} (h : 64 ≤ foldSign s) :
    encodeSignedLeb128 s =
      UInt8.ofNat ((s % 128).toNat + 128) :: encodeSignedLeb128 (s / 128) := by
  have hlow : (s % 128).toNat < 128 := by omega
  have hextra : foldSign s / 64 / 128 = foldSign s / 128 / 64 := by omega
  rw [encodeSignedLeb128, encodeSignedLeb128Loop, shiftRight_six, if_neg (by omega),
    or_0x80 hlow, encodeSignedLeb128, shiftRight_six, foldSign_ediv, shiftRight_seven, hextra]

theorem encodeSignedLeb128_shape (s : Int) :
    ∃ body last, encodeSignedLeb128 s = body ++ [last] ∧ (∀ b ∈ body, 0x80 ≤ b.toNat) ∧
      last.toNat ≤ 0x7f := by
  induction hn : foldSign s using Nat.strong_induction_on generalizing s with
  | _ n ih =>
    by_cases h : foldSign s < 64
    · refine ⟨[], UInt8.ofNat (s % 128).toNat, by rw [encodeSignedLeb128_of_lt h]; rfl,
        by simp, ?_⟩
      rw [toNat_ofNat_byte (by omega)]
      omega
    · obtain ⟨body, last, henc, hbody, hlast⟩ :=
        ih (foldSign (s / 128)) (by rw [foldSign_ediv]; omega) (s / 128) rfl
      refine ⟨UInt8.ofNat ((s % 128).toNat + 128) :: body, last, ?_, ?_, hlast⟩
      · rw [encodeSignedLeb128_of_le (by omega), henc, List.cons_append]
      · intro b hb
        rcases List.mem_cons.mp hb with rfl | hb
        · rw [toNat_ofNat_byte (by omega)]
          omega
        · exact hbody b hb

/-- An `int32_t` whose bits differ from its sign below bit `7 * k - 1` and, unless `k = 1`,
not below bit `7 * (k - 1) - 1`, needs `k` bytes. -/
def NeedsBytesSigned (s : Int) (k : Nat) : Prop :=
  foldSign s < 2 ^ (7 * k - 1) ∧ (k = 1 ∨ 2 ^ (7 * (k - 1) - 1) ≤ foldSign s)

theorem length_encodeSignedLeb128_of_needs :
    ∀ {k : Nat} {s : Int}, NeedsBytesSigned s k → (encodeSignedLeb128 s).length = k
  | 0, s, ⟨hlt, hk⟩ => by
    simp at hlt hk
    omega
  | 1, s, ⟨hlt, _⟩ => by
    rw [encodeSignedLeb128_of_lt (by simpa using hlt), List.length_singleton]
  | k + 2, s, ⟨hlt, hk⟩ => by
    have hpow : 2 ^ (7 * (k + 1) - 1) = 2 ^ (7 * k + 6) := by
      rw [show 7 * (k + 1) - 1 = 7 * k + 6 by omega]
    have hpow' : 2 ^ (7 * (k + 2) - 1) = 2 ^ (7 * k + 6) * 128 := by
      rw [show 7 * (k + 2) - 1 = 7 * k + 6 + 7 by omega, Nat.pow_add]
    have hlo : 2 ^ (7 * k + 6) ≤ foldSign s := by
      rw [← hpow]
      simpa using hk
    rw [hpow'] at hlt
    have h64 : 64 ≤ 2 ^ (7 * k + 6) := by
      rw [Nat.pow_add]
      exact Nat.le_mul_of_pos_left _ Nat.one_le_two_pow
    -- the bytes after the first are those of `s / 128`, which needs one byte less
    have hrest : NeedsBytesSigned (s / 128) (k + 1) := by
      refine ⟨by rw [foldSign_ediv, hpow]; omega, ?_⟩
      rcases Nat.eq_zero_or_pos k with rfl | hkpos
      · exact Or.inl rfl
      · refine Or.inr ?_
        have hpow'' : 2 ^ (7 * (k + 1 - 1) - 1) * 128 = 2 ^ (7 * k + 6) := by
          rw [show 7 * (k + 1 - 1) - 1 = 7 * k - 1 by omega,
            show 7 * k + 6 = 7 * k - 1 + 7 by omega, Nat.pow_add]
        rw [foldSign_ediv]
        omega
    rw [encodeSignedLeb128_of_le (by omega), List.length_cons,
      length_encodeSignedLeb128_of_needs hrest]

/-- An `int32_t` folds to a value below `2 ^ 31`. -/
theorem foldSign_lt {s : Int} (hlo : -2 ^ 31 ≤ s) (hhi : s < 2 ^ 31) : foldSign s < 2 ^ 31 := by
  unfold foldSign
  split_ifs <;> omega

theorem signedLeb128Size_of_needs {s : Int} {k : Nat} (h : NeedsBytesSigned s k)
    (hlo : -2 ^ 31 ≤ s) (hhi : s < 2 ^ 31) : signedLeb128Size s = k := by
  have hfold := foldSign_lt hlo hhi
  obtain ⟨hlt, hlow⟩ := h
  have hk : 1 ≤ k := by
    rcases Nat.eq_zero_or_pos k with rfl | hk
    · simp at hlt hlow
      omega
    · exact hk
  have hhi' : minimumBitsToStore (foldSign s ||| 1) ≤ 7 * k - 1 :=
    minimumBitsToStore_le_iff.mpr (Nat.or_lt_two_pow hlt (Nat.one_lt_two_pow (by omega)))
  have h31 : minimumBitsToStore (foldSign s ||| 1) ≤ 31 :=
    minimumBitsToStore_le_iff.mpr (Nat.or_lt_two_pow hfold (by decide))
  have hpos : 1 ≤ minimumBitsToStore (foldSign s ||| 1) := by
    by_contra h0
    have hzero := minimumBitsToStore_le_iff.mp
      (show minimumBitsToStore (foldSign s ||| 1) ≤ 0 by omega)
    have hone : 1 ≤ foldSign s ||| 1 := Nat.right_le_or
    rw [Nat.pow_zero] at hzero
    omega
  have hlow' : k = 1 ∨ 7 * (k - 1) - 1 < minimumBitsToStore (foldSign s ||| 1) := by
    rcases hlow with hk1 | hlow
    · exact Or.inl hk1
    · right
      by_contra hle
      have hsmall := minimumBitsToStore_le_iff.mp (Nat.le_of_not_lt hle)
      have hor : foldSign s ≤ foldSign s ||| 1 := Nat.left_le_or
      omega
  unfold signedLeb128Size clz32
  rw [Nat.shiftRight_eq_div_pow]
  omega

theorem exists_needsBytesSigned {s : Int} (hlo : -2 ^ 31 ≤ s) (hhi : s < 2 ^ 31) :
    ∃ k ≤ 5, NeedsBytesSigned s k := by
  have hfold := foldSign_lt hlo hhi
  by_cases h1 : foldSign s < 2 ^ 6
  · exact ⟨1, by omega, h1, Or.inl rfl⟩
  by_cases h2 : foldSign s < 2 ^ 13
  · exact ⟨2, by omega, h2, Or.inr (by omega)⟩
  by_cases h3 : foldSign s < 2 ^ 20
  · exact ⟨3, by omega, h3, Or.inr (by omega)⟩
  by_cases h4 : foldSign s < 2 ^ 27
  · exact ⟨4, by omega, h4, Or.inr (by omega)⟩
  · exact ⟨5, by omega, lt_of_lt_of_le hfold (by norm_num), Or.inr (by omega)⟩

/-- `EncodeSignedLeb128` writes `SignedLeb128Size` bytes. -/
theorem length_encodeSignedLeb128 {s : Int} (hlo : -2 ^ 31 ≤ s) (hhi : s < 2 ^ 31) :
    (encodeSignedLeb128 s).length = signedLeb128Size s := by
  obtain ⟨k, -, hk⟩ := exists_needsBytesSigned hlo hhi
  rw [length_encodeSignedLeb128_of_needs hk, signedLeb128Size_of_needs hk hlo hhi]

/-- Byte `i` of a signed encoding holds bits `7 * i` to `7 * i + 6` of the value, in two's
complement. -/
theorem toNat_getElem_encodeSignedLeb128_mod :
    ∀ (i : Nat) (s : Int) (hi : i < (encodeSignedLeb128 s).length),
      (encodeSignedLeb128 s)[i].toNat % 128 = (s / 2 ^ (7 * i) % 128).toNat
  | 0, s, hi => by
    by_cases h : foldSign s < 64
    · simp only [encodeSignedLeb128_of_lt h, List.getElem_cons_zero,
        toNat_ofNat_byte (by omega : (s % 128).toNat < 256)]
      simp
      omega
    · simp only [encodeSignedLeb128_of_le (by omega : 64 ≤ foldSign s), List.getElem_cons_zero,
        toNat_ofNat_byte (by omega : (s % 128).toNat + 128 < 256)]
      simp
      omega
  | i + 1, s, hi => by
    by_cases h : foldSign s < 64
    · simp [encodeSignedLeb128_of_lt h] at hi
    · have hlen : i < (encodeSignedLeb128 (s / 128)).length := by
        rw [encodeSignedLeb128_of_le (by omega), List.length_cons] at hi
        omega
      have hpow : (2 : Int) ^ (7 * (i + 1)) = 128 * 2 ^ (7 * i) := by
        rw [Nat.mul_add, Nat.mul_one, Int.pow_add, Int.mul_comm]
        rfl
      simp only [encodeSignedLeb128_of_le (by omega : 64 ≤ foldSign s), List.getElem_cons_succ]
      rw [toNat_getElem_encodeSignedLeb128_mod i (s / 128) hlen,
        Int.ediv_ediv_of_nonneg (by decide), hpow]

theorem foldSign_lt_iff {s : Int} {n : Nat} : foldSign s < n ↔ -(n : Int) ≤ s ∧ s < n := by
  unfold foldSign
  split_ifs <;> omega

/-- `s` modulo `P * 128` is `s` modulo `P` with the next seven bits above it. -/
theorem emod_mul_128 (s : Int) {P : Int} (hP : 0 < P) :
    s % (P * 128) = s % P + s / P % 128 * P := by
  have e1 := Int.mul_ediv_add_emod s P
  have e2 := Int.mul_ediv_add_emod (s / P) 128
  have hr := Int.emod_nonneg s (ne_of_gt hP)
  have hr' := Int.emod_lt_of_pos s hP
  have hq := Int.emod_nonneg (s / P) (by decide : (128 : Int) ≠ 0)
  have hq' := Int.emod_lt_of_pos (s / P) (by decide : (0 : Int) < 128)
  refine ((Int.ediv_emod_unique (q := s / P / 128) (by positivity : 0 < P * 128)).mpr
    ⟨?_, by positivity, ?_⟩).2
  · linear_combination e1 + P * e2
  · nlinarith

/-- Seven-bit groups taken from the two's complement of `s` put back together give `s` modulo
`2 ^ (7 * k)`. -/
theorem leb128Bits_of_emod {b : Nat → Nat} {s : Int} :
    ∀ k, (∀ i < k, b i % 128 = (s / 2 ^ (7 * i) % 128).toNat) →
      (leb128Bits b k : Int) = s % 2 ^ (7 * k)
  | 0, _ => by simp [leb128Bits]
  | k + 1, hb => by
    have hpos : (0 : Int) < 2 ^ (7 * k) := by positivity
    have hpow : (2 : Int) ^ (7 * (k + 1)) = 2 ^ (7 * k) * 128 := by
      rw [Nat.mul_add, Nat.mul_one, pow_add]
      norm_num
    rw [leb128Bits, Nat.cast_add, Nat.cast_mul, leb128Bits_of_emod k (fun i hi => hb i (by omega)),
      hb k (by omega), Int.toNat_of_nonneg (Int.emod_nonneg _ (by decide)), hpow,
      emod_mul_128 s hpos]
    push_cast
    ring

/-- Sign extension from bit `n - 1` undoes the cut to `n` bits of every value that fits. -/
theorem signExtend_emod {n : Nat} (hn : 1 ≤ n) {s : Int} (hlo : -2 ^ (n - 1) ≤ s)
    (hhi : s < 2 ^ (n - 1)) : signExtend n (s % 2 ^ n).toNat = s := by
  have hpow : (2 : Int) ^ n = 2 * 2 ^ (n - 1) := by
    rw [← pow_succ']
    congr 1
    omega
  have hP : (0 : Int) < 2 ^ (n - 1) := by positivity
  unfold signExtend
  by_cases hs : 0 ≤ s
  · have hmod : s % 2 ^ n = s := Int.emod_eq_of_lt hs (by omega)
    rw [hmod, if_pos (by zify [hs]; omega), Int.toNat_of_nonneg hs]
  · have hmod : s % 2 ^ n = s + 2 ^ n := by
      rw [← Int.add_emod_right]
      exact Int.emod_eq_of_lt (by omega) (by omega)
    rw [hmod, if_neg (by zify [show 0 ≤ s + 2 ^ n by omega]; omega),
      Int.toNat_of_nonneg (by omega)]
    omega

section Reading

variable {mem : Memory} {ptr : Nat}

/-- `DecodeSignedLeb128` over `k` bytes: their bits sign-extended from the last, and the
cursor `k` bytes on. -/
theorem decodeSignedLeb128_of_readsBytes {k : Nat} (h : ReadsBytes mem ptr k) :
    decodeSignedLeb128 mem ptr =
      (if k = 5 then signExtend 32 ((leb128Bits (fun i => (mem (ptr + i)).toNat) 4 +
          (mem (ptr + 4)).toNat * 2 ^ 28) % 2 ^ 32)
        else signExtend (7 * k) (leb128Bits (fun i => (mem (ptr + i)).toNat) k), ptr + k) := by
  rw [decodeSignedLeb128_eq]
  rcases h.cases with ⟨rfl, h0⟩ | ⟨rfl, h0, h1⟩ | ⟨rfl, h0, h1, h2⟩ | ⟨rfl, h0, h1, h2, h3⟩ |
    ⟨rfl, h0, h1, h2, h3⟩
  · rw [if_pos h0, if_neg (by decide), leb128Bits_one h0]
    rfl
  · rw [if_neg h0, if_pos h1, if_neg (by decide)]
  · rw [if_neg h0, if_neg h1, if_pos h2, if_neg (by decide)]
  · rw [if_neg h0, if_neg h1, if_neg h2, if_pos h3, if_neg (by decide)]
  · rw [if_neg h0, if_neg h1, if_neg h2, if_neg h3, if_pos rfl]

/-- `DecodeSignedLeb128` reads back every `int32_t` that `EncodeSignedLeb128` wrote, and moves
the cursor by `SignedLeb128Size` bytes. -/
theorem decodeSignedLeb128_encode {s : Int} (hlo : -2 ^ 31 ≤ s) (hhi : s < 2 ^ 31)
    (hmem : loadBytes mem ptr (encodeSignedLeb128 s).length = encodeSignedLeb128 s) :
    decodeSignedLeb128 mem ptr = (s, ptr + signedLeb128Size s) := by
  obtain ⟨k, hk5, hk⟩ := exists_needsBytesSigned hlo hhi
  have hlen := length_encodeSignedLeb128_of_needs hk
  have hread := readsBytes_of_shape hmem (encodeSignedLeb128_shape s) (by omega)
  rw [hlen] at hread
  have hbits : ∀ i < k, (mem (ptr + i)).toNat % 128 = (s / 2 ^ (7 * i) % 128).toNat := by
    intro i hi
    rw [apply_of_loadBytes hmem (by omega)]
    exact toNat_getElem_encodeSignedLeb128_mod i s (by omega)
  rw [decodeSignedLeb128_of_readsBytes hread, signedLeb128Size_of_needs hk hlo hhi]
  congr 1
  split_ifs with h5
  · subst h5
    -- the fifth byte is below 0x80: the bits read are the low 35 bits of `s`, cut to 32
    have hlast : (mem (ptr + 4)).toNat % 128 = (mem (ptr + 4)).toNat :=
      Nat.mod_eq_of_lt (by have := hread.2.2.2; simp at this; omega)
    have h35 := leb128Bits_of_emod 5 hbits
    rw [leb128Bits, hlast] at h35
    have h32 : (((leb128Bits (fun i => (mem (ptr + i)).toNat) 4 +
        (mem (ptr + 4)).toNat * 2 ^ 28) % 2 ^ 32 : Nat) : Int) = s % 2 ^ 32 := by
      rw [Int.natCast_emod]
      push_cast at h35 ⊢
      rw [h35]
      exact Int.emod_emod_of_dvd s (by norm_num)
    rw [show (leb128Bits (fun i => (mem (ptr + i)).toNat) 4 + (mem (ptr + 4)).toNat * 2 ^ 28) %
        2 ^ 32 = (s % 2 ^ 32).toNat by omega]
    exact signExtend_emod (by norm_num) (by norm_num; omega) hhi
  · have hk1 := hread.1
    have hrange := foldSign_lt_iff.mp hk.1
    push_cast at hrange
    have hbits_k := leb128Bits_of_emod k hbits
    rw [show leb128Bits (fun i => (mem (ptr + i)).toNat) k = (s % 2 ^ (7 * k)).toNat by omega]
    exact signExtend_emod (by omega) hrange.1 hrange.2

/-- `DecodeSignedLeb128Checked` reads an encoding as the unchecked reader does when the end lies
at or past the byte after it, and fails otherwise. -/
theorem decodeSignedLeb128Checked_encode {s : Int} (hlo : -2 ^ 31 ≤ s) (hhi : s < 2 ^ 31)
    (endPos : Nat)
    (hmem : loadBytes mem ptr (encodeSignedLeb128 s).length = encodeSignedLeb128 s) :
    decodeSignedLeb128Checked mem endPos ptr =
      if ptr + signedLeb128Size s ≤ endPos then some (s, ptr + signedLeb128Size s)
      else none := by
  rw [decodeSignedLeb128Checked_eq, decodeSignedLeb128_encode hlo hhi hmem]

end Reading

end AndroidArt.Base
