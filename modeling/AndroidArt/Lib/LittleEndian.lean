/-
Module: AndroidArt.Lib.LittleEndian
Purpose: Unsigned integers of a fixed number of bytes stored low byte first: the bytes of a value
  (`toBytes`), the value of a list of bytes (`ofBytes`), and that each undoes the other, the
  value reduced to the width.
Trusted boundary: none
Main exports: toBytes, ofBytes, length_toBytes, ofBytes_toBytes
-/
import Mathlib

namespace AndroidArt.Lib

namespace LittleEndian

/-- The `width` bytes of `value`, low byte first; higher bytes are dropped. -/
def toBytes : Nat → Nat → List UInt8
  | 0, _ => []
  | width + 1, value => UInt8.ofNat (value % 256) :: toBytes width (value / 256)

/-- The value of bytes stored low byte first. -/
def ofBytes : List UInt8 → Nat
  | [] => 0
  | b :: bs => b.toNat + 256 * ofBytes bs

@[simp] theorem length_toBytes (width value : Nat) : (toBytes width value).length = width := by
  induction width generalizing value with
  | zero => rfl
  | succ width ih => simp [toBytes, ih]

theorem ofBytes_toBytes (width value : Nat) :
    ofBytes (toBytes width value) = value % 256 ^ width := by
  induction width generalizing value with
  | zero => simp [toBytes, ofBytes, Nat.mod_one]
  | succ width ih =>
    have hbyte : (UInt8.ofNat (value % 256)).toNat = value % 256 := by simp
    rw [toBytes, ofBytes, hbyte, ih, Nat.pow_succ, Nat.mul_comm (256 ^ width) 256, Nat.mod_mul]

/-- The value of bytes is zero exactly when every byte is zero. -/
theorem ofBytes_eq_zero_iff {bs : List UInt8} : ofBytes bs = 0 ↔ ∀ b ∈ bs, b = 0 := by
  induction bs with
  | nil => simp [ofBytes]
  | cons b bs ih =>
    rw [ofBytes, List.forall_mem_cons, ← ih, ← UInt8.toNat_inj, UInt8.toNat_zero]
    omega

/-- The low byte of the value of bytes is the first byte, and the value shifted by a byte is
that of the other bytes. -/
theorem ofBytes_cons_low (b : UInt8) (bs : List UInt8) : UInt8.ofNat (ofBytes (b :: bs)) = b := by
  have hb : b.toNat < 256 := b.toNat_lt
  rw [← UInt8.toNat_inj, UInt8.toNat_ofNat', ofBytes]
  omega

theorem ofBytes_cons_shiftRight (b : UInt8) (bs : List UInt8) :
    ofBytes (b :: bs) >>> 8 = ofBytes bs := by
  have hb : b.toNat < 256 := b.toNat_lt
  rw [Nat.shiftRight_eq_div_pow, ofBytes]
  omega

/-- Values below `256 ^ width` have different bytes. -/
theorem toBytes_inj {width a b : Nat} (ha : a < 256 ^ width) (hb : b < 256 ^ width)
    (h : toBytes width a = toBytes width b) : a = b := by
  have hval := congrArg ofBytes h
  rwa [ofBytes_toBytes, ofBytes_toBytes, Nat.mod_eq_of_lt ha, Nat.mod_eq_of_lt hb] at hval

/-- A concatenation of blocks of one positive length determines the blocks: how a run of
fixed-width values is read back value by value. -/
theorem flatMap_injective {α β : Type} {g : α → List β} {len : Nat} (hpos : 0 < len)
    (hlen : ∀ a, (g a).length = len) (hinj : Function.Injective g) :
    Function.Injective fun xs : List α => xs.flatMap g := by
  intro xs
  induction xs with
  | nil =>
    intro ys h
    cases ys with
    | nil => rfl
    | cons y ys =>
      have := congrArg List.length h
      simp only [List.flatMap_nil, List.flatMap_cons, List.length_append, List.length_nil,
        hlen] at this
      omega
  | cons x xs ih =>
    intro ys h
    cases ys with
    | nil =>
      have := congrArg List.length h
      simp only [List.flatMap_nil, List.flatMap_cons, List.length_append, List.length_nil,
        hlen] at this
      omega
    | cons y ys =>
      simp only [List.flatMap_cons] at h
      obtain ⟨hhead, htail⟩ := List.append_inj h (by rw [hlen, hlen])
      rw [hinj hhead, ih htail]

end LittleEndian

end AndroidArt.Lib
