/-
Module: AndroidArt.Lib.BitString
Purpose: Bit strings, least significant bit first, and a bit-addressed memory.
Trusted boundary: none
Main exports: natBits, bitsVal, bitsVal_natBits, natBits_bitsVal
-/
import Mathlib.Data.List.Basic
import Mathlib.Algebra.Order.Group.Nat

namespace AndroidArt.Lib

/-! ### Bits of a number -/

/-- The `n` low bits of `v`, least significant first. -/
def natBits (v : Nat) : Nat → List Bool
  | 0 => []
  | n + 1 => decide (v % 2 = 1) :: natBits (v / 2) n

/-- The number a bit string spells, least significant bit first. -/
def bitsVal : List Bool → Nat
  | [] => 0
  | b :: bs => b.toNat + 2 * bitsVal bs

@[simp] theorem length_natBits (v n : Nat) : (natBits v n).length = n := by
  induction n generalizing v with
  | zero => rfl
  | succ n ih => simp [natBits, ih]

@[simp] theorem bitsVal_nil : bitsVal [] = 0 := rfl

@[simp] theorem bitsVal_cons (b : Bool) (bs : List Bool) :
    bitsVal (b :: bs) = b.toNat + 2 * bitsVal bs := rfl

theorem bitsVal_natBits (v n : Nat) : bitsVal (natBits v n) = v % 2 ^ n := by
  induction n generalizing v with
  | zero => simp [natBits, Nat.mod_one]
  | succ n ih =>
    simp only [natBits, bitsVal_cons, ih, Nat.pow_succ]
    -- the low bit, then the others shifted by one
    have hlow : (decide (v % 2 = 1)).toNat = v % 2 := by
      rcases Nat.mod_two_eq_zero_or_one v with h | h <;> simp [h]
    rw [hlow, Nat.mul_comm (2 ^ n) 2, Nat.mod_mul]

theorem natBits_bitsVal (bs : List Bool) : natBits (bitsVal bs) bs.length = bs := by
  induction bs with
  | nil => rfl
  | cons b bs ih =>
    have hlow : (b.toNat + 2 * bitsVal bs) % 2 = b.toNat := by
      cases b <;> simp [Nat.add_mul_mod_self_left]
    have hhigh : (b.toNat + 2 * bitsVal bs) / 2 = bitsVal bs := by
      cases b
      · simp
      · simp only [Bool.toNat_true]
        omega
    simp only [List.length_cons, natBits, bitsVal_cons, hlow, hhigh, ih]
    cases b <;> rfl

/-- Bit strings of one length are equal when they spell the same number. -/
theorem bitsVal_inj {xs ys : List Bool} (hlen : xs.length = ys.length)
    (h : bitsVal xs = bitsVal ys) : xs = ys := by
  rw [← natBits_bitsVal xs, ← natBits_bitsVal ys, h, hlen]

/-- The bits of a value below `2 ^ n` spell it. -/
theorem bitsVal_natBits_of_lt {v n : Nat} (h : v < 2 ^ n) : bitsVal (natBits v n) = v := by
  rw [bitsVal_natBits, Nat.mod_eq_of_lt h]

/-! ### The width of a number -/

/-- The number of bits needed to store `v`: one more than its most significant bit, and none
for zero. -/
def minimumBitsToStore (v : Nat) : Nat :=
  if v = 0 then 0 else Nat.log2 v + 1

theorem lt_two_pow_minimumBitsToStore (v : Nat) : v < 2 ^ minimumBitsToStore v := by
  unfold minimumBitsToStore
  split
  · simp_all
  · exact Nat.lt_log2_self

theorem minimumBitsToStore_le_iff {v n : Nat} : minimumBitsToStore v ≤ n ↔ v < 2 ^ n := by
  unfold minimumBitsToStore
  split
  · rename_i hv
    subst hv
    exact ⟨fun _ => Nat.two_pow_pos n, fun _ => Nat.zero_le n⟩
  · rename_i hv
    rw [Nat.add_one_le_iff, Nat.log2_lt hv]

/-! ### Bit-addressed memory -/

/-- The `len` bits of `mem` from the bit address `pos` upward. -/
def memBits (mem : Int → Bool) (pos : Int) : Nat → List Bool
  | 0 => []
  | len + 1 => mem pos :: memBits mem (pos + 1) len

/-- `mem` holds the bits `bs` from the bit address `pos` upward. -/
def Stores (mem : Int → Bool) (pos : Int) (bs : List Bool) : Prop :=
  memBits mem pos bs.length = bs

section Memory

variable {mem : Int → Bool}

@[simp] theorem length_memBits (pos : Int) (len : Nat) : (memBits mem pos len).length = len := by
  induction len generalizing pos with
  | zero => rfl
  | succ len ih => simp [memBits, ih]

theorem memBits_add (pos : Int) (m n : Nat) :
    memBits mem pos (m + n) = memBits mem pos m ++ memBits mem (pos + m) n := by
  induction m generalizing pos with
  | zero => simp [memBits]
  | succ m ih =>
    rw [Nat.succ_add, memBits, ih, memBits, List.cons_append]
    congr 3
    omega

theorem stores_append {pos : Int} {xs ys : List Bool} :
    Stores mem pos (xs ++ ys) ↔ Stores mem pos xs ∧ Stores mem (pos + xs.length) ys := by
  unfold Stores
  rw [List.length_append, memBits_add]
  constructor
  · intro h
    exact List.append_inj h (by simp)
  · rintro ⟨hx, hy⟩
    rw [hx, hy]

/-- Of what a memory holds, a read returns a prefix. -/
theorem memBits_of_stores {pos : Int} {xs ys : List Bool} (h : Stores mem pos (xs ++ ys)) :
    memBits mem pos xs.length = xs :=
  (stores_append.mp h).1

/-- A memory that holds `bs` at `pos` holds bit `j` of them at `pos + j`. -/
theorem Stores.getElem {pos : Int} :
    ∀ {bs : List Bool}, Stores mem pos bs → ∀ (j : Nat) (hj : j < bs.length), mem (pos + j) = bs[j]
  | [], _, _, hj => absurd hj (Nat.not_lt_zero _)
  | b :: bs, h, j, hj => by
    have hcons : Stores mem pos ([b] ++ bs) := h
    obtain ⟨hb, hrest⟩ := stores_append.mp hcons
    cases j with
    | zero =>
      simp only [Stores, List.length_singleton, memBits, List.cons.injEq] at hb
      simpa using hb.1
    | succ j =>
      have := Stores.getElem hrest j (by simpa using hj)
      simp only [List.length_singleton] at this
      rw [List.getElem_cons_succ, ← this]
      congr 1
      push_cast
      omega

/-- The converse of `Stores.getElem`: a memory that holds each bit of `bs` at its place holds
`bs`. -/
theorem stores_of_getElem {pos : Int} :
    ∀ {bs : List Bool}, (∀ (j : Nat) (hj : j < bs.length), mem (pos + j) = bs[j]) →
      Stores mem pos bs
  | [], _ => rfl
  | b :: bs, h => by
    have hhead : mem pos = b := by simpa using h 0 (Nat.succ_pos _)
    have htail : memBits mem (pos + 1) bs.length = bs := stores_of_getElem fun j hj => by
      have hj' := h (j + 1) (by simpa using hj)
      rw [List.getElem_cons_succ] at hj'
      rw [← hj']
      congr 1
      push_cast
      omega
    show memBits mem pos (bs.length + 1) = b :: bs
    rw [memBits, hhead, htail]

/-- Where a memory holds blocks of `len` bits one after another, block `i` is held `i * len`
bits in. -/
theorem stores_flatMap_getElem {α : Type*} {f : α → List Bool} {len : Nat} :
    ∀ {xs : List α} {pos : Int} {rest : List Bool}, (∀ x ∈ xs, (f x).length = len) →
      Stores mem pos (xs.flatMap f ++ rest) → ∀ (i : Nat) (hi : i < xs.length),
        Stores mem (pos + (i * len : Nat)) (f xs[i])
  | [], _, _, _, _, _, hi => absurd hi (Nat.not_lt_zero _)
  | x :: xs, pos, rest, hlen, h, i, hi => by
    rw [List.flatMap_cons, List.append_assoc] at h
    obtain ⟨hx, hrest⟩ := stores_append.mp h
    cases i with
    | zero => simpa using hx
    | succ i =>
      have hblock := stores_flatMap_getElem (fun y hy => hlen y (List.mem_cons_of_mem x hy))
        hrest i (by simpa using hi)
      rw [hlen x List.mem_cons_self] at hblock
      rw [List.getElem_cons_succ, Nat.succ_mul, Nat.add_comm (i * len), Int.natCast_add,
        ← Int.add_assoc]
      exact hblock

/-- A list of bits laid out from bit address `0`, and `false` everywhere else. -/
def listMem (bs : List Bool) (pos : Int) : Bool := bs.getD pos.toNat false && decide (0 ≤ pos)

/-- A list laid out from address `0` holds, from `pos`, the bits it has there. -/
theorem stores_listMem_of_getD {out bs : List Bool} {pos : Nat}
    (h : ∀ (j : Nat) (hj : j < bs.length), out.getD (pos + j) false = bs[j]) :
    Stores (listMem out) pos bs :=
  stores_of_getElem fun j hj => by
    have hnat : ((pos : Int) + j).toNat = pos + j := by omega
    have hpos : (0 : Int) ≤ pos + j := by omega
    rw [← h j hj, listMem, hnat, decide_eq_true hpos, Bool.and_true]

/-- The memory a list of bits is laid out in holds the list from address `0`. -/
theorem stores_listMem (bs : List Bool) : Stores (listMem bs) 0 bs := by
  suffices h : ∀ (k : Nat) (rest : List Bool), rest = bs.drop k → Stores (listMem bs) k rest by
    simpa using h 0 bs (by simp)
  intro k rest hrest
  induction rest generalizing k with
  | nil => rfl
  | cons x xs ih =>
    have hk : k < bs.length := by
      by_contra hk
      rw [List.drop_eq_nil_of_le (by omega)] at hrest
      cases hrest
    have hx : bs[k] = x := by
      rw [List.drop_eq_getElem_cons hk] at hrest
      exact (List.cons.inj hrest).1.symm
    have hxs : xs = bs.drop (k + 1) := by
      rw [List.drop_eq_getElem_cons hk] at hrest
      exact (List.cons.inj hrest).2
    have htail := ih (k + 1) hxs
    simp only [Stores, List.length_cons, memBits] at htail ⊢
    push_cast at htail
    rw [htail]
    simp [listMem, hx, hk]

end Memory

end AndroidArt.Lib
