/-
Module: AndroidArt.Lib.PackedBits
Purpose: A set of naturals packed into a list of `w`-bit words: bit `i` is bit `i % w` of word `i
  / w`, and no bit past the last word is set (`wordBit`).
Trusted boundary: none
Main exports: getD_set, wordBit, wordBit_mul_add, wordBit_eq_false_of_length_le
-/
import Mathlib

namespace AndroidArt.Lib

/-! ### Lists read with a default -/

section ListAccess

variable {α : Type}

theorem getD_set (l : List α) (i j : Nat) (a d : α) :
    (l.set i a).getD j d = if i = j ∧ i < l.length then a else l.getD j d := by
  simp only [List.getD_eq_getElem?_getD, List.getElem?_set]
  by_cases hij : i = j
  · subst hij
    by_cases hi : i < l.length
    · simp [hi]
    · simp [hi]
  · simp [hij]

theorem getD_append_left {l : List α} {i : Nat} (hi : i < l.length) (l' : List α) (d : α) :
    (l ++ l').getD i d = l.getD i d := by
  simp only [List.getD_eq_getElem?_getD, List.getElem?_append_left hi]

theorem getD_of_length_le {l : List α} {i : Nat} (hi : l.length ≤ i) (d : α) : l.getD i d = d := by
  simp only [List.getD_eq_getElem?_getD, List.getElem?_eq_none hi, Option.getD_none]

theorem getD_mapIdx (l : List α) (f : Nat → α → α) (k : Nat) (d : α) :
    (l.mapIdx f).getD k d = if k < l.length then f k (l.getD k d) else d := by
  simp only [List.getD_eq_getElem?_getD, List.getElem?_mapIdx]
  split_ifs with hk
  · simp [hk]
  · simp [List.getElem?_eq_none (Nat.le_of_not_lt hk)]

theorem getD_replicate_self (n k : Nat) (d : α) : (List.replicate n d).getD k d = d := by
  simp only [List.getD_eq_getElem?_getD, List.getElem?_replicate]
  split_ifs <;> rfl

theorem getD_eq_of_take_eq {l l' : List α} {n k : Nat} (h : l.take n = l'.take n) (hk : k < n)
    (d : α) : l.getD k d = l'.getD k d := by
  have hget := congrArg (fun l => l.getD k d) h
  simp only [List.getD_eq_getElem?_getD, List.getElem?_take, if_pos hk] at hget
  simpa only [List.getD_eq_getElem?_getD] using hget

theorem take_eq_take_of_getD {l l' : List α} {n : Nat} (hl : n ≤ l.length) (hl' : n ≤ l'.length)
    (d : α) (h : ∀ k < n, l.getD k d = l'.getD k d) : l.take n = l'.take n := by
  refine List.ext_getElem? fun k => ?_
  rw [List.getElem?_take, List.getElem?_take]
  split_ifs with hk
  · have hget := h k hk
    rw [List.getD_eq_getElem?_getD, List.getD_eq_getElem?_getD,
      List.getElem?_eq_getElem (by omega), List.getElem?_eq_getElem (by omega)] at hget
    rw [List.getElem?_eq_getElem (by omega), List.getElem?_eq_getElem (by omega)]
    exact congrArg some hget
  · rfl

theorem length_flatten_replicate (n : Nat) (xs : List α) :
    (List.replicate n xs).flatten.length = n * xs.length := by
  induction n with
  | zero => simp
  | succ n ih => rw [List.replicate_succ, List.flatten_cons, List.length_append, ih, Nat.succ_mul,
      Nat.add_comm]

/-- Element `p` of `n` copies of `xs` is element `p % |xs|` of `xs`. -/
theorem getD_flatten_replicate (xs : List α) (d : α) : ∀ (n p : Nat), p < n * xs.length →
    (List.replicate n xs).flatten.getD p d = xs.getD (p % xs.length) d
  | 0, p, hp => by simp at hp
  | n + 1, p, hp => by
    rw [List.replicate_succ, List.flatten_cons]
    by_cases hlt : p < xs.length
    · rw [List.getD_append _ _ _ _ hlt, Nat.mod_eq_of_lt hlt]
    · rw [Nat.add_mul, Nat.one_mul] at hp
      rw [List.getD_append_right _ _ _ _ (by omega), getD_flatten_replicate xs d n _ (by omega),
        Nat.mod_eq_sub_mod (show xs.length ≤ p by omega)]

/-- Dropping `b` copies of `xs` from `n` leaves the other `n - b`. -/
theorem drop_flatten_replicate (xs : List α) {b n : Nat} (hb : b ≤ n) :
    (List.replicate n xs).flatten.drop (b * xs.length) = (List.replicate (n - b) xs).flatten := by
  obtain ⟨k, rfl⟩ : ∃ k, n = b + k := ⟨n - b, by omega⟩
  rw [List.replicate_add, List.flatten_append, List.drop_left' (length_flatten_replicate b xs),
    Nat.add_sub_cancel_left]

end ListAccess

/-! ### Bits of words -/

variable {w : Nat}

/-- Bit `i` of the words `ws`: bit `i % w` of word `i / w`, unset past the last word. -/
def wordBit (ws : List (BitVec w)) (i : Nat) : Bool := (ws.getD (i / w) 0).getLsbD (i % w)

section Words

variable {ws vs : List (BitVec w)}

theorem wordBit_mul_add (ws : List (BitVec w)) {k j : Nat} (hj : j < w) :
    wordBit ws (k * w + j) = (ws.getD k 0).getLsbD j := by
  have hdiv : (k * w + j) / w = k := by
    rw [Nat.add_comm, Nat.add_mul_div_right _ _ (by omega), Nat.div_eq_of_lt hj, Nat.zero_add]
  have hmod : (k * w + j) % w = j := by
    rw [Nat.add_comm, Nat.add_mul_mod_self_right, Nat.mod_eq_of_lt hj]
  rw [wordBit, hdiv, hmod]

/-- The bits of words given word by word. -/
theorem wordBit_of_getD {word : Nat → BitVec w} (h : ∀ k, ws.getD k 0 = word k) (i : Nat) :
    wordBit ws i = (word (i / w)).getLsbD (i % w) := by
  rw [wordBit, h]

theorem wordBit_eq_false_of_length_le {i : Nat} (h : ws.length * w ≤ i) : wordBit ws i = false := by
  rcases Nat.eq_zero_or_pos w with hw | hw
  · subst hw
    exact BitVec.getLsbD_of_ge _ _ (Nat.zero_le _)
  · rw [wordBit, getD_of_length_le ((Nat.le_div_iff_mul_le hw).mpr h) 0]
    simp

theorem lt_of_wordBit {i : Nat} (h : wordBit ws i = true) : i < ws.length * w := by
  by_contra hle
  rw [wordBit_eq_false_of_length_le (Nat.le_of_not_lt hle)] at h
  exact Bool.false_ne_true h

/-- Words are equal where their bits are. -/
theorem getD_eq_of_wordBit {k : Nat} (h : ∀ j < w, wordBit ws (k * w + j) = wordBit vs (k * w + j)) :
    ws.getD k 0 = vs.getD k 0 :=
  BitVec.eq_of_getLsbD_eq fun j hj => by
    rw [← wordBit_mul_add ws hj, ← wordBit_mul_add vs hj, h j hj]

/-- A word is zero where none of its bits is set. -/
theorem getD_eq_zero_of_wordBit {k : Nat} (h : ∀ j < w, wordBit ws (k * w + j) = false) :
    ws.getD k 0 = 0 := by
  -- compare with the empty list, whose words are all zero
  have hnil : ∀ i, wordBit ([] : List (BitVec w)) i = false := fun _ =>
    wordBit_eq_false_of_length_le (by rw [List.length_nil, Nat.zero_mul]; omega)
  have heq : ws.getD k 0 = ([] : List (BitVec w)).getD k 0 :=
    getD_eq_of_wordBit fun j hj => by rw [h j hj, hnil]
  rw [heq, getD_of_length_le (Nat.zero_le k)]

theorem wordBit_ext_iff : (∀ i, wordBit ws i = wordBit vs i) ↔ ∀ k, ws.getD k 0 = vs.getD k 0 := by
  constructor
  · intro h k
    exact getD_eq_of_wordBit fun j _ => h _
  · intro h i
    rw [wordBit, wordBit, h]

/-- Prepending a word shifts the bits of the rest up by one word. -/
theorem wordBit_cons_add (x : BitVec w) (ws : List (BitVec w)) (hw : 0 < w) (i : Nat) :
    wordBit (x :: ws) (w + i) = wordBit ws i := by
  have hdiv : (w + i) / w = i / w + 1 := by
    rw [Nat.add_comm, Nat.add_div_right _ hw]
  rw [wordBit, wordBit, hdiv, Nat.add_mod_left, List.getD_cons_succ]

end Words

/-! ### Zero words and containment -/

section Zero

variable (x : BitVec w)

/-! Missing words read as the literal `0`, which these state the identities of. -/

@[simp] theorem or_zero_word : x ||| 0 = x := BitVec.or_zero

@[simp] theorem zero_or_word : 0 ||| x = x := BitVec.zero_or

@[simp] theorem and_zero_word : x &&& 0 = 0 := BitVec.and_zero

@[simp] theorem zero_and_word : 0 &&& x = 0 := BitVec.zero_and

@[simp] theorem and_not_zero_word : x &&& ~~~0 = x := by
  rw [BitVec.ofNat_eq_ofNat, BitVec.not_zero, BitVec.and_allOnes]

/-- `x | y == y`: every bit of `x` is a bit of `y`. -/
theorem or_eq_right_iff (y : BitVec w) :
    x ||| y = y ↔ ∀ j < w, x.getLsbD j = true → y.getLsbD j = true := by
  constructor
  · intro h j _ hx
    rw [← h, BitVec.getLsbD_or, hx, Bool.true_or]
  · intro h
    refine BitVec.eq_of_getLsbD_eq fun j hj => ?_
    rw [BitVec.getLsbD_or]
    cases hx : x.getLsbD j
    · rw [Bool.false_or]
    · rw [h j hj hx, Bool.true_or]

end Zero

/-! ### Population count -/

theorem cpopNatRec_eq_countP (x : BitVec w) (n acc : Nat) :
    x.cpopNatRec n acc = acc + (List.range n).countP x.getLsbD := by
  induction n generalizing acc with
  | zero => rfl
  | succ n ih =>
    rw [BitVec.cpopNatRec_succ, ih, List.range_succ, List.countP_append, List.countP_singleton]
    cases x.getLsbD n <;> simp only [Bool.toNat_false, Bool.toNat_true, if_true, Bool.false_eq_true,
      if_false] <;> omega

/-- The population count of a word is the number of its set bits. -/
theorem toNat_cpop_eq_countP (x : BitVec w) : x.cpop.toNat = (List.range w).countP x.getLsbD := by
  rw [BitVec.toNat_cpop, cpopNatRec_eq_countP, Nat.zero_add]

/-- The set bits of a word list are as many as the population counts of its words add up to. -/
theorem countP_wordBit (hw : 0 < w) (ws : List (BitVec w)) :
    (List.range (ws.length * w)).countP (wordBit ws) = (ws.map fun x => x.cpop.toNat).sum := by
  induction ws with
  | nil => simp
  | cons x ws ih =>
    -- the first word's bits, then the rest's bits moved up by a word
    have hfirst : (List.range w).countP (wordBit (x :: ws)) = (List.range w).countP x.getLsbD :=
      List.countP_congr fun j hj => by
        have hj' : j < w := List.mem_range.mp hj
        have hbit := wordBit_mul_add (x :: ws) (k := 0) hj'
        rw [Nat.zero_mul, Nat.zero_add, List.getD_cons_zero] at hbit
        rw [hbit]
    have hrest : ((List.range (ws.length * w)).map (w + ·)).countP (wordBit (x :: ws)) =
        (List.range (ws.length * w)).countP (wordBit ws) := by
      rw [List.countP_map]
      exact List.countP_congr fun i _ => by
        simp only [Function.comp_apply, wordBit_cons_add x ws hw i]
    rw [List.length_cons, Nat.succ_mul, Nat.add_comm _ w, List.range_add, List.countP_append, hfirst,
      hrest, ih, List.map_cons, List.sum_cons, toNat_cpop_eq_countP]

/-- Shifting a word left by `s` leaves the population count of its low `w - s` bits: a count
of the bits at or below a position, as a rank is taken. -/
theorem toNat_cpop_shiftLeft (x : BitVec w) {s : Nat} (hs : s ≤ w) :
    (x <<< s).cpop.toNat = (List.range (w - s)).countP x.getLsbD := by
  have hsplit : List.range w = List.range s ++ (List.range (w - s)).map (s + ·) := by
    rw [← List.range_add, Nat.add_sub_cancel' hs]
  -- the low `s` bits of the shifted word are clear, the others are the word's moved up
  have hlow : (List.range s).countP (x <<< s).getLsbD = 0 :=
    List.countP_eq_zero.mpr fun i hi => by
      simp [BitVec.getLsbD_shiftLeft, List.mem_range.mp hi]
  have hhigh : ((List.range (w - s)).map (s + ·)).countP (x <<< s).getLsbD =
      (List.range (w - s)).countP x.getLsbD := by
    rw [List.countP_map]
    exact List.countP_congr fun q hq => by
      have hq' := List.mem_range.mp hq
      simp only [Function.comp_apply, BitVec.getLsbD_shiftLeft, show s + q < w by omega,
        show ¬ s + q < s by omega, decide_true, decide_false, Bool.not_false, Bool.true_and,
        Nat.add_sub_cancel_left]
  rw [toNat_cpop_eq_countP, hsplit, List.countP_append, hlow, hhigh, Nat.zero_add]

/-! ### The highest set bit of a word -/

section Highest

variable {x : BitVec w}

/-- A nonzero word has bit `w - 1 - clz` set. -/
theorem getLsbD_highest (hx : x ≠ 0) : x.getLsbD (w - 1 - x.clz.toNat) = true := by
  have hw : 0 < w := Nat.pos_of_ne_zero fun h => hx (by subst h; exact BitVec.eq_nil x)
  exact BitVec.getLsbD_true_clz_of_ne_zero hw hx

/-- The bits from `w - clz` up are clear, by the recursion that counts the leading zeros. -/
theorem getLsbD_sub_clz_add (x : BitVec w) (k : Nat) : x.getLsbD (w - x.clz.toNat + k) = false :=
  BitVec.getLsbD_false_of_clzAuxRec (fun i hi => BitVec.getLsbD_of_ge x i (by omega)) k

/-- A nonzero word has fewer leading zeros than bits, as its highest bit is set. -/
theorem clz_lt (hx : x ≠ 0) : x.clz.toNat < w := by
  refine Nat.lt_of_not_le fun hle => ?_
  have htop := getLsbD_highest hx
  rw [show w - 1 - x.clz.toNat = w - x.clz.toNat + 0 by omega, getLsbD_sub_clz_add] at htop
  exact Bool.false_ne_true htop

/-- No bit of a nonzero word above bit `w - 1 - clz` is set. -/
theorem getLsbD_eq_false_of_highest_lt (hx : x ≠ 0) {j : Nat} (hj : w - 1 - x.clz.toNat < j) :
    x.getLsbD j = false := by
  have hclz := clz_lt hx
  rw [show j = w - x.clz.toNat + (j - (w - x.clz.toNat)) by omega, getLsbD_sub_clz_add]

end Highest

end AndroidArt.Lib
