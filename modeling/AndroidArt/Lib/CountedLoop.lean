/-
Module: AndroidArt.Lib.CountedLoop
Purpose: Loops counted by an arithmetic progression. A loop's header test is a sequence of
  outcomes, one per execution of the header; the loop leaves after `count` passes when the first
  `count` tests pass and the next one fails.
Trusted boundary: none
Main exports: ExitsAfter, ExitsAfter.le_of_passes, ExitsAfter.congr, exitsAfter_of_lt_iff
-/
import Mathlib.Tactic.Linarith

namespace AndroidArt.Lib

/-- A loop whose header test at its `k`-th execution is `test k` (`none` where the test has no
value) passes its first `count` tests and leaves at the next one: its body runs `count` times. -/
def ExitsAfter (test : Nat → Option Bool) (count : Nat) : Prop :=
  (∀ k < count, test k = some true) ∧ test count = some false

namespace ExitsAfter

variable {test test' : Nat → Option Bool} {count : Nat}

/-- A loop that may also leave early, through another exit of its body, passes at most `count`
of its header's tests. -/
theorem le_of_passes (h : ExitsAfter test count) {passes : Nat}
    (hpasses : ∀ k < passes, test k = some true) : passes ≤ count := by
  by_contra hlt
  have hpass := hpasses count (Nat.lt_of_not_le hlt)
  rw [h.2] at hpass
  cases hpass

/-- Tests that agree up to the exit leave after the same count. -/
theorem congr (h : ExitsAfter test count) (hagree : ∀ k ≤ count, test' k = test k) :
    ExitsAfter test' count := by
  refine ⟨fun k hk => ?_, ?_⟩
  · rw [hagree k (Nat.le_of_lt hk)]
    exact h.1 k hk
  · rw [hagree count (Nat.le_refl count)]
    exact h.2

end ExitsAfter

/-- A test that passes exactly below `q`, up to `q`, leaves after `q` passes. -/
theorem exitsAfter_of_lt_iff {test : Nat → Option Bool} {q : Int}
    (htest : ∀ k ≤ q.toNat, test k = some (decide ((k : Int) < q))) : ExitsAfter test q.toNat := by
  refine ⟨fun k hk => ?_, ?_⟩
  · rw [htest k (Nat.le_of_lt hk)]
    simp only [Option.some.injEq, decide_eq_true_eq]
    omega
  · rw [htest q.toNat (Nat.le_refl _)]
    simp only [Option.some.injEq, decide_eq_false_iff_not]
    omega

/-! ### Progressions against a bound -/

section Progression

variable {L U S : Int}

/-- An increasing progression stays at or below `U` for exactly its first `(U + S - L) / S`
terms. -/
theorem add_mul_le_iff_lt_tdiv (hS : 0 < S) (k : Nat) :
    L + S * k ≤ U ↔ (k : Int) < (U + S - L).tdiv S := by
  have hk : 0 ≤ S * k := Int.mul_nonneg hS.le (Int.natCast_nonneg k)
  rcases le_or_gt 0 (U + S - L) with hN | hN
  · -- a numerator that is not negative: the truncated quotient is the floor
    rw [Int.tdiv_eq_ediv_of_nonneg hN, ← Int.add_one_le_iff, Int.le_ediv_iff_mul_le hS]
    constructor <;> intro h <;> linarith
  · -- the progression starts past `U + S`, and the quotient is not positive
    have hq : (U + S - L).tdiv S ≤ 0 := by
      have hneg := Int.tdiv_nonneg (a := -(U + S - L)) (by omega) hS.le
      rw [Int.neg_tdiv] at hneg
      omega
    constructor <;> intro h <;> omega

/-- A decreasing progression stays at or above `U` for exactly its first `(U + S - L) / S`
terms. -/
theorem le_add_mul_iff_lt_tdiv (hS : S < 0) (k : Nat) :
    U ≤ L + S * k ↔ (k : Int) < (U + S - L).tdiv S := by
  -- the negated progression increases towards `-U`
  have hneg := add_mul_le_iff_lt_tdiv (L := -L) (U := -U) (Int.neg_pos.mpr hS) k
  rw [show -U + -S - -L = -(U + S - L) by omega, Int.neg_tdiv_neg] at hneg
  rw [← hneg]
  constructor <;> intro h <;> linarith

/-- A progression whose bound is not behind its start has a count that is not negative. -/
theorem tdiv_nonneg_of_sign {N : Int} (h : 0 < S ∧ 0 ≤ N ∨ S < 0 ∧ N ≤ 0) : 0 ≤ N.tdiv S := by
  rcases h with ⟨hS, hN⟩ | ⟨hS, hN⟩
  · exact Int.tdiv_nonneg hN hS.le
  · rw [← Int.neg_tdiv_neg]
    exact Int.tdiv_nonneg (by omega) (by omega)

/-- Up to its count an increasing progression goes at most one stride past the bound. -/
theorem add_mul_mem_of_le_tdiv (hS : 0 < S) (hN : 0 ≤ U + S - L) {k : Nat}
    (hk : (k : Int) ≤ (U + S - L).tdiv S) : L ≤ L + S * k ∧ L + S * k ≤ U + S := by
  have hmul : (U + S - L).tdiv S * S ≤ U + S - L := by
    rw [Int.tdiv_eq_ediv_of_nonneg hN]
    exact Int.ediv_mul_le _ (Int.ne_of_gt hS)
  have hstep : S * k ≤ (U + S - L).tdiv S * S := by
    rw [Int.mul_comm S]
    exact Int.mul_le_mul_of_nonneg_right hk hS.le
  constructor
  · exact Int.le_add_of_nonneg_right (Int.mul_nonneg hS.le (Int.natCast_nonneg k))
  · linarith

/-- Up to its count a decreasing progression goes at most one stride past the bound. -/
theorem add_mul_mem_of_le_tdiv_of_neg (hS : S < 0) (hN : U + S - L ≤ 0) {k : Nat}
    (hk : (k : Int) ≤ (U + S - L).tdiv S) : U + S ≤ L + S * k ∧ L + S * k ≤ L := by
  -- the negated progression increases towards `-U`
  have hneg := add_mul_mem_of_le_tdiv (L := -L) (U := -U) (Int.neg_pos.mpr hS) (by linarith)
    (k := k) (by rwa [show -U + -S - -L = -(U + S - L) by omega, Int.neg_tdiv_neg])
  constructor <;> linarith [hneg.1, hneg.2]

end Progression

/-! ### Loops over a fixed-width counter -/

section FixedWidth

variable {σ : Type*} (w bound : Nat) (body : Nat → σ → σ)

/-- `for (i = start; i < bound; i++) s = body(i, s);` with a counter of `w` bits, which wraps
to `0` after `2 ^ w - 1`, run for at most `fuel` tests: `none` when the fuel runs out first. -/
def wrappingLoop : Nat → Nat → σ → Option σ
  | 0, _, _ => none
  | fuel + 1, i, s => if i < bound then wrappingLoop fuel ((i + 1) % 2 ^ w) (body i s) else some s

/-- A bound below `2 ^ w` is reached before the counter wraps: with a test for each index from
`i` to `bound`, the loop runs its body at `i`, ..., `bound - 1` in turn. -/
theorem wrappingLoop_of_lt (hb : bound < 2 ^ w) :
    ∀ {fuel i : Nat} (s : σ), i ≤ bound → bound - i < fuel →
      wrappingLoop w bound body fuel i s =
        some ((List.range' i (bound - i)).foldl (fun s j => body j s) s)
  | 0, _, _, _, hfuel => absurd hfuel (Nat.not_lt_zero _)
  | fuel + 1, i, s, hi, hfuel => by
    rw [wrappingLoop]
    by_cases hlt : i < bound
    · have hnext : (i + 1) % 2 ^ w = i + 1 := Nat.mod_eq_of_lt (by omega)
      have hrange : List.range' i (bound - i) = i :: List.range' (i + 1) (bound - (i + 1)) := by
        rw [show bound - i = bound - (i + 1) + 1 by omega, List.range'_succ]
      rw [if_pos hlt, hnext, hrange, List.foldl_cons]
      exact wrappingLoop_of_lt hb (body i s) (by omega) (by omega)
    · rw [if_neg hlt, show bound - i = 0 by omega, List.range'_zero, List.foldl_nil]

/-- A bound of `2 ^ w` or more is never reached: every test passes, and no fuel is enough. -/
theorem wrappingLoop_eq_none (hb : 2 ^ w ≤ bound) :
    ∀ (fuel : Nat) {i : Nat} (s : σ), i < 2 ^ w → wrappingLoop w bound body fuel i s = none
  | 0, _, _, _ => rfl
  | fuel + 1, i, s, hi => by
    rw [wrappingLoop, if_pos (by omega)]
    exact wrappingLoop_eq_none hb fuel (body i s) (Nat.mod_lt _ (Nat.two_pow_pos w))

end FixedWidth

/-! ### Loops that break -/

/-- A loop over `0, …, n - 1` that breaks at the first index reaching `m` visits the indices
below `min n m`. -/
theorem takeWhile_range_lt (m : Nat) : ∀ n : Nat,
    (List.range n).takeWhile (fun j => decide (j < m)) = List.range (min n m)
  | 0 => by simp
  | n + 1 => by
    rw [List.range_succ, List.takeWhile_append, takeWhile_range_lt m n]
    by_cases h : n < m
    · rw [Nat.min_eq_left h.le, Nat.min_eq_left (Nat.succ_le_of_lt h), if_pos rfl, List.range_succ]
      simp [h]
    · rw [Nat.min_eq_right (Nat.le_of_not_lt h), Nat.min_eq_right (by omega : m ≤ n + 1)]
      split_ifs with hmn
      · -- the loop breaks at `n = m` itself
        rw [List.length_range, List.length_range] at hmn
        subst hmn
        simp
      · rfl

/-- A search that returns at the first element with a result returns the result of the only
element that has one. -/
theorem findSome?_eq_of_unique {α β : Type*} {f : α → Option β} {l : List α} {x : α} {v : β}
    (hx : x ∈ l) (hfx : f x = some v) (hother : ∀ y ∈ l, y ≠ x → f y = none) :
    l.findSome? f = some v := by
  induction l with
  | nil => exact absurd hx List.not_mem_nil
  | cons y l ih =>
    by_cases hy : y = x
    · subst hy
      simp [hfx]
    · have hnone := hother y List.mem_cons_self hy
      rw [List.findSome?_cons, hnone]
      exact ih ((List.mem_cons.mp hx).resolve_left (Ne.symm hy))
        fun z hz => hother z (List.mem_cons_of_mem y hz)

end AndroidArt.Lib
