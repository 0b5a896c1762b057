/-
Module: AndroidArt.Lib.PartitionPoint
Purpose: `std::partition_point` as libc++ runs it: halve a range of indices, and keep the part
  past the middle index when the predicate holds there, the part before it otherwise.
Trusted boundary: none
Main exports: partitionPoint, partitionPoint_spec
-/
import Mathlib.Order.Basic

namespace AndroidArt.Lib

/-- The loop of `std::partition_point` over the `len` indices from `first`. -/
def partitionPoint (p : Nat → Bool) (first len : Nat) : Nat :=
  if len = 0 then first
  else if p (first + len / 2) then partitionPoint p (first + len / 2 + 1) (len - (len / 2 + 1))
  else partitionPoint p first (len / 2)
termination_by len
decreasing_by all_goals omega

/-- What the loop returns on a predicate that holds on a prefix of the range only: a point of
the range, every index before it satisfying the predicate, and it failing there unless it is the
end of the range. -/
def IsPartitionPoint (p : Nat → Bool) (first len r : Nat) : Prop :=
  first ≤ r ∧ r ≤ first + len ∧ (∀ i, first ≤ i → i < r → p i = true) ∧
    (r < first + len → p r = false)

/-- The predicate holds on a prefix of `[first, first + len)` and nowhere after it. -/
def PrefixHolds (p : Nat → Bool) (first len : Nat) : Prop :=
  ∀ i j, first ≤ i → i ≤ j → j < first + len → p j = true → p i = true

/-- The loop finds the end of the prefix on which the predicate holds.  The induction is on the
length of the range, each round keeping the invariant that the predicate holds before the range
and fails after it. -/
theorem partitionPoint_spec (p : Nat → Bool) :
    ∀ (len first : Nat), PrefixHolds p first len →
      IsPartitionPoint p first len (partitionPoint p first len) := by
  intro len
  induction len using Nat.strongRecOn with
  | ind len ih =>
    intro first hprefix
    rw [partitionPoint]
    by_cases hlen : len = 0
    · subst hlen
      rw [if_pos rfl]
      exact ⟨Nat.le_refl _, by omega, fun i hi hi' => absurd hi' (by omega), fun h => absurd h (by omega)⟩
    rw [if_neg hlen]
    by_cases hmid : p (first + len / 2) = true
    · -- the middle index and everything before it satisfy the predicate
      rw [if_pos hmid]
      have hsub : PrefixHolds p (first + len / 2 + 1) (len - (len / 2 + 1)) :=
        fun i j hi hij hj => hprefix i j (by omega) hij (by omega)
      obtain ⟨hlo, hhi, hbefore, hat⟩ := ih _ (by omega) _ hsub
      refine ⟨by omega, by omega, fun i hi hir => ?_, fun hr => hat (by omega)⟩
      by_cases hi' : i ≤ first + len / 2
      · exact hprefix i (first + len / 2) hi hi' (by omega) hmid
      · exact hbefore i (by omega) hir
    · -- the predicate fails at the middle index, so the point is at or before it
      rw [if_neg hmid]
      have hsub : PrefixHolds p first (len / 2) :=
        fun i j hi hij hj => hprefix i j hi hij (by omega)
      obtain ⟨hlo, hhi, hbefore, hat⟩ := ih _ (by omega) _ hsub
      refine ⟨hlo, by omega, hbefore, fun hr => ?_⟩
      by_cases hend : partitionPoint p first (len / 2) < first + len / 2
      · exact hat hend
      · rw [show partitionPoint p first (len / 2) = first + len / 2 by omega]
        simpa using hmid

end AndroidArt.Lib
