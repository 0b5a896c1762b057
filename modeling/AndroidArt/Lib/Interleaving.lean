/-
Module: AndroidArt.Lib.Interleaving
Purpose: Two tools for protocols that threads run in interleaved steps.
Trusted boundary: none
Main exports: Reachable, Reachable.invariant, census, census_update
-/
import Mathlib.Algebra.BigOperators.Group.Finset.Piecewise
import Mathlib.Data.Fintype.Card

namespace AndroidArt.Lib

/-! ### Reachable states -/

/-- The states that `step` reaches from a state satisfying `init`. -/
inductive Reachable {σ : Type*} (init : σ → Prop) (step : σ → σ → Prop) : σ → Prop where
  | init {s : σ} : init s → Reachable init step s
  | step {s s' : σ} : Reachable init step s → step s s' → Reachable init step s'

/-- An invariant that the initial states satisfy and every step keeps holds in every reachable
state. -/
theorem Reachable.invariant {σ : Type*} {init : σ → Prop} {step : σ → σ → Prop} {I : σ → Prop}
    (hinit : ∀ s, init s → I s) (hstep : ∀ s s', I s → step s s' → I s') {s : σ}
    (h : Reachable init step s) : I s := by
  induction h with
  | init hs => exact hinit _ hs
  | step _ hss' ih => exact hstep _ _ ih hss'

/-! ### Counting threads -/

section Census

variable {τ σ : Type*} [Fintype τ] (p : σ → Prop) [DecidablePred p]

/-- The number of threads whose local state, as `pc` gives it, satisfies `p`. -/
def census (pc : τ → σ) : Nat :=
  (Finset.univ.filter fun t => p (pc t)).card

variable {p} {pc : τ → σ}

theorem census_pos {t : τ} (ht : p (pc t)) : 0 < census p pc :=
  Finset.card_pos.mpr ⟨t, by simpa using ht⟩

theorem census_eq_zero_iff : census p pc = 0 ↔ ∀ t, ¬ p (pc t) := by
  simp [census, Finset.filter_eq_empty_iff]

theorem census_le_card : census p pc ≤ Fintype.card τ :=
  (Finset.card_filter_le _ _).trans_eq Finset.card_univ

/-- The count depends only on which threads satisfy `p`. -/
theorem census_congr {pc' : τ → σ} (h : ∀ t, p (pc' t) ↔ p (pc t)) : census p pc' = census p pc := by
  simp only [census, h]

variable [DecidableEq τ]

omit [Fintype τ] in
/-- The value of one thread after a move. -/
theorem indicator_update (t : τ) (s : σ) :
    (fun u => if p (Function.update pc t s u) then 1 else 0) =
      Function.update (fun u => if p (pc u) then 1 else 0) t (if p s then 1 else 0) := by
  funext u
  by_cases hu : u = t
  · subst hu
    simp
  · simp [Function.update_of_ne hu]

/-- Changing the value of one thread changes the total by the difference. -/
theorem sum_update (f : τ → Nat) (t : τ) (b : Nat) :
    ∑ u, Function.update f t b u + f t = ∑ u, f u + b := by
  rw [← Finset.add_sum_erase _ _ (Finset.mem_univ t), ← Finset.add_sum_erase _ _ (Finset.mem_univ t)]
  -- every other thread keeps its value
  have hrest : ∑ u ∈ Finset.univ.erase t, Function.update f t b u =
      ∑ u ∈ Finset.univ.erase t, f u :=
    Finset.sum_congr rfl fun u hu => Function.update_of_ne (Finset.ne_of_mem_erase hu) _ _
  rw [hrest, Function.update_self]
  omega

/-- Moving one thread to a new local state takes it out of the count if it was in and puts it in
if it now satisfies `p`. -/
theorem census_update (t : τ) (s : σ) :
    census p (Function.update pc t s) + (if p (pc t) then 1 else 0) =
      census p pc + (if p s then 1 else 0) := by
  simp only [census, Finset.card_filter]
  rw [indicator_update]
  exact sum_update _ t _

theorem census_update_of_iff {t : τ} {s : σ} (h : p s ↔ p (pc t)) :
    census p (Function.update pc t s) = census p pc :=
  census_congr fun u => by
    by_cases hu : u = t
    · subst hu
      simpa using h
    · rw [Function.update_of_ne hu]

/-- A thread entering the window. -/
theorem census_update_enter {t : τ} {s : σ} (hout : ¬ p (pc t)) (hin : p s) :
    census p (Function.update pc t s) = census p pc + 1 := by
  have h : census p (Function.update pc t s) + (if p (pc t) then 1 else 0) =
      census p pc + (if p s then 1 else 0) := census_update t s
  simp only [hout, hin, if_true, if_false] at h
  omega

/-- A thread leaving the window. -/
theorem census_update_leave {t : τ} {s : σ} (hin : p (pc t)) (hout : ¬ p s) :
    census p (Function.update pc t s) + 1 = census p pc := by
  have h : census p (Function.update pc t s) + (if p (pc t) then 1 else 0) =
      census p pc + (if p s then 1 else 0) := census_update t s
  simp only [hout, hin, if_true, if_false] at h
  omega

end Census

end AndroidArt.Lib
