/-
Module: AndroidArt.Lib.KeyedFold
Purpose: Folds over a keyed state whose every step rewrites the entry of one key, as a function
  of that entry alone.
Trusted boundary: none
Main exports: KeyedStep, KeyedStep.foldl_of_not_mem, KeyedStep.foldl_of_mem, foldl_frame
-/
import Mathlib.Data.List.Basic

namespace AndroidArt.Lib

section

variable {σ α κ β γ : Type*}

/-- A fold whose steps all keep the projection `p` of the state keeps it. -/
theorem foldl_frame {step : σ → α → σ} (p : σ → γ) (h : ∀ s a, p (step s a) = p s) :
    ∀ (xs : List α) (s : σ), p (xs.foldl step s) = p s
  | [], _ => rfl
  | a :: xs, s => by
    rw [List.foldl_cons, foldl_frame p h xs (step s a), h]

/-- `step` rewrites the entry `get · (key a)` of its state by `update a`, and no other
entry. -/
structure KeyedStep (step : σ → α → σ) (get : σ → κ → β) (key : α → κ)
    (update : α → β → β) : Prop where
  atKey : ∀ s a, get (step s a) (key a) = update a (get s (key a))
  frame : ∀ s a k, k ≠ key a → get (step s a) k = get s k

namespace KeyedStep

variable {step : σ → α → σ} {get : σ → κ → β} {key : α → κ} {update : α → β → β}

/-- A key that no step visits keeps its entry. -/
theorem foldl_of_not_mem (hs : KeyedStep step get key update) {k : κ} :
    ∀ (xs : List α) (s : σ), (∀ a ∈ xs, key a ≠ k) → get (xs.foldl step s) k = get s k
  | [], _, _ => rfl
  | a :: xs, s, hk => by
    have hne : k ≠ key a := fun h => hk a List.mem_cons_self h.symm
    have hrest : ∀ b ∈ xs, key b ≠ k := fun b hb => hk b (List.mem_cons_of_mem a hb)
    rw [List.foldl_cons, hs.foldl_of_not_mem xs (step s a) hrest, hs.frame s a k hne]

/-- Over distinct keys, the entry of a visited key is rewritten exactly once, starting from its
initial value. -/
theorem foldl_of_mem (hs : KeyedStep step get key update) :
    ∀ (xs : List α) (s : σ), (xs.map key).Nodup →
      ∀ a ∈ xs, get (xs.foldl step s) (key a) = update a (get s (key a))
  | [], _, _, a, ha => absurd ha List.not_mem_nil
  | x :: xs, s, hnd, a, ha => by
    rw [List.map_cons, List.nodup_cons] at hnd
    rw [List.foldl_cons]
    rcases List.mem_cons.mp ha with hax | hmem
    · -- `a` is the step taken now; the rest of the list does not visit its key again
      subst hax
      have hrest : ∀ b ∈ xs, key b ≠ key a := fun b hb hba =>
        hnd.1 (hba ▸ List.mem_map_of_mem hb)
      rw [hs.foldl_of_not_mem xs (step s a) hrest, hs.atKey]
    · have hne : key a ≠ key x := fun h => hnd.1 (h ▸ List.mem_map_of_mem hmem)
      rw [hs.foldl_of_mem xs (step s x) hnd.2 a hmem, hs.frame s x (key a) hne]

end KeyedStep

end

end AndroidArt.Lib
