/-
Module: AndroidArt.Lib.LinkedList
Purpose: singly linked lists threaded through a heap: a `next` field for every address and a null
  address that ends a list.
Trusted boundary: none
Main exports: Links, Links.congr, Links.update, Links.eq_nil_iff
-/
import Mathlib.Logic.Function.Basic
import Mathlib.Data.List.Range

namespace AndroidArt.Lib

section LinkedList

variable {α : Type} (null : α)

/-- Following `next` from `a` visits the nodes `l`, none of them `null`, and then reaches
`null`. -/
inductive Links (next : α → α) : α → List α → Prop
  | nil : Links next null []
  | cons {a : α} {l : List α} : a ≠ null → Links next (next a) l → Links next a (a :: l)

variable {null}

/-- A list is read through the `next` fields of its own nodes only. -/
theorem Links.congr {next next' : α → α} {a : α} {l : List α} (h : Links null next a l)
    (hsame : ∀ x ∈ l, next' x = next x) : Links null next' a l := by
  induction h with
  | nil => exact .nil
  | @cons a l ha _ ih =>
    have hhead : next' a = next a := hsame a (List.mem_cons_self ..)
    refine .cons ha ?_
    rw [hhead]
    exact ih fun x hx => hsame x (List.mem_cons_of_mem _ hx)

/-- A write to the `next` field of a node outside the list keeps the list. -/
theorem Links.update [DecidableEq α] {next : α → α} {a x v : α} {l : List α}
    (h : Links null next a l) (hx : x ∉ l) : Links null (Function.update next x v) a l :=
  h.congr fun y hy => Function.update_of_ne (fun hyx => hx (by rw [← hyx]; exact hy)) v next

/-- The list is empty exactly when it starts at `null`. -/
theorem Links.eq_nil_iff {next : α → α} {a : α} {l : List α} (h : Links null next a l) :
    a = null ↔ l = [] := by
  cases h with
  | nil => exact ⟨fun _ => rfl, fun _ => rfl⟩
  | cons ha _ => exact ⟨fun h' => absurd h' ha, fun h' => nomatch h'⟩

/-- A nonempty list is its first node, then the list from that node's `next`. -/
theorem Links.cons_iff {next : α → α} {a x : α} {l : List α} :
    Links null next a (x :: l) ↔ a = x ∧ x ≠ null ∧ Links null next (next x) l := by
  constructor
  · rintro (_ | ⟨hx, hl⟩)
    exact ⟨rfl, hx, hl⟩
  · rintro ⟨rfl, hx, hl⟩
    exact .cons hx hl

/-- Nodes `f k, …, f (n - 1)`, none of them `null`, each linked to the following one and the
last to `null`, form a list from `f k`: by induction on the nodes left, from the last. -/
theorem links_of_succ {next : α → α} {f : Nat → α} {n : Nat} (hne : ∀ k < n, f k ≠ null)
    (hlink : ∀ k, k + 1 < n → next (f k) = f (k + 1)) (hlast : next (f (n - 1)) = null) :
    ∀ m k, k + m + 1 = n → Links null next (f k) ((List.range' k (m + 1)).map f)
  | 0, k, hk => by
    rw [show n - 1 = k by omega] at hlast
    rw [List.range'_one, List.map_singleton]
    refine .cons (hne k (by omega)) ?_
    rw [hlast]
    exact .nil
  | m + 1, k, hk => by
    rw [List.range'_succ, List.map_cons]
    refine .cons (hne k (by omega)) ?_
    rw [hlink k (by omega)]
    exact links_of_succ hne hlink hlast m (k + 1) (by omega)

/-- Nodes `f 0, …, f (n - 1)` linked in order form a list from `f 0`. -/
theorem links_range {next : α → α} {f : Nat → α} {n : Nat} (hn : 0 < n)
    (hne : ∀ k < n, f k ≠ null) (hlink : ∀ k, k + 1 < n → next (f k) = f (k + 1))
    (hlast : next (f (n - 1)) = null) : Links null next (f 0) ((List.range n).map f) := by
  obtain ⟨m, rfl⟩ : ∃ m, n = m + 1 := ⟨n - 1, by omega⟩
  rw [List.range_eq_range']
  exact links_of_succ hne hlink hlast m 0 (by omega)

end LinkedList

end AndroidArt.Lib
