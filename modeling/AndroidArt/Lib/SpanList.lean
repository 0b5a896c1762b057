/-
Module: AndroidArt.Lib.SpanList
Purpose: Sets of natural numbers kept as lists of half-open spans `[start, stop)` in increasing
  order.
Trusted boundary: none
Main exports: Span, Span.Contains, SpanList.WellFormed, SpanList.Covered
-/
import Mathlib.Data.List.Chain
import Mathlib.Data.List.TakeWhile

namespace AndroidArt.Lib

/-- The half-open span `[start, stop)`. -/
structure Span where
  start : Nat
  stop : Nat
deriving DecidableEq, Repr

namespace Span

/-- `x` lies in `[start, stop)`. -/
def Contains (span : Span) (x : Nat) : Prop := span.start ≤ x ∧ x < span.stop

instance (span : Span) (x : Nat) : Decidable (span.Contains x) :=
  inferInstanceAs (Decidable (_ ∧ _))

end Span

/-- Skipping such a prefix and then the elements that satisfy `p` skips as many elements as
`takeWhile p` keeps. -/
theorem add_length_takeWhile_drop {α : Type} {p : α → Bool} {l : List α} {k : Nat}
    (hk : k ≤ l.length) (hskip : ∀ a ∈ l.take k, p a = true) :
    k + ((l.drop k).takeWhile p).length = (l.takeWhile p).length := by
  conv => rhs; rw [← List.take_append_drop k l]
  rw [List.takeWhile_append_of_pos hskip, List.length_append, List.length_take_of_le hk]

/-- The element right behind what `takeWhile p` keeps is the first that `dropWhile p` keeps. -/
theorem getElem?_length_takeWhile {α : Type} (p : α → Bool) (l : List α) :
    l[(l.takeWhile p).length]? = (l.dropWhile p).head? := by
  nth_rewrite 1 [← List.takeWhile_append_dropWhile (p := p) (l := l)]
  rw [List.getElem?_append_right (Nat.le_refl _), Nat.sub_self, List.head?_eq_getElem?]

/-- Dropping as many elements as `takeWhile p` keeps leaves what `dropWhile p` keeps. -/
theorem drop_length_takeWhile {α : Type} (p : α → Bool) (l : List α) :
    l.drop (l.takeWhile p).length = l.dropWhile p := by
  nth_rewrite 2 [← List.takeWhile_append_dropWhile (p := p) (l := l)]
  exact List.drop_left

theorem take_length_takeWhile {α : Type} (p : α → Bool) (l : List α) :
    l.take (l.takeWhile p).length = l.takeWhile p := by
  nth_rewrite 2 [← List.takeWhile_append_dropWhile (p := p) (l := l)]
  exact List.take_left

namespace SpanList

/-- Every span non-empty, and every span starting strictly after the previous one stops. -/
def WellFormed (spans : List Span) : Prop :=
  (∀ span ∈ spans, span.start < span.stop) ∧ spans.IsChain (fun a b => a.stop < b.start)

instance (spans : List Span) : Decidable (WellFormed spans) :=
  inferInstanceAs (Decidable (_ ∧ _))

/-- `x` lies in one of the spans. -/
def Covered (spans : List Span) (x : Nat) : Prop := ∃ span ∈ spans, span.Contains x

/-- `x` is the least position both lists cover. -/
def FirstCommon (spans spans' : List Span) (x : Nat) : Prop :=
  Covered spans x ∧ Covered spans' x ∧ ∀ y < x, ¬ (Covered spans y ∧ Covered spans' y)

section Covered

variable {a : Span} {spans spans' : List Span} {x : Nat}

@[simp] theorem not_covered_nil (x : Nat) : ¬ Covered [] x := by
  simp [Covered]

@[simp] theorem covered_cons : Covered (a :: spans) x ↔ a.Contains x ∨ Covered spans x := by
  simp [Covered]

@[simp] theorem covered_append : Covered (spans ++ spans') x ↔ Covered spans x ∨ Covered spans' x := by
  simp only [Covered, List.mem_append]
  constructor
  · rintro ⟨span, member | member, inside⟩
    · exact .inl ⟨span, member, inside⟩
    · exact .inr ⟨span, member, inside⟩
  · rintro (⟨span, member, inside⟩ | ⟨span, member, inside⟩)
    · exact ⟨span, .inl member, inside⟩
    · exact ⟨span, .inr member, inside⟩

/-- Stretching the first span down to `start` adds `[start, a.start)` to what is covered. -/
theorem covered_setStart {start : Nat} (ha : a.start ≤ a.stop) (hstart : start ≤ a.start) :
    Covered ({ a with start := start } :: spans) x ↔
      (start ≤ x ∧ x < a.start) ∨ Covered (a :: spans) x := by
  simp only [covered_cons, Span.Contains]
  constructor
  · rintro (⟨hlow, hhigh⟩ | covered)
    · by_cases hx : x < a.start
      · exact .inl ⟨hlow, hx⟩
      · exact .inr (.inl ⟨by omega, hhigh⟩)
    · exact .inr (.inr covered)
  · rintro (⟨hlow, hhigh⟩ | ⟨hlow, hhigh⟩ | covered)
    · exact .inl ⟨hlow, by omega⟩
    · exact .inl ⟨by omega, hhigh⟩
    · exact .inr covered

/-- Spans that stop at or before `s` cover nothing from `s` on, so dropping them changes no
such position. -/
theorem covered_dropWhile_iff {s : Nat} (hx : s ≤ x) :
    Covered (spans.dropWhile fun span => decide (span.stop ≤ s)) x ↔ Covered spans x := by
  conv => rhs; rw [← List.takeWhile_append_dropWhile (p := fun span => decide (span.stop ≤ s))
    (l := spans)]
  rw [covered_append]
  constructor
  · exact .inr
  · rintro (⟨span, member, inside⟩ | covered)
    · have hstop : span.stop ≤ s :=
        of_decide_eq_true (List.mem_takeWhile_imp (p := fun span : Span => span.stop ≤ s) member)
      exact absurd inside.2 (by omega)
    · exact covered

end Covered

section WellFormed

variable {a b : Span} {spans spans' : List Span} {x : Nat}

theorem wellFormed_nil : WellFormed [] := ⟨by simp, List.isChain_nil⟩

theorem wellFormed_cons :
    WellFormed (a :: spans) ↔
      a.start < a.stop ∧ (∀ b ∈ spans.head?, a.stop < b.start) ∧ WellFormed spans := by
  simp only [WellFormed, List.mem_cons, forall_eq_or_imp, List.isChain_cons]
  tauto

theorem wellFormed_append :
    WellFormed (spans ++ spans') ↔
      WellFormed spans ∧ WellFormed spans' ∧
        ∀ a ∈ spans.getLast?, ∀ b ∈ spans'.head?, a.stop < b.start := by
  simp only [WellFormed, List.mem_append, List.isChain_append]
  constructor
  · rintro ⟨hpos, hchain, hchain', hjoin⟩
    exact ⟨⟨fun span member => hpos span (.inl member), hchain⟩,
      ⟨fun span member => hpos span (.inr member), hchain'⟩, hjoin⟩
  · rintro ⟨⟨hpos, hchain⟩, ⟨hpos', hchain'⟩, hjoin⟩
    exact ⟨fun span member => member.elim (hpos span) (hpos' span), hchain, hchain', hjoin⟩

theorem WellFormed.of_cons (h : WellFormed (a :: spans)) : WellFormed spans :=
  (wellFormed_cons.mp h).2.2

theorem WellFormed.start_lt_stop (h : WellFormed spans) (member : a ∈ spans) :
    a.start < a.stop :=
  h.1 a member

/-- The first span may start anywhere before it stops. -/
theorem WellFormed.setStart (h : WellFormed (a :: spans)) {start : Nat} (hstart : start < a.stop) :
    WellFormed ({ a with start := start } :: spans) := by
  obtain ⟨_, hnext, htail⟩ := wellFormed_cons.mp h
  exact wellFormed_cons.mpr ⟨hstart, hnext, htail⟩

theorem WellFormed.dropWhile (h : WellFormed spans) (p : Span → Bool) :
    WellFormed (spans.dropWhile p) := by
  rw [← List.takeWhile_append_dropWhile (p := p) (l := spans), wellFormed_append] at h
  exact h.2.1

/-- A span stops before every later span of a well-formed list starts. -/
theorem WellFormed.stop_lt_start (h : WellFormed (a :: spans)) (member : b ∈ spans) :
    a.stop < b.start := by
  induction spans generalizing a with
  | nil => cases member
  | cons c spans ih =>
    obtain ⟨_, hnext, htail⟩ := wellFormed_cons.mp h
    have hac : a.stop < c.start := hnext c rfl
    rcases List.mem_cons.mp member with rfl | later
    · exact hac
    · have hc := htail.start_lt_stop List.mem_cons_self
      have hcb := ih htail later
      omega

theorem WellFormed.pairwise (h : WellFormed spans) :
    spans.Pairwise fun a b => a.stop < b.start := by
  induction spans with
  | nil => exact List.Pairwise.nil
  | cons a spans ih => exact List.Pairwise.cons (fun b member => h.stop_lt_start member) (ih h.of_cons)

/-- The first span of a well-formed list starts no later than any of its spans. -/
theorem WellFormed.start_le_of_mem (h : WellFormed (a :: spans)) (member : b ∈ a :: spans) :
    a.start ≤ b.start := by
  rcases List.mem_cons.mp member with rfl | later
  · exact Nat.le_refl _
  · have hab := h.stop_lt_start later
    have ha := h.start_lt_stop List.mem_cons_self
    omega

/-- In a well-formed list the spans stop in increasing order. -/
theorem WellFormed.stop_lt_stop (h : WellFormed spans) {m n : Nat} (hmn : m < n)
    (hn : n < spans.length) :
    spans[m].stop < spans[n].stop := by
  have hpair := List.pairwise_iff_getElem.mp h.pairwise m n (by omega) hn hmn
  have hstart := h.start_lt_stop (List.getElem_mem hn)
  omega

/-- No span of a well-formed list stops after its last span. -/
theorem WellFormed.stop_le_of_getLast? (h : WellFormed spans) (hlast : a ∈ spans.getLast?)
    (member : b ∈ spans) : b.stop ≤ a.stop := by
  obtain ⟨m, hm, rfl⟩ := List.getElem_of_mem member
  have hne : spans ≠ [] := List.ne_nil_of_mem member
  rw [List.getLast?_eq_getElem?, List.getElem?_eq_getElem (by omega), Option.mem_def,
    Option.some.injEq] at hlast
  rw [← hlast]
  rcases Nat.lt_or_ge m (spans.length - 1) with hlt | hge
  · exact Nat.le_of_lt (h.stop_lt_stop hlt (by omega))
  · have hm' : m = spans.length - 1 := by omega
    subst hm'
    exact Nat.le_refl _

/-- Nothing later in a well-formed list covers a position at or before the stop of a span. -/
theorem WellFormed.not_covered_of_le (h : WellFormed (a :: spans)) (hx : x ≤ a.stop) :
    ¬ Covered spans x := by
  rintro ⟨b, member, inside⟩
  have hab := h.stop_lt_start member
  exact absurd inside.1 (by omega)

/-- The first span of a well-formed list starts at or before every position the list
covers. -/
theorem WellFormed.start_le_of_covered (h : WellFormed (a :: spans))
    (covered : Covered (a :: spans) x) : a.start ≤ x := by
  rcases covered_cons.mp covered with inside | ⟨b, member, inside⟩
  · exact inside.1
  · have hab := h.stop_lt_start member
    have ha := h.start_lt_stop List.mem_cons_self
    have hb := inside.1
    omega

/-- The first span that stops after `x` decides whether a well-formed list covers `x`: it does
exactly when that span starts at or before `x`. -/
theorem covered_iff_dropWhile (h : WellFormed spans) :
    Covered spans x ↔
      ∃ a ∈ (spans.dropWhile fun span => decide (span.stop ≤ x)).head?, a.start ≤ x := by
  induction spans with
  | nil => simp
  | cons a spans ih =>
    rw [List.dropWhile_cons, covered_cons]
    by_cases hstop : a.stop ≤ x
    · -- `a` ends before `x`: the search moves on, and `a` does not cover `x`
      rw [if_pos (decide_eq_true hstop), ← ih h.of_cons]
      exact ⟨fun covered => covered.resolve_left fun inside => absurd inside.2 (by omega), .inr⟩
    · -- `a` is the first span that stops after `x`
      rw [if_neg (by simpa using hstop)]
      simp only [List.head?_cons, Option.mem_def, Option.some.injEq, exists_eq_left']
      constructor
      · rintro (inside | covered)
        · exact inside.1
        · exact absurd covered (h.not_covered_of_le (by omega))
      · intro hstart
        exact .inl ⟨hstart, by omega⟩

end WellFormed

/-! ### The first common position of two lists

Walking two well-formed lists in order, a span that stops before the other list's current span
starts covers no position the other list covers, and can be dropped; two spans that overlap
share the later of their starts, which is then the least common position. -/

section Common

variable {a b : Span} {spans spans' : List Span} {x : Nat}

/-- A span that stops at or before the other list starts covers nothing that list covers. -/
theorem common_cons_iff_of_stop_le (h' : WellFormed (b :: spans')) (hbefore : a.stop ≤ b.start) :
    (Covered (a :: spans) x ∧ Covered (b :: spans') x) ↔
      (Covered spans x ∧ Covered (b :: spans') x) := by
  constructor
  · rintro ⟨covered, covered'⟩
    have hx := h'.start_le_of_covered covered'
    refine ⟨(covered_cons.mp covered).resolve_left fun inside => ?_, covered'⟩
    exact absurd inside.2 (by omega)
  · rintro ⟨covered, covered'⟩
    exact ⟨covered_cons.mpr (.inr covered), covered'⟩

/-- The first common position depends only on the positions both lists cover. -/
theorem firstCommon_congr {spans₁ spans₂ spans₃ spans₄ : List Span}
    (hcommon : ∀ y, (Covered spans₁ y ∧ Covered spans₂ y) ↔ (Covered spans₃ y ∧ Covered spans₄ y)) :
    FirstCommon spans₁ spans₂ x ↔ FirstCommon spans₃ spans₄ x := by
  unfold FirstCommon
  simp only [← and_assoc, hcommon]

/-- Two overlapping first spans share the later of their starts, and nothing earlier is
covered by both lists. -/
theorem firstCommon_of_overlap (h : WellFormed (a :: spans)) (h' : WellFormed (b :: spans'))
    (hab : ¬ a.stop ≤ b.start) (hba : ¬ b.stop ≤ a.start) :
    FirstCommon (a :: spans) (b :: spans') (max a.start b.start) := by
  have ha := h.start_lt_stop List.mem_cons_self
  have hb := h'.start_lt_stop List.mem_cons_self
  refine ⟨covered_cons.mpr (.inl ⟨le_max_left _ _, ?_⟩),
    covered_cons.mpr (.inl ⟨le_max_right _ _, ?_⟩), ?_⟩
  · omega
  · omega
  · rintro y hy ⟨covered, covered'⟩
    have hya := h.start_le_of_covered covered
    have hyb := h'.start_le_of_covered covered'
    omega

end Common

end SpanList

end AndroidArt.Lib
