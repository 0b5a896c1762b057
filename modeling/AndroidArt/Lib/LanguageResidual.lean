/-
Module: AndroidArt.Lib.LanguageResidual
Purpose: what is left of a language after its first letter.
Trusted boundary: none
Main exports: nil_mem_mul_iff, cons_mem_mul_iff, cons_mem_kstar_iff, plus
-/
import Mathlib.Computability.Language

namespace AndroidArt.Lib

open Computability

section Residual

variable {α : Type*} {l m : Language α} {a b : α} {w : List α}

theorem nil_mem_mul_iff : [] ∈ l * m ↔ [] ∈ l ∧ [] ∈ m := by
  rw [Language.mem_mul]
  constructor
  · rintro ⟨u, hu, v, hv, huv⟩
    obtain ⟨rfl, rfl⟩ := List.append_eq_nil_iff.mp huv
    exact ⟨hu, hv⟩
  · rintro ⟨hu, hv⟩
    exact ⟨[], hu, [], hv, rfl⟩

/-- The first letter of a product comes from its left factor, or from the right one when the
left factor takes the empty word. -/
theorem cons_mem_mul_iff :
    a :: w ∈ l * m ↔ (∃ u v, w = u ++ v ∧ a :: u ∈ l ∧ v ∈ m) ∨ ([] ∈ l ∧ a :: w ∈ m) := by
  rw [Language.mem_mul]
  constructor
  · rintro ⟨u, hu, v, hv, huv⟩
    cases u with
    | nil =>
      rw [List.nil_append] at huv
      exact .inr ⟨hu, huv ▸ hv⟩
    | cons x u =>
      obtain ⟨rfl, rfl⟩ := List.cons.inj huv
      exact .inl ⟨u, v, rfl, hu, hv⟩
  · rintro (⟨u, v, rfl, hu, hv⟩ | ⟨hu, hv⟩)
    · exact ⟨a :: u, hu, v, hv, rfl⟩
    · exact ⟨[], hu, a :: w, hv, rfl⟩

/-- The first letter of a star starts one nonempty piece. -/
theorem cons_mem_kstar_iff : a :: w ∈ l∗ ↔ ∃ u v, w = u ++ v ∧ a :: u ∈ l ∧ v ∈ l∗ := by
  constructor
  · rw [Language.mem_kstar_iff_exists_nonempty]
    rintro ⟨pieces, hw, hpieces⟩
    cases pieces with
    | nil => exact absurd hw (by simp)
    | cons first rest =>
      obtain ⟨hfirst, hne⟩ := hpieces first List.mem_cons_self
      cases first with
      | nil => exact absurd rfl hne
      | cons x u =>
        rw [List.flatten_cons, List.cons_append, List.cons.injEq] at hw
        obtain ⟨rfl, rfl⟩ := hw
        refine ⟨u, rest.flatten, rfl, hfirst, ?_⟩
        exact Language.join_mem_kstar fun y hy => (hpieces y (List.mem_cons_of_mem _ hy)).1
  · rintro ⟨u, v, rfl, hu, hv⟩
    obtain ⟨pieces, rfl, hpieces⟩ := Language.mem_kstar.mp hv
    refine Language.mem_kstar.mpr ⟨(a :: u) :: pieces, by simp, ?_⟩
    intro y hy
    rcases List.mem_cons.mp hy with rfl | hy
    · exact hu
    · exact hpieces y hy

/-! ### Words of a letter class -/

/-- The nonempty words whose letters all satisfy `P`. -/
def plus (P : α → Prop) : Language α := {w | w ≠ [] ∧ ∀ x ∈ w, P x}

variable {P : α → Prop}

theorem mem_plus : w ∈ plus P ↔ w ≠ [] ∧ ∀ x ∈ w, P x := Iff.rfl

theorem nil_not_mem_plus : [] ∉ plus P := fun h => h.1 rfl

theorem cons_mem_plus_iff : a :: w ∈ plus P ↔ P a ∧ (w = [] ∨ w ∈ plus P) := by
  simp only [mem_plus, ne_eq, reduceCtorEq, not_false_eq_true, List.mem_cons,
    forall_eq_or_imp, true_and]
  constructor
  · rintro ⟨ha, hw⟩
    exact ⟨ha, (em (w = [])).imp id fun hne => ⟨hne, hw⟩⟩
  · rintro ⟨ha, rfl | ⟨-, hw⟩⟩
    · exact ⟨ha, by simp⟩
    · exact ⟨ha, hw⟩

theorem nil_not_mem_plus_mul : [] ∉ plus P * m := fun h =>
  nil_not_mem_plus (nil_mem_mul_iff.mp h).1

/-- After a letter of the class, a nonempty word of the class followed by `m` goes on with more
letters of the class or with `m`. -/
theorem cons_mem_plus_mul_iff : a :: w ∈ plus P * m ↔ P a ∧ w ∈ (plus P + 1) * m := by
  rw [cons_mem_mul_iff, add_mul, one_mul, Language.mem_add]
  constructor
  · rintro (⟨u, v, rfl, hu, hv⟩ | ⟨hnil, -⟩)
    · obtain ⟨ha, rfl | hu⟩ := cons_mem_plus_iff.mp hu
      · exact ⟨ha, .inr hv⟩
      · exact ⟨ha, .inl (Language.append_mem_mul hu hv)⟩
    · exact absurd hnil nil_not_mem_plus
  · rintro ⟨ha, hw | hw⟩
    · obtain ⟨u, hu, v, hv, rfl⟩ := Language.mem_mul.mp hw
      exact .inl ⟨u, v, rfl, cons_mem_plus_iff.mpr ⟨ha, .inr hu⟩, hv⟩
    · exact .inl ⟨[], w, rfl, cons_mem_plus_iff.mpr ⟨ha, .inl rfl⟩, hw⟩

/-- Letters of the class, possibly none, then `m`. -/
theorem cons_mem_plus_add_one_mul_iff :
    a :: w ∈ (plus P + 1) * m ↔ (P a ∧ w ∈ (plus P + 1) * m) ∨ a :: w ∈ m := by
  conv_lhs => rw [add_mul, one_mul, Language.mem_add, cons_mem_plus_mul_iff]

/-! ### One-letter prefixes -/

theorem mem_singleton_iff {u : List α} : w ∈ ({u} : Language α) ↔ w = u := Iff.rfl

theorem nil_not_mem_singleton_mul : [] ∉ ({[a]} : Language α) * m := fun h =>
  nomatch (nil_mem_mul_iff.mp h).1

theorem cons_mem_singleton_mul_iff : b :: w ∈ ({[a]} : Language α) * m ↔ b = a ∧ w ∈ m := by
  rw [cons_mem_mul_iff]
  constructor
  · rintro (⟨u, v, rfl, hu, hv⟩ | ⟨hnil, -⟩)
    · obtain ⟨rfl, rfl⟩ := List.cons.inj (mem_singleton_iff.mp hu)
      exact ⟨rfl, hv⟩
    · exact nomatch hnil
  · rintro ⟨rfl, hw⟩
    exact .inl ⟨[], w, rfl, rfl, hw⟩

/-- A star of pieces each led by the letter `a`: empty, or `a` and then a piece's rest and more
pieces. -/
theorem kstar_singleton_mul_eq (m : Language α) :
    (({[a]} : Language α) * m)∗ = 1 + {[a]} * (m * ({[a]} * m)∗) := by
  calc (({[a]} : Language α) * m)∗ = 1 + {[a]} * m * ({[a]} * m)∗ :=
        (Language.one_add_self_mul_kstar_eq_kstar _).symm
    _ = 1 + {[a]} * (m * ({[a]} * m)∗) := by rw [mul_assoc]

/-! ### Words of a letter class separated by a letter -/

/-- Nonempty words of the class `P`, one or more, with the letter `sep` between them. -/
def sepBy (P : α → Prop) (sep : α) : Language α := plus P * ({[sep]} * plus P)∗

/-- What may follow a separator-free prefix: more separated words, or none. -/
def sepByRest (P : α → Prop) (sep : α) : Language α := ({[sep]} * plus P)∗

variable {sep : α} (e : Language α)

theorem nil_not_mem_sepBy_mul : [] ∉ sepBy P sep * e := by
  rw [sepBy, mul_assoc]
  exact nil_not_mem_plus_mul

theorem nil_mem_sepBy_add_sepByRest_mul_iff : [] ∈ (sepBy P sep + sepByRest P sep) * e ↔ [] ∈ e := by
  rw [nil_mem_mul_iff, Language.mem_add]
  exact ⟨fun h => h.2, fun h => ⟨.inr (Language.nil_mem_kstar _), h⟩⟩

/-- At the start of a word: a letter of the class, then the rest of the word or more words. -/
theorem cons_mem_sepBy_mul_iff :
    a :: w ∈ sepBy P sep * e ↔ P a ∧ w ∈ (sepBy P sep + sepByRest P sep) * e := by
  rw [sepBy, mul_assoc, cons_mem_plus_mul_iff, add_mul, one_mul, ← mul_assoc, ← add_mul]
  rfl

/-- Inside a word: another letter of the class, a separator before the next word, or the end
of the words. -/
theorem cons_mem_sepBy_add_sepByRest_mul_iff :
    a :: w ∈ (sepBy P sep + sepByRest P sep) * e ↔
      (P a ∧ w ∈ (sepBy P sep + sepByRest P sep) * e) ∨ (a = sep ∧ w ∈ sepBy P sep * e) ∨
        a :: w ∈ e := by
  have hrest : sepByRest P sep * e = e + {[sep]} * (sepBy P sep * e) := by
    rw [sepByRest, kstar_singleton_mul_eq, add_mul, one_mul, mul_assoc, mul_assoc, sepBy, mul_assoc]
  conv_lhs => rw [add_mul, Language.mem_add, cons_mem_sepBy_mul_iff, hrest, Language.mem_add,
    cons_mem_singleton_mul_iff]
  tauto

/-! ### A bounded run of one letter in front -/

/-- A run of at most `n` letters `a`. -/
def runUpTo (a : α) (n : Nat) : Language α := {w | ∃ k ≤ n, w = List.replicate k a}

/-- A word led by `k` letters `a` and then by another letter lies in `runUpTo a n * x`, for an `x`
none of whose words starts with `a`, exactly when `k ≤ n` and the rest lies in `x`. -/
theorem replicate_append_mem_runUpTo_mul_iff {x : Language α} {k n : Nat} {r : List α}
    (hr : r.head? ≠ some a) (hx : ∀ u ∈ x, u.head? ≠ some a) :
    List.replicate k a ++ r ∈ runUpTo a n * x ↔ k ≤ n ∧ r ∈ x := by
  rw [Language.mem_mul]
  constructor
  · rintro ⟨_, ⟨j, hj, rfl⟩, u, hu, heq⟩
    -- both runs end where the next letter is not `a`
    have hjk : j = k := by
      rcases Nat.lt_trichotomy j k with hlt | rfl | hgt
      · obtain ⟨d, rfl⟩ := Nat.exists_eq_add_of_lt hlt
        rw [show j + d + 1 = j + (d + 1) by omega, List.replicate_add, List.append_assoc,
          List.append_cancel_left_eq, List.replicate_succ, List.cons_append] at heq
        exact absurd (by rw [heq]; rfl) (hx u hu)
      · rfl
      · obtain ⟨d, rfl⟩ := Nat.exists_eq_add_of_lt hgt
        rw [show k + d + 1 = k + (d + 1) by omega, List.replicate_add, List.append_assoc,
          List.append_cancel_left_eq, List.replicate_succ, List.cons_append] at heq
        exact absurd (by rw [← heq]; rfl) hr
    subst hjk
    exact ⟨hj, (List.append_cancel_left heq) ▸ hu⟩
  · rintro ⟨hk, hrx⟩
    exact ⟨_, ⟨k, hk, rfl⟩, r, hrx, rfl⟩

end Residual

end AndroidArt.Lib
