/-
Module: AndroidArt.Lib.OrderedSet
Purpose: `std::set` and `std::map` as the sorted sequence of their elements.
Trusted boundary: none
Main exports: insertBy, ofListBy, pairwise_ofListBy, mem_ofListBy_iff
-/
import Mathlib.Data.Finset.Card
import Mathlib.Data.List.Induction
import Mathlib.Order.Defs.Unbundled

namespace AndroidArt.Lib

namespace OrderedSet

variable {α : Type*} (lt : α → α → Bool)

/-- `std::set<α, lt>::insert x` on the set's elements in order. -/
def insertBy (x : α) : List α → List α
  | [] => [x]
  | y :: ys =>
    if lt x y then x :: y :: ys
    else if lt y x then y :: insertBy x ys
    else y :: ys

/-- The set made by inserting the elements of `xs` in turn into an empty set. -/
def ofListBy (xs : List α) : List α :=
  xs.foldl (fun s x => insertBy lt x s) []

/-- Neither of `x` and `y` is less than the other: a set keeps only one of them. -/
def incomp (x y : α) : Bool :=
  !lt x y && !lt y x

variable {lt}

theorem ofListBy_append_singleton (xs : List α) (x : α) :
    ofListBy lt (xs ++ [x]) = insertBy lt x (ofListBy lt xs) := by
  simp [ofListBy, List.foldl_append]

theorem incomp_symm {x y : α} (h : incomp lt x y = true) : incomp lt y x = true := by
  simp only [incomp, Bool.and_eq_true, Bool.not_eq_true'] at h ⊢
  exact ⟨h.2, h.1⟩

theorem mem_insertBy {x y : α} {xs : List α} (h : y ∈ insertBy lt x xs) : y = x ∨ y ∈ xs := by
  induction xs with
  | nil => simpa [insertBy] using h
  | cons z zs ih =>
    unfold insertBy at h
    split at h
    · simpa using h
    · split at h
      · rcases List.mem_cons.mp h with rfl | h
        · exact Or.inr List.mem_cons_self
        · exact (ih h).imp_right (List.mem_cons_of_mem z)
      · exact Or.inr h

/-- An insert with no equivalent element in the set adds the new one. -/
theorem insertBy_perm {x : α} {xs : List α} (h : ∀ y ∈ xs, incomp lt x y = false) :
    (insertBy lt x xs).Perm (x :: xs) := by
  induction xs with
  | nil => rfl
  | cons y ys ih =>
    have hy := h y List.mem_cons_self
    unfold insertBy
    split
    · rfl
    · split
      · exact ((ih fun z hz => h z (List.mem_cons_of_mem y hz)).cons y).trans (List.Perm.swap x y ys)
      · simp_all [incomp]

theorem mem_of_mem_ofListBy {xs : List α} {y : α} (h : y ∈ ofListBy lt xs) : y ∈ xs := by
  induction xs using List.reverseRecOn with
  | nil => simp [ofListBy] at h
  | append_singleton xs x ih =>
    rw [ofListBy_append_singleton] at h
    rcases mem_insertBy h with rfl | h
    · simp
    · exact List.mem_append_left [x] (ih h)

/-- A run of inserts that skips the elements failing `p` builds the set of those passing it. -/
theorem foldl_insertBy_ite (p : α → Bool) (xs s : List α) :
    xs.foldl (fun s x => if p x then insertBy lt x s else s) s =
      (xs.filter p).foldl (fun s x => insertBy lt x s) s := by
  induction xs generalizing s with
  | nil => rfl
  | cons x xs ih =>
    rw [List.foldl_cons, List.filter_cons]
    split
    · rw [ih, List.foldl_cons]
    · rw [ih]

/-! ## Comparators by a key -/

section Key

variable {γ : Type*} [LinearOrder γ] (key : α → γ)

/-- A comparator that orders elements as a linear order orders their keys is a strict weak
order. -/
theorem isStrictWeakOrder_of_key (h : ∀ a b, lt a b = true ↔ key a < key b) :
    IsStrictWeakOrder α (fun a b => lt a b = true) where
  irrefl a := by
    rw [h]
    exact lt_irrefl (key a)
  trans a b c h₁ h₂ := (h a c).mpr (lt_trans ((h a b).mp h₁) ((h b c).mp h₂))
  incomp_trans a b c h₁ h₂ := by
    simp only [h, not_lt] at h₁ h₂ ⊢
    exact ⟨le_trans h₂.1 h₁.1, le_trans h₁.2 h₂.2⟩

/-- Under such a comparator two elements are equivalent exactly when their keys are equal. -/
theorem incomp_iff_of_key (h : ∀ a b, lt a b = true ↔ key a < key b) {a b : α} :
    incomp lt a b = true ↔ key a = key b := by
  have ha : lt a b = false ↔ key b ≤ key a := by rw [← not_lt, ← h]; simp
  have hb : lt b a = false ↔ key a ≤ key b := by rw [← not_lt, ← h]; simp
  simp only [incomp, Bool.and_eq_true, Bool.not_eq_true', ha, hb]
  exact ⟨fun h => le_antisymm h.2 h.1, fun h => ⟨h.ge, h.le⟩⟩

end Key

section StrictWeakOrder

variable [IsStrictWeakOrder α (fun a b => lt a b = true)]

variable (lt) in
theorem lt_irrefl_bool (x : α) : lt x x = false := by
  simpa using Std.Irrefl.irrefl (r := fun a b => lt a b = true) x

theorem lt_trans_bool {x y z : α} (h₁ : lt x y = true) (h₂ : lt y z = true) : lt x z = true :=
  IsTrans.trans (r := fun a b => lt a b = true) x y z h₁ h₂

theorem lt_asymm_bool {x y : α} (h : lt x y = true) : lt y x = false := by
  cases hyx : lt y x
  · rfl
  · simpa [lt_irrefl_bool lt] using lt_trans_bool h hyx

variable (lt) in
theorem incomp_refl (x : α) : incomp lt x x = true := by
  simp [incomp, lt_irrefl_bool lt]

theorem incomp_trans {x y z : α} (h₁ : incomp lt x y = true) (h₂ : incomp lt y z = true) :
    incomp lt x z = true := by
  simp only [incomp, Bool.and_eq_true, Bool.not_eq_true'] at h₁ h₂ ⊢
  have := @IsStrictWeakOrder.incomp_trans _ (fun a b => lt a b = true) _ x y z
    (by simpa using h₁) (by simpa using h₂)
  simpa using this

/-- Inserting into a sorted set keeps it sorted. -/
theorem pairwise_insertBy {x : α} {xs : List α} (h : xs.Pairwise (lt · · = true)) :
    (insertBy lt x xs).Pairwise (lt · · = true) := by
  induction xs with
  | nil => simp [insertBy]
  | cons y ys ih =>
    rw [List.pairwise_cons] at h
    unfold insertBy
    split
    · rename_i hxy
      refine List.Pairwise.cons ?_ (List.Pairwise.cons h.1 h.2)
      intro z hz
      rcases List.mem_cons.mp hz with rfl | hz
      · exact hxy
      · exact lt_trans_bool hxy (h.1 z hz)
    · split
      · rename_i _ hyx
        refine List.Pairwise.cons ?_ (ih h.2)
        intro z hz
        rcases mem_insertBy hz with rfl | hz
        · exact hyx
        · exact h.1 z hz
      · exact List.Pairwise.cons h.1 h.2

/-- An insert whose element has an equivalent one in a sorted set changes nothing. -/
theorem insertBy_eq_self {x : α} {xs : List α} (hxs : xs.Pairwise (lt · · = true))
    (h : ∃ y ∈ xs, incomp lt x y = true) : insertBy lt x xs = xs := by
  induction xs with
  | nil => simp at h
  | cons y ys ih =>
    obtain ⟨z, hz, hxz⟩ := h
    rw [List.pairwise_cons] at hxs
    simp only [incomp, Bool.and_eq_true, Bool.not_eq_true'] at hxz
    unfold insertBy
    split
    · -- `x` is below `y`, so it is below every element after `y` too, `z` among them
      rename_i hxy
      rcases List.mem_cons.mp hz with rfl | hz
      · simp [hxy] at hxz
      · simp [lt_trans_bool hxy (hxs.1 z hz)] at hxz
    · split
      · rename_i _ hyx
        rcases List.mem_cons.mp hz with rfl | hz
        · simp [hyx] at hxz
        · rw [ih hxs.2 ⟨z, hz, by simp [incomp, hxz]⟩]
      · rfl

variable (lt) in
theorem pairwise_ofListBy (xs : List α) : (ofListBy lt xs).Pairwise (lt · · = true) := by
  induction xs using List.reverseRecOn with
  | nil => simp [ofListBy]
  | append_singleton xs x ih =>
    rw [ofListBy_append_singleton]
    exact pairwise_insertBy ih

variable (lt) in
/-- Every element inserted has an equivalent one in the set. -/
theorem exists_incomp_mem_ofListBy {xs : List α} {x : α} (hx : x ∈ xs) :
    ∃ y ∈ ofListBy lt xs, incomp lt x y = true := by
  induction xs using List.reverseRecOn with
  | nil => simp at hx
  | append_singleton xs z ih =>
    rw [ofListBy_append_singleton]
    by_cases hrep : ∃ y ∈ ofListBy lt xs, incomp lt z y = true
    · rw [insertBy_eq_self (pairwise_ofListBy lt xs) hrep]
      rcases List.mem_append.mp hx with hx | hx
      · exact ih hx
      · rw [List.mem_singleton.mp hx]
        exact hrep
    · push Not at hrep
      have hperm := insertBy_perm (fun y hy => by simpa using hrep y hy)
      rcases List.mem_append.mp hx with hx | hx
      · obtain ⟨y, hy, hxy⟩ := ih hx
        exact ⟨y, hperm.symm.subset (List.mem_cons_of_mem z hy), hxy⟩
      · rw [List.mem_singleton.mp hx]
        exact ⟨z, hperm.symm.subset List.mem_cons_self, incomp_refl lt z⟩

/-- The set built from `xs` holds exactly the elements that come first in `xs` among those
equivalent to them. -/
theorem mem_ofListBy_iff {xs : List α} {y : α} :
    y ∈ ofListBy lt xs ↔ xs.find? (incomp lt y) = some y := by
  induction xs using List.reverseRecOn with
  | nil => simp [ofListBy]
  | append_singleton xs x ih =>
    rw [ofListBy_append_singleton, List.find?_append]
    by_cases hrep : ∃ z ∈ ofListBy lt xs, incomp lt x z = true
    · -- `x` is dropped; it cannot be the first of its class either
      rw [insertBy_eq_self (pairwise_ofListBy lt xs) hrep, ih]
      obtain ⟨z, hz, hxz⟩ := hrep
      cases hfind : xs.find? (incomp lt y) with
      | some w => simp
      | none =>
        simp only [Option.none_or, reduceCtorEq, false_iff]
        intro hx
        have hyx : y = x := by
          simp only [List.find?_cons, List.find?_nil] at hx
          split at hx <;> simp_all
        subst hyx
        exact (List.find?_eq_none.mp hfind) z (mem_of_mem_ofListBy hz) (by simpa using hxz)
    · push Not at hrep
      have hperm := insertBy_perm (fun z hz => by simpa using hrep z hz)
      rw [hperm.mem_iff, List.mem_cons, ih]
      -- no element of `xs` is equivalent to `x`: each would have a representative in the set
      have hnone : xs.find? (incomp lt x) = none := by
        rw [List.find?_eq_none]
        intro w hw hxw
        obtain ⟨r, hr, hwr⟩ := exists_incomp_mem_ofListBy lt hw
        exact hrep r hr (incomp_trans hxw hwr)
      constructor
      · rintro (rfl | h)
        · simp [hnone, incomp_refl lt]
        · simp [h]
      · intro h
        cases hfind : xs.find? (incomp lt y) with
        | some w =>
          rw [hfind, Option.some_or] at h
          exact Or.inr h
        | none =>
          rw [hfind, Option.none_or] at h
          simp only [List.find?_cons, List.find?_nil] at h
          split at h <;> simp_all

/-- A set built from elements no two of which are equivalent holds all of them. -/
theorem mem_ofListBy_of_pairwise {xs : List α} (hxs : xs.Pairwise (incomp lt · · = false))
    {y : α} : y ∈ ofListBy lt xs ↔ y ∈ xs := by
  rw [mem_ofListBy_iff]
  constructor
  · exact List.mem_of_find?_eq_some
  · intro hy
    obtain ⟨as, bs, rfl⟩ := List.append_of_mem hy
    -- every element before `y` is not equivalent to it, so the search stops at `y`
    have hbefore : ∀ a ∈ as, incomp lt a y = false :=
      fun a ha => (List.pairwise_append.mp hxs).2.2 a ha y List.mem_cons_self
    refine List.find?_eq_some_iff_append.mpr ⟨incomp_refl lt y, as, bs, rfl, fun a ha => ?_⟩
    have h := hbefore a ha
    cases hya : incomp lt y a
    · rfl
    · simp [incomp_symm hya] at h

/-- In a sorted list the first element with a property is one no other such element is below. -/
theorem find?_eq_some_iff_of_pairwise {l : List α} (hl : l.Pairwise (lt · · = true))
    {p : α → Bool} {y : α} :
    l.find? p = some y ↔ y ∈ l ∧ p y = true ∧ ∀ z ∈ l, p z = true → lt z y = false := by
  have first : ∀ {w}, l.find? p = some w → ∀ z ∈ l, p z = true → z ≠ w → lt w z = true := by
    intro w hw z hz hpz hzw
    obtain ⟨-, as, bs, rfl, has⟩ := List.find?_eq_some_iff_append.mp hw
    rcases List.mem_append.mp hz with hz | hz
    · simpa [hpz] using has z hz
    · rcases List.mem_cons.mp hz with rfl | hz
      · exact absurd rfl hzw
      · exact (List.pairwise_cons.mp (List.pairwise_append.mp hl).2.1).1 z hz
  constructor
  · intro hy
    refine ⟨List.mem_of_find?_eq_some hy, List.find?_some hy, fun z hz hpz => ?_⟩
    by_cases hzy : z = y
    · rw [hzy, lt_irrefl_bool lt]
    · exact lt_asymm_bool (first hy z hz hpz hzy)
  · rintro ⟨hy, hpy, hmin⟩
    obtain ⟨w, hw⟩ := Option.isSome_iff_exists.mp
      (List.find?_isSome.mpr ⟨y, hy, hpy⟩)
    by_cases hyw : y = w
    · rw [hw, hyw]
    · have := first hw y hy hpy hyw
      rw [hmin w (List.mem_of_find?_eq_some hw) (List.find?_some hw)] at this
      exact absurd this (by decide)

/-- When two elements are equivalent exactly when they have the same key, a set built from
`xs` has one element for each key of `xs`. -/
theorem length_ofListBy {β : Type*} [DecidableEq β] (key : α → β)
    (hkey : ∀ x y, incomp lt x y = true ↔ key x = key y) (xs : List α) :
    (ofListBy lt xs).length = (xs.map key).toFinset.card := by
  have hnodup : ((ofListBy lt xs).map key).Nodup := by
    refine List.Pairwise.map key ?_ (pairwise_ofListBy lt xs)
    intro a b hab hkeys
    have := (hkey a b).mpr hkeys
    simp [incomp, hab] at this
  rw [← List.length_map (f := key), ← List.toFinset_card_of_nodup hnodup]
  congr 1
  ext k
  simp only [List.mem_toFinset, List.mem_map]
  constructor
  · rintro ⟨a, ha, rfl⟩
    exact ⟨a, mem_of_mem_ofListBy ha, rfl⟩
  · rintro ⟨a, ha, rfl⟩
    obtain ⟨b, hb, hab⟩ := exists_incomp_mem_ofListBy lt ha
    exact ⟨b, hb, ((hkey a b).mp hab).symm⟩

end StrictWeakOrder

/-! ## Maps -/

section Map

variable {κ β : Type*} [LinearOrder κ]

/-- The comparator of a `std::map`: its entries in the order of their keys. -/
def keyLt (p q : κ × β) : Bool :=
  decide (p.1 < q.1)

/-- `m.find(k)`, with the value of the entry found. -/
def lookupKey (k : κ) (m : List (κ × β)) : Option β :=
  (m.find? (fun p => decide (p.1 = k))).map Prod.snd

/-- `m.insert({k, v})`. -/
def insertKey (k : κ) (v : β) (m : List (κ × β)) : List (κ × β) :=
  insertBy keyLt (k, v) m

/-- `it->second = f(it->second)` on the entry of `k`. -/
def modifyKey (k : κ) (f : β → β) (m : List (κ × β)) : List (κ × β) :=
  m.map fun p => if p.1 = k then (p.1, f p.2) else p

theorem keyLt_iff (p q : κ × β) : keyLt p q = true ↔ p.1 < q.1 := by
  simp [keyLt]

instance : IsStrictWeakOrder (κ × β) (fun p q => keyLt p q = true) :=
  isStrictWeakOrder_of_key Prod.fst keyLt_iff

theorem lookupKey_eq_none_iff {k : κ} {m : List (κ × β)} :
    lookupKey k m = none ↔ k ∉ m.map Prod.fst := by
  simp only [lookupKey, Option.map_eq_none_iff, List.find?_eq_none, decide_eq_true_eq,
    List.mem_map, not_exists, not_and]

/-- In a sorted map every entry is the one found under its key. -/
theorem lookupKey_of_mem {m : List (κ × β)} (hm : m.Pairwise (keyLt · · = true))
    {p : κ × β} (hp : p ∈ m) : lookupKey p.1 m = some p.2 := by
  induction m with
  | nil => simp at hp
  | cons q qs ih =>
    rw [List.pairwise_cons] at hm
    unfold lookupKey
    rw [List.find?_cons]
    rcases List.mem_cons.mp hp with rfl | hp
    · simp
    · -- `q` is below `p`, so it is not the entry of `p`'s key
      have hqp : q.1 ≠ p.1 := ne_of_lt (by simpa [keyLt] using hm.1 p hp)
      simp only [hqp, decide_false]
      exact ih hm.2 hp

theorem lookupKey_eq_some_iff {m : List (κ × β)} (hm : m.Pairwise (keyLt · · = true))
    {k : κ} {v : β} : lookupKey k m = some v ↔ (k, v) ∈ m := by
  constructor
  · intro h
    obtain ⟨p, hp, rfl⟩ := Option.map_eq_some_iff.mp h
    have hk : p.1 = k := by simpa using List.find?_some hp
    rw [← hk]
    exact List.mem_of_find?_eq_some hp
  · exact lookupKey_of_mem hm

/-- An insert under a key the map lacks adds that key and no other. -/
theorem lookupKey_insertKey {k k' : κ} {v : β} {m : List (κ × β)} (hk : lookupKey k m = none) :
    lookupKey k' (insertKey k v m) = if k' = k then some v else lookupKey k' m := by
  rw [lookupKey_eq_none_iff] at hk
  induction m with
  | nil => by_cases h : k' = k <;> simp [insertKey, insertBy, lookupKey, h, eq_comm]
  | cons q qs ih =>
    have hqk : q.1 ≠ k := fun h => hk (by simp [← h])
    have ih := ih (fun h => hk (List.mem_cons_of_mem _ h))
    unfold insertKey at ih ⊢
    unfold insertBy
    split
    · by_cases h : k' = k <;> simp [lookupKey, h, eq_comm]
    · split
      · rename_i hlt
        by_cases h : k' = k
        · subst h
          simpa [lookupKey, hqk] using ih
        · by_cases hq' : q.1 = k'
          · simp [lookupKey, hq', h]
          · simpa [lookupKey, hq', h] using ih
      · rename_i h₁ h₂
        exact absurd (le_antisymm (by simpa [keyLt] using h₁) (by simpa [keyLt] using h₂)) hqk

theorem pairwise_insertKey {k : κ} {v : β} {m : List (κ × β)}
    (hm : m.Pairwise (keyLt · · = true)) : (insertKey k v m).Pairwise (keyLt · · = true) :=
  pairwise_insertBy hm

theorem lookupKey_modifyKey {k k' : κ} {f : β → β} {m : List (κ × β)} :
    lookupKey k' (modifyKey k f m) = if k' = k then (lookupKey k m).map f else lookupKey k' m := by
  induction m with
  | nil => split <;> rfl
  | cons q qs ih =>
    by_cases hq : q.1 = k
    · by_cases h : k' = k
      · simp [lookupKey, modifyKey, hq, h]
      · simpa [lookupKey, modifyKey, hq, h, Ne.symm h] using ih
    · by_cases h : k' = k
      · subst h
        simpa [lookupKey, modifyKey, hq] using ih
      · by_cases hq' : q.1 = k'
        · simp [lookupKey, modifyKey, hq', h]
        · simpa [lookupKey, modifyKey, hq, hq', h] using ih

theorem pairwise_modifyKey {k : κ} {f : β → β} {m : List (κ × β)}
    (hm : m.Pairwise (keyLt · · = true)) : (modifyKey k f m).Pairwise (keyLt · · = true) := by
  refine List.pairwise_map.mpr (hm.imp ?_)
  intro p q h
  -- the entries keep their keys, and the order looks at nothing else
  have hfst : ∀ r : κ × β, (if r.1 = k then (r.1, f r.2) else r).1 = r.1 := fun r => by
    split <;> rfl
  simpa [keyLt, hfst] using h

end Map

end OrderedSet

end AndroidArt.Lib
