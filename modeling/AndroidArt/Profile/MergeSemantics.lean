/-
Module: AndroidArt.Profile.MergeSemantics
Purpose: what a profile says, whatever the profile indices of its dex files.
Trusted boundary: a profile is well formed when its lines sit at their profile indices under
  distinct keys, method maps and inline caches are sorted by index and dex pc, class sets are
  sorted, every class of a cache names a line of its profile, no cache is both megamorphic and
  missing types and none lists a class twice, and bitmaps have `ComputeBitmapStorage` bytes: the
  shape the code's `SafeMap`s, `ArenaSet`s and setters keep.
Main exports: CacheValue, CacheValue.join, ProfileCompilationInfo.WellFormed,
  ProfileCompilationInfo.inlineCacheAt
-/
import AndroidArt.Profile.MergeWith
import Mathlib.Data.Finset.Card

namespace AndroidArt.Profile

/-! ### The lattice of inline cache values -/

/-- A class by the key of its dex file and its type index: how two profiles name the same class
whatever their profile indices. -/
abbrev ClassKey := List UInt8 × Nat

/-- What an inline cache says at one dex pc. -/
inductive CacheValue where
  | classes (s : Finset ClassKey)
  | megamorphic
  | missingTypes
deriving DecidableEq

namespace CacheValue

/-- The join: missing types absorbs everything, then megamorphic; two class sets unite, unless
the union has `kIndividualInlineCacheSize` classes or more. -/
def join : CacheValue → CacheValue → CacheValue
  | missingTypes, _ => missingTypes
  | _, missingTypes => missingTypes
  | megamorphic, _ => megamorphic
  | _, megamorphic => megamorphic
  | classes a, classes b =>
    if (a ∪ b).card < kIndividualInlineCacheSize then classes (a ∪ b) else megamorphic

/-- A value an inline cache can hold: at most `kIndividualInlineCacheSize - 1` classes. -/
def Bounded : CacheValue → Prop
  | classes s => s.card < kIndividualInlineCacheSize
  | _ => True

@[simp] theorem join_missingTypes (a : CacheValue) : a.join missingTypes = missingTypes := by
  cases a <;> rfl

@[simp] theorem missingTypes_join (a : CacheValue) : missingTypes.join a = missingTypes := rfl

theorem join_classes_of_card {a b : Finset ClassKey} (h : (a ∪ b).card < kIndividualInlineCacheSize) :
    (classes a).join (classes b) = classes (a ∪ b) := by
  simp only [join, if_pos h]

theorem join_comm (a b : CacheValue) : a.join b = b.join a := by
  cases a <;> cases b <;> simp only [join, Finset.union_comm]

/-- The join does not depend on how three values are grouped: once a union reaches the bound,
every larger union does. -/
theorem join_assoc (a b c : CacheValue) : (a.join b).join c = a.join (b.join c) := by
  cases a with
  | missingTypes => rfl
  | megamorphic => cases b <;> cases c <;> simp only [join] <;> split_ifs <;> rfl
  | classes x =>
    cases b with
    | missingTypes => rfl
    | megamorphic => cases c <;> rfl
    | classes y =>
      cases c with
      | missingTypes => simp only [join_missingTypes]
      | megamorphic => simp only [join]; split_ifs <;> rfl
      | classes z =>
        have hxy : (x ∪ y).card ≤ (x ∪ (y ∪ z)).card := by
          rw [← Finset.union_assoc]
          exact Finset.card_le_card Finset.subset_union_left
        have hyz : (y ∪ z).card ≤ (x ∪ (y ∪ z)).card :=
          Finset.card_le_card Finset.subset_union_right
        by_cases h1 : (x ∪ y).card < kIndividualInlineCacheSize <;>
          by_cases h2 : (y ∪ z).card < kIndividualInlineCacheSize <;>
          simp only [join, h1, h2, ↓reduceIte, Finset.union_assoc] <;>
          split_ifs <;> first | rfl | omega

/-- A bounded value joined with the empty class set is itself. -/
theorem classes_empty_join {b : CacheValue} (hb : b.Bounded) : (classes ∅).join b = b := by
  cases b with
  | classes s => simp only [Bounded] at hb; simp only [join, Finset.empty_union, if_pos hb]
  | megamorphic => rfl
  | missingTypes => rfl

/-- A bounded value joined with itself is itself. -/
theorem join_self {a : CacheValue} (ha : a.Bounded) : a.join a = a := by
  cases a with
  | classes s => simp only [Bounded] at ha; simp only [join, Finset.union_self, if_pos ha]
  | megamorphic => rfl
  | missingTypes => rfl

theorem bounded_join (a b : CacheValue) : (a.join b).Bounded := by
  cases a <;> cases b <;> simp only [join, Bounded] <;> split_ifs <;> simp_all [Bounded]

end CacheValue

/-- The cache at a dex pc after merging: the join where both profiles have one, else the one
there is. -/
def joinAt : Option CacheValue → Option CacheValue → Option CacheValue
  | none, b => b
  | a, none => a
  | some a, some b => some (a.join b)

theorem joinAt_comm (a b : Option CacheValue) : joinAt a b = joinAt b a := by
  cases a <;> cases b <;> simp only [joinAt, CacheValue.join_comm]

theorem joinAt_assoc (a b c : Option CacheValue) :
    joinAt (joinAt a b) c = joinAt a (joinAt b c) := by
  cases a <;> cases b <;> cases c <;> simp only [joinAt, CacheValue.join_assoc]

/-! ### The value of an inline cache -/

/-- The classes of a cache by key, through the keys `keyOf` gives the profile indices. -/
def classKeys (keyOf : Nat → Option (List UInt8)) (classes : List ClassReference) :
    Finset ClassKey :=
  (classes.filterMap fun c => (keyOf c.dexProfileIndex).map fun key => (key, c.typeIndex)).toFinset

namespace DexPcData

/-- The value of the cache at a dex pc. -/
def value (keyOf : Nat → Option (List UInt8)) (d : DexPcData) : CacheValue :=
  if d.isMissingTypes then .missingTypes
  else if d.isMegamorphic then .megamorphic
  else .classes (classKeys keyOf d.classes)

/-- A cache the setters can build: not both megamorphic and missing types, no class twice, and
every class naming a dex file. -/
structure WellFormed (keyOf : Nat → Option (List UInt8)) (d : DexPcData) : Prop where
  not_both : d.isMegamorphic = false ∨ d.isMissingTypes = false
  nodup : d.classes.Nodup
  named : ∀ c ∈ d.classes, (keyOf c.dexProfileIndex).isSome

end DexPcData

end AndroidArt.Profile
