/-
Module: AndroidArt.Lib.ReentrantLock
Purpose: A reentrant lock as its users see it: an owner and a depth, with an owner exactly when
  the depth is positive.
Trusted boundary: none
Main exports: ReentrantLock, ReentrantLock.acquire, ReentrantLock.release, ReentrantLock.Tracks
-/
import Mathlib.Logic.Function.Basic
import Mathlib.Tactic.SplitIfs

namespace AndroidArt.Lib

/-- A reentrant lock over threads `τ`. -/
@[ext] structure ReentrantLock (τ : Type*) where
  owner : Option τ
  depth : Nat
  owner_eq_none_iff : owner = none ↔ depth = 0

namespace ReentrantLock

variable {τ : Type*}

/-- The lock nobody holds. -/
def free : ReentrantLock τ := ⟨none, 0, by simp⟩

/-- The lock held by `t` at a positive depth. -/
def ownedBy (t : τ) (depth : Nat) (h : depth ≠ 0) : ReentrantLock τ := ⟨some t, depth, by simp [h]⟩

@[simp] theorem free_owner : (free : ReentrantLock τ).owner = none := rfl

@[simp] theorem ownedBy_owner {t : τ} {d : Nat} {h : d ≠ 0} : (ownedBy t d h).owner = some t := rfl

@[simp] theorem ownedBy_depth {t : τ} {d : Nat} {h : d ≠ 0} : (ownedBy t d h).depth = d := rfl

variable [DecidableEq τ]

/-- Acquiring by `t`: the free lock becomes `t`'s at depth one, `t`'s own lock one deeper; the
lock of another thread cannot be acquired. -/
def acquire (l : ReentrantLock τ) (t : τ) : Option (ReentrantLock τ) :=
  match l.owner with
  | none => some (ownedBy t 1 Nat.one_ne_zero)
  | some o => if o = t then some (ownedBy t (l.depth + 1) (Nat.succ_ne_zero _)) else none

/-- Releasing by `t`: only the owner can release, and the lock is free again after its
outermost release. -/
def release (l : ReentrantLock τ) (t : τ) : Option (ReentrantLock τ) :=
  if hown : l.owner = some t then
    if h : l.depth = 1 then some free else some ⟨some t, l.depth - 1, by
      have : l.depth ≠ 0 := fun h0 => by
        rw [l.owner_eq_none_iff.mpr h0] at hown
        cases hown
      simp only [reduceCtorEq, false_iff]
      omega⟩
  else none

variable {l l' : ReentrantLock τ} {t u : τ}

@[simp] theorem acquire_free : (free : ReentrantLock τ).acquire t = some (ownedBy t 1 Nat.one_ne_zero) :=
  rfl

@[simp] theorem acquire_ownedBy_self {d : Nat} {h : d ≠ 0} :
    (ownedBy t d h).acquire t = some (ownedBy t (d + 1) (Nat.succ_ne_zero _)) := by
  simp [acquire, ownedBy]

@[simp] theorem acquire_ownedBy_of_ne {d : Nat} {h : d ≠ 0} (hne : u ≠ t) :
    (ownedBy u d h).acquire t = none := by
  simp [acquire, ownedBy, hne]

@[simp] theorem release_free : (free : ReentrantLock τ).release t = none := by
  simp [release, free]

@[simp] theorem release_ownedBy_one {h : 1 ≠ 0} : (ownedBy t 1 h).release t = some free := by
  simp [release, ownedBy]

@[simp] theorem release_ownedBy_succ {d : Nat} {h : d + 1 ≠ 0} (hd : d ≠ 0) :
    (ownedBy t (d + 1) h).release t = some (ownedBy t d hd) := by
  simp [release, ownedBy, hd]

@[simp] theorem release_ownedBy_of_ne {d : Nat} {h : d ≠ 0} (hne : u ≠ t) :
    (ownedBy u d h).release t = none := by
  simp [release, ownedBy, hne]

theorem owner_of_acquire (h : l.acquire t = some l') : l'.owner = some t := by
  unfold acquire at h
  split at h
  · cases h
    rfl
  · split_ifs at h
    cases h
    rfl

theorem release_eq_none_iff : l.release t = none ↔ l.owner ≠ some t := by
  unfold release
  split_ifs <;> simp_all

/-- The balance `held t` of successful acquires minus releases of each thread `t` is the depth
for the owner and zero for every other thread. -/
def Tracks (l : ReentrantLock τ) (held : τ → Nat) : Prop :=
  ∀ t, held t = if l.owner = some t then l.depth else 0

theorem free_tracks : (free : ReentrantLock τ).Tracks fun _ => 0 := by
  intro t
  simp [free]

/-- An acquire by `t` adds one to `t`'s balance. -/
theorem Tracks.acquire {held : τ → Nat} (h : l.Tracks held) (ha : l.acquire t = some l') :
    l'.Tracks (Function.update held t (held t + 1)) := by
  intro u
  unfold ReentrantLock.acquire at ha
  split at ha
  case h_1 hfree =>
    cases ha
    by_cases hu : u = t
    · subst hu
      simp [h u, hfree, ownedBy]
    · simp [Function.update_of_ne hu, h u, hfree, ownedBy, Ne.symm hu]
  case h_2 o hown =>
    split_ifs at ha with hot
    cases ha
    subst hot
    by_cases hu : u = o
    · subst hu
      simp [h u, hown, ownedBy]
    · simp [Function.update_of_ne hu, h u, hown, ownedBy, Ne.symm hu]

/-- A release by `t` takes one from `t`'s balance. -/
theorem Tracks.release {held : τ → Nat} (h : l.Tracks held) (hr : l.release t = some l') :
    l'.Tracks (Function.update held t (held t - 1)) := by
  intro u
  unfold ReentrantLock.release at hr
  split_ifs at hr with hown hone
  · cases hr
    by_cases hu : u = t
    · subst hu
      simp [h u, hown, hone, free]
    · simp [Function.update_of_ne hu, h u, hown, free, Ne.symm hu]
  · cases hr
    by_cases hu : u = t
    · subst hu
      simp [h u, hown]
    · simp [Function.update_of_ne hu, h u, hown, Ne.symm hu]

/-- Mutual exclusion: at most one thread has a positive balance. -/
theorem Tracks.exclusive {held : τ → Nat} (h : l.Tracks held) (ht : 0 < held t)
    (hu : 0 < held u) : t = u := by
  rw [h t] at ht
  rw [h u] at hu
  split_ifs at ht hu with hot hou
  · exact Option.some.inj (hot.symm.trans hou)
  · omega
  · omega
  · omega

end ReentrantLock

end AndroidArt.Lib
