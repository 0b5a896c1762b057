/-
Module: AndroidArt.Runtime.Mutex
Purpose: The futex build of art::Mutex (runtime/base/mutex.h, mutex.cc): ExclusiveLock,
  ExclusiveTryLock and ExclusiveUnlock run by any number of threads in interleaved steps, one
  step for each load, CAS, fetch_add, fetch_sub and futex call of the source.
Trusted boundary: the memory is sequentially consistent. A CAS that fails, because the word
  changed or spuriously, is a step that changes nothing, so a load and the CAS that succeeds with
  its value are one step. The stores of exclusive_owner_ and of recursion_count_ next to the CAS
  that takes or releases the mutex are part of that step: only the thread that owns the mutex
  reads them as its own. FUTEX_WAIT compares and sleeps atomically and may return at once with
  EINTR; FUTEX_WAKE of one wakes a sleeping thread if there is one. Each thread unlocks only a
  mutex it holds, and fewer than 2^30 threads exist.
Main exports: Mutex, MutexPc, MutexSystem, MutexSystem.step
-/
import AndroidArt.Lib.Interleaving
import AndroidArt.Lib.BitField

namespace AndroidArt.Runtime

open AndroidArt.Lib

/-- The fields of `art::Mutex` that locking reads and writes in the futex build: the word
`state_and_contenders_`, `exclusive_owner_` (`none` for 0) and `recursion_count_`. -/
structure Mutex (τ : Type) where
  stateAndContenders : Nat
  exclusiveOwner : Option τ
  recursionCount : Nat
deriving DecidableEq

namespace Mutex

def kHeldMask : Nat := 1
def kContenderShift : Nat := 1
def kContenderIncrement : Nat := 1 <<< kContenderShift
/-- `~kHeldMask` as the `uint32_t` that `ExclusiveUnlock` computes. -/
def kHeldMaskToggled : Nat := (2 ^ 32 - 1) ^^^ kHeldMask

variable {τ : Type} [DecidableEq τ]

/-- `IsExclusiveHeld`: the owner is the calling thread. -/
def isExclusiveHeld (m : Mutex τ) (self : τ) : Bool :=
  m.exclusiveOwner == some self

/-- The value of the held bit that the owner implies. -/
def heldBit (m : Mutex τ) : Nat :=
  if m.exclusiveOwner = none then 0 else 1

/-- `get_contenders`. -/
def getContenders (m : Mutex τ) : Nat :=
  m.stateAndContenders >>> kContenderShift

/-! ### The word as arithmetic -/

@[simp] theorem kContenderIncrement_eq : kContenderIncrement = 2 := rfl

theorem and_kHeldMask (x : Nat) : x &&& kHeldMask = x % 2 :=
  and_low_mask x 1

theorem or_kHeldMask_of_even {x : Nat} (hx : x % 2 = 0) : x ||| kHeldMask = x + 1 := by
  have hdouble : x = (x / 2) <<< 1 := by
    rw [Nat.shiftLeft_eq]
    omega
  rw [hdouble, Nat.lor_comm, kHeldMask, or_shiftLeft_of_lt _ (by decide : 1 < 2 ^ 1),
    Nat.shiftLeft_eq]
  omega

/-- Clearing the held bit of a word that fits 32 bits leaves the contender field. -/
theorem and_kHeldMaskToggled {x : Nat} (hx : x < 2 ^ 32) : x &&& kHeldMaskToggled = x / 2 * 2 := by
  have hmask : kHeldMaskToggled = ((1 <<< 31) - 1) <<< 1 := by decide
  rw [hmask, and_shiftLeft, shiftRight_and_low_mask, Nat.shiftLeft_eq,
    Nat.mod_eq_of_lt (by omega : x / 2 ^ 1 < 2 ^ 31)]
  rfl

omit [DecidableEq τ] in
theorem getContenders_eq (m : Mutex τ) : m.getContenders = m.stateAndContenders / 2 :=
  Nat.shiftRight_eq_div_pow _ _

end Mutex

/-- Where a thread is in the code of the mutex. -/
inductive MutexPc where
  | idle
  /-- The top of the loop of `ExclusiveLock`. -/
  | lockLoad
  /-- `ExclusiveLock` read the held word `curState`. -/
  | lockContend (curState : Nat)
  /-- Counted as a contender, before `FUTEX_WAIT` on the value `expected`. -/
  | lockWait (expected : Nat)
  /-- Asleep in `FUTEX_WAIT`. -/
  | lockAsleep
  /-- Back from `FUTEX_WAIT`, before `decrement_contenders`. -/
  | lockWoken
  /-- The loop of `ExclusiveTryLock`. -/
  | tryLoad
  /-- The loop of `ExclusiveUnlock`, once the last recursion is released. -/
  | unlockLoad
  /-- Released with contenders, before `FUTEX_WAKE` of one. -/
  | unlockWake
  /-- A `LOG(FATAL)`. -/
  | aborted
deriving DecidableEq, Repr

namespace MutexPc

/-- Between `increment_contenders` and `decrement_contenders`. -/
def contending : MutexPc → Bool
  | .lockWait _ | .lockAsleep | .lockWoken => true
  | _ => false

/-- In the loop of `ExclusiveLock` and not asleep. -/
def awake : MutexPc → Bool
  | .lockLoad | .lockContend _ | .lockWait _ | .lockWoken => true
  | _ => false

end MutexPc

/-- A call a thread makes on the mutex. -/
inductive MutexCall where
  | exclusiveLock
  | exclusiveTryLock
  | exclusiveUnlock
deriving DecidableEq, Repr

/-- What the scheduler decides in a step: the call an idle thread makes, whether a
`FUTEX_WAIT` returns with `EINTR`, and the sleeping thread a `FUTEX_WAKE` wakes. -/
structure MutexChoice (τ : Type) where
  call : MutexCall
  interrupted : Bool
  victim : τ

/-- The mutex, where each thread is, and, as ghost state, each thread's balance of
acquisitions minus releases. -/
structure MutexSystem (τ : Type) where
  mutex : Mutex τ
  pc : τ → MutexPc
  held : τ → Nat

namespace MutexSystem

open Mutex

variable {τ : Type} [DecidableEq τ]

def setPc (sys : MutexSystem τ) (t : τ) (q : MutexPc) : MutexSystem τ :=
  { sys with pc := Function.update sys.pc t q }

def setState (sys : MutexSystem τ) (v : Nat) : MutexSystem τ :=
  { sys with mutex := { sys.mutex with stateAndContenders := v } }

section Simp

variable {sys : MutexSystem τ} {t : τ} {q : MutexPc}

@[simp] theorem setPc_mutex : (sys.setPc t q).mutex = sys.mutex := rfl
@[simp] theorem setPc_held : (sys.setPc t q).held = sys.held := rfl
@[simp] theorem setPc_pc : (sys.setPc t q).pc = Function.update sys.pc t q := rfl

theorem setPc_comm {u : τ} {q' : MutexPc} (h : t ≠ u) :
    (sys.setPc t q).setPc u q' = (sys.setPc u q').setPc t q := by
  simp only [setPc, Function.update_comm h]

omit [DecidableEq τ] in
@[simp] theorem setState_pc (v : Nat) : (sys.setState v).pc = sys.pc := rfl

omit [DecidableEq τ] in
@[simp] theorem setState_held (v : Nat) : (sys.setState v).held = sys.held := rfl

omit [DecidableEq τ] in
@[simp] theorem setState_mutex (v : Nat) :
    (sys.setState v).mutex = { sys.mutex with stateAndContenders := v } := rfl

end Simp

/-- The CAS that takes the mutex writes `v`; the taker becomes the owner with one more
recursion and returns. -/
def acquire (sys : MutexSystem τ) (self : τ) (v : Nat) : MutexSystem τ :=
  { mutex := ⟨v, some self, sys.mutex.recursionCount + 1⟩
    pc := Function.update sys.pc self .idle
    held := Function.update sys.held self (sys.held self + 1) }

/-- `recursion_count_++` of a recursive mutex the caller already holds. -/
def acquireRecursively (sys : MutexSystem τ) (self : τ) : MutexSystem τ :=
  { sys with
    mutex := { sys.mutex with recursionCount := sys.mutex.recursionCount + 1 }
    held := Function.update sys.held self (sys.held self + 1) }

/-- `recursion_count_--` at the start of `ExclusiveUnlock`. -/
def releaseRecursion (sys : MutexSystem τ) (self : τ) : MutexSystem τ :=
  { sys with
    mutex := { sys.mutex with recursionCount := sys.mutex.recursionCount - 1 }
    held := Function.update sys.held self (sys.held self - 1) }

/-- The CAS that releases the mutex writes `v`, and the owner is cleared. -/
def release (sys : MutexSystem τ) (v : Nat) : MutexSystem τ :=
  { sys with mutex := { sys.mutex with stateAndContenders := v, exclusiveOwner := none } }

/-- `FUTEX_WAKE` of one, which wakes `victim` if it sleeps. -/
def wakeOne (sys : MutexSystem τ) (victim : τ) : MutexSystem τ :=
  if sys.pc victim = .lockAsleep then sys.setPc victim .lockWoken else sys

variable (recursive : Bool)

/-- One step of the thread `self`: the next action of the call it is in, or the call it makes
when idle.  `recursive` is the mutex's `recursive_`. -/
def step (sys : MutexSystem τ) (self : τ) (ch : MutexChoice τ) : MutexSystem τ :=
  let m := sys.mutex
  match sys.pc self with
  | .idle =>
    match ch.call with
    | .exclusiveLock =>
      if !recursive || !m.isExclusiveHeld self then sys.setPc self .lockLoad
      else sys.acquireRecursively self
    | .exclusiveTryLock =>
      if !recursive || !m.isExclusiveHeld self then sys.setPc self .tryLoad
      else sys.acquireRecursively self
    | .exclusiveUnlock =>
      let sys' := sys.releaseRecursion self
      if !recursive || sys'.mutex.recursionCount == 0 then sys'.setPc self .unlockLoad else sys'
  | .lockLoad =>
    let curState := m.stateAndContenders
    if curState &&& kHeldMask == 0 then sys.acquire self (curState ||| kHeldMask)
    else sys.setPc self (.lockContend curState)
  | .lockContend curState =>
    -- `increment_contenders`, and the expected value follows it
    (sys.setState (m.stateAndContenders + kContenderIncrement)).setPc self
      (.lockWait (curState + kContenderIncrement))
  | .lockWait expected =>
    -- `FUTEX_WAIT` sleeps only while the word still has the expected value
    if !ch.interrupted && m.stateAndContenders == expected then sys.setPc self .lockAsleep
    else sys.setPc self .lockWoken
  | .lockAsleep => if ch.interrupted then sys.setPc self .lockWoken else sys
  | .lockWoken =>
    (sys.setState (m.stateAndContenders - kContenderIncrement)).setPc self .lockLoad
  | .tryLoad =>
    let curState := m.stateAndContenders
    if curState &&& kHeldMask == 0 then sys.acquire self (curState ||| kHeldMask)
    else sys.setPc self .idle
  | .unlockLoad =>
    let curState := m.stateAndContenders
    if curState &&& kHeldMask != 0 then
      let newState := curState &&& kHeldMaskToggled
      (sys.release newState).setPc self (if newState != 0 then .unlockWake else .idle)
    else sys.setPc self .aborted
  | .unlockWake => (sys.setPc self .idle).wakeOne ch.victim
  | .aborted => sys

/-- A choice the source allows: a thread unlocks only what it holds, and a `FUTEX_WAKE` of one
wakes a sleeping thread if there is one. -/
def choiceValid (sys : MutexSystem τ) (self : τ) (ch : MutexChoice τ) : Prop :=
  (sys.pc self = .idle → ch.call = .exclusiveUnlock → 0 < sys.held self) ∧
    (sys.pc self = .unlockWake → (∃ u, sys.pc u = .lockAsleep) → sys.pc ch.victim = .lockAsleep)

/-- A new mutex, with every thread idle. -/
def init : MutexSystem τ :=
  ⟨⟨0, none, 0⟩, fun _ => .idle, fun _ => 0⟩

end MutexSystem

/-- The systems that some interleaving of steps with valid choices reaches from a new mutex. -/
def MutexReachable {τ : Type} [DecidableEq τ] (recursive : Bool) : MutexSystem τ → Prop :=
  Lib.Reachable (· = MutexSystem.init) fun sys sys' =>
    ∃ self ch, sys.choiceValid self ch ∧ sys' = sys.step recursive self ch

/-- What the place `q` of thread `t` asks of the mutex: a thread in the loop of
`ExclusiveUnlock` owns it with no recursion left, a contender saw the held bit, and no thread
is past a `LOG(FATAL)`. -/
def Mutex.LocalOk {τ : Type} (m : Mutex τ) (t : τ) : MutexPc → Prop
  | .unlockLoad => m.exclusiveOwner = some t ∧ m.recursionCount = 0
  | .lockContend curState => curState % 2 = 1
  | .lockWait expected => expected % 2 = 1
  | .aborted => False
  | _ => True

namespace Mutex

variable {τ : Type} {m m' : Mutex τ} {t : τ} {q : MutexPc}

-- the facts below go through every place, each of which simp reads off the definition
attribute [local simp] LocalOk

/-- Only the owner and the count matter to a place. -/
theorem localOk_congr (howner : m'.exclusiveOwner = m.exclusiveOwner)
    (hcount : m'.recursionCount = m.recursionCount) (h : m.LocalOk t q) : m'.LocalOk t q := by
  cases q <;> simp_all

/-- Outside the loop of `ExclusiveUnlock`, a place asks nothing of the owner or the count. -/
theorem localOk_of_ne_unlockLoad (hq : q ≠ .unlockLoad) (h : m.LocalOk t q) : m'.LocalOk t q := by
  cases q <;> simp_all

end Mutex

namespace MutexSystem

open Mutex

variable {τ : Type} [DecidableEq τ]

/-- The threads between `increment_contenders` and `decrement_contenders`. -/
def contenders [Fintype τ] (sys : MutexSystem τ) : Nat :=
  census (fun q => q.contending = true) sys.pc

/-- No wake-up is lost: while a thread sleeps, the mutex is held (its release will see the
sleeper among the contenders and wake one), or a wake is about to be made, or an awake thread
will take the mutex or sleep while it is held. -/
def NoLostWakeup (sys : MutexSystem τ) : Prop :=
  (∃ t, sys.pc t = .lockAsleep) →
    sys.mutex.exclusiveOwner ≠ none ∨ (∃ r, sys.pc r = .unlockWake) ∨ ∃ c, (sys.pc c).awake = true

variable [Fintype τ] (recursive : Bool)

/-- The invariant of every interleaving. -/
structure Inv (sys : MutexSystem τ) : Prop where
  /-- The word is the held bit of the owner and twice the number of contenders. -/
  state_eq : sys.mutex.stateAndContenders = sys.mutex.heldBit + 2 * sys.contenders
  /-- The owner's balance is `recursion_count_`, every other thread's zero. -/
  tracks : ∀ t, sys.held t = if sys.mutex.exclusiveOwner = some t then sys.mutex.recursionCount else 0
  count_free : sys.mutex.exclusiveOwner = none → sys.mutex.recursionCount = 0
  count_le_one : recursive = false → sys.mutex.recursionCount ≤ 1
  localOk : ∀ t, sys.mutex.LocalOk t (sys.pc t)
  noLostWakeup : sys.NoLostWakeup

section Support

variable {recursive : Bool} {sys : MutexSystem τ} {t : τ} {q : MutexPc}

omit [DecidableEq τ] [Fintype τ] in
theorem heldBit_le_one (m : Mutex τ) : m.heldBit ≤ 1 := by
  unfold heldBit
  split <;> omega

omit [DecidableEq τ] [Fintype τ] in
theorem heldBit_eq_zero_iff (m : Mutex τ) : m.heldBit = 0 ↔ m.exclusiveOwner = none := by
  unfold heldBit
  split <;> simp_all

/-- The held bit of the word is the owner's. -/
theorem Inv.state_mod (hi : sys.Inv recursive) :
    sys.mutex.stateAndContenders % 2 = sys.mutex.heldBit := by
  have hbit := heldBit_le_one sys.mutex
  rw [hi.state_eq]
  omega

theorem Inv.free_iff (hi : sys.Inv recursive) :
    sys.mutex.stateAndContenders &&& kHeldMask = 0 ↔ sys.mutex.exclusiveOwner = none := by
  rw [and_kHeldMask, hi.state_mod, heldBit_eq_zero_iff]

/-- With fewer than `2^30` threads the word fits its 32 bits. -/
theorem Inv.state_lt (hcard : Fintype.card τ < 2 ^ 30) (hi : sys.Inv recursive) :
    sys.mutex.stateAndContenders < 2 ^ 32 := by
  have hc : sys.contenders ≤ Fintype.card τ := census_le_card
  have hbit := heldBit_le_one sys.mutex
  rw [hi.state_eq]
  omega

omit [DecidableEq τ] [Fintype τ] in
theorem noLostWakeup_of_awake (c : τ) (hc : (sys.pc c).awake = true) : sys.NoLostWakeup :=
  fun _ => .inr (.inr ⟨c, hc⟩)

omit [DecidableEq τ] [Fintype τ] in
theorem noLostWakeup_of_owner (hown : sys.mutex.exclusiveOwner ≠ none) : sys.NoLostWakeup :=
  fun _ => .inl hown

omit [Fintype τ] in
/-- What holds of every place still holds after `t` moves to a place where it holds. -/
theorem localOk_setPc (hq : sys.mutex.LocalOk t q) (h : ∀ u, sys.mutex.LocalOk u (sys.pc u)) :
    ∀ u, (sys.setPc t q).mutex.LocalOk u ((sys.setPc t q).pc u) := by
  intro u
  by_cases hut : u = t
  · subst hut
    simpa using hq
  · simpa [Function.update_of_ne hut] using h u

omit [Fintype τ] in
/-- A thread that neither sleeps, nor is about to wake, nor tries to lock can move anywhere but
into sleep without losing a wake-up. -/
theorem NoLostWakeup.setPc (h : sys.NoLostWakeup) (hq : q ≠ .lockAsleep)
    (hwake : sys.pc t ≠ .unlockWake) (hawake : (sys.pc t).awake = false) :
    (sys.setPc t q).NoLostWakeup := by
  rintro ⟨u, hu⟩
  have hut : u ≠ t := by
    rintro rfl
    simp [hq] at hu
  rw [setPc_pc, Function.update_of_ne hut] at hu
  rcases h ⟨u, hu⟩ with hown | ⟨r, hr⟩ | ⟨c, hc⟩
  · exact .inl hown
  · have hrt : r ≠ t := by
      rintro rfl
      exact hwake hr
    exact .inr (.inl ⟨r, by rw [setPc_pc, Function.update_of_ne hrt]; exact hr⟩)
  · have hct : c ≠ t := by
      rintro rfl
      rw [hawake] at hc
      cases hc
    exact .inr (.inr ⟨c, by rw [setPc_pc, Function.update_of_ne hct]; exact hc⟩)

/-- Moving one thread keeps the invariant when the mutex and the balances stay, the thread
stays inside or outside the contender window, and its new place is one the mutex allows. -/
theorem Inv.setPc_of (hi : sys.Inv recursive) (hcont : q.contending = (sys.pc t).contending)
    (hq : sys.mutex.LocalOk t q) (hwake : (sys.setPc t q).NoLostWakeup) :
    (sys.setPc t q).Inv recursive where
  state_eq := by
    have hsame : (sys.setPc t q).contenders = sys.contenders :=
      census_update_of_iff (by rw [hcont])
    rw [hsame, setPc_mutex]
    exact hi.state_eq
  tracks := hi.tracks
  count_free := hi.count_free
  count_le_one := hi.count_le_one
  localOk := localOk_setPc hq hi.localOk
  noLostWakeup := hwake

/-- Moving one thread and writing the word `v` keeps the invariant when `v` is the held bit and
twice the contenders after the move. -/
theorem Inv.setStatePc_of (hi : sys.Inv recursive) {v : Nat}
    (hstate : v = sys.mutex.heldBit + 2 * (sys.setPc t q).contenders)
    (hq : sys.mutex.LocalOk t q) (hwake : (sys.setPc t q).NoLostWakeup) :
    ((sys.setState v).setPc t q).Inv recursive where
  state_eq := hstate
  tracks := hi.tracks
  count_free := hi.count_free
  count_le_one := hi.count_le_one
  localOk := localOk_setPc hq hi.localOk
  noLostWakeup := hwake

end Support

section Steps

variable {recursive : Bool} {sys : MutexSystem τ} {self : τ}

-- whether a place contends or is awake is read off the place by simp
attribute [local simp] MutexPc.contending MutexPc.awake

/-- Only the owner can be in the loop of `ExclusiveUnlock`, so none is while the owner is
elsewhere. -/
theorem Inv.not_unlockLoad (hi : sys.Inv recursive) {owner : τ}
    (hown : sys.mutex.exclusiveOwner = some owner) (hpc : sys.pc owner ≠ .unlockLoad) (u : τ) :
    sys.pc u ≠ .unlockLoad := by
  intro hu
  have hok := hi.localOk u
  rw [hu] at hok
  have hu' : u = owner := Option.some.inj (hok.1.symm.trans hown)
  exact hpc (hu' ▸ hu)

/-- The owner, idle, takes a recursive mutex once more. -/
theorem Inv.acquireRecursively (hi : sys.Inv recursive) (hrec : recursive = true)
    (hpc : sys.pc self = .idle) (hown : sys.mutex.exclusiveOwner = some self) :
    (sys.acquireRecursively self).Inv recursive where
  state_eq := hi.state_eq
  tracks u := by
    by_cases hu : u = self
    · subst hu
      simp [MutexSystem.acquireRecursively, hi.tracks u, hown]
    · have hne : sys.mutex.exclusiveOwner ≠ some u := by
        rw [hown]
        exact fun h => hu (Option.some.inj h).symm
      simp [MutexSystem.acquireRecursively, Function.update_of_ne hu, hi.tracks u, hne]
  count_free h := absurd h (by simp [MutexSystem.acquireRecursively, hown])
  count_le_one h := absurd hrec (by simp [h])
  localOk u := by
    have hnot := hi.not_unlockLoad hown (by rw [hpc]; simp) u
    exact Mutex.localOk_of_ne_unlockLoad hnot (hi.localOk u)
  noLostWakeup := noLostWakeup_of_owner (by simp [MutexSystem.acquireRecursively, hown])

/-- The CAS that finds the held bit clear takes the mutex. -/
theorem Inv.acquire (hi : sys.Inv recursive) (hcont : (sys.pc self).contending = false)
    (hfree : sys.mutex.exclusiveOwner = none) :
    (sys.acquire self (sys.mutex.stateAndContenders ||| kHeldMask)).Inv recursive where
  state_eq := by
    have heven : sys.mutex.stateAndContenders % 2 = 0 := by
      rw [hi.state_mod, (heldBit_eq_zero_iff _).mpr hfree]
    have hsame : (sys.acquire self (sys.mutex.stateAndContenders ||| kHeldMask)).contenders =
        sys.contenders := census_update_of_iff (by rw [hcont]; rfl)
    rw [hsame, or_kHeldMask_of_even heven, hi.state_eq, (heldBit_eq_zero_iff _).mpr hfree]
    simp [MutexSystem.acquire, heldBit]
    omega
  tracks u := by
    have hzero : sys.held u = 0 := by simp [hi.tracks u, hfree]
    by_cases hu : u = self
    · subst hu
      simp [MutexSystem.acquire, hzero, hi.count_free hfree]
    · have hne : some self ≠ some u := fun h => hu (Option.some.inj h).symm
      simp [MutexSystem.acquire, Function.update_of_ne hu, hzero, hne]
  count_free h := by simp [MutexSystem.acquire] at h
  count_le_one _ := by simp [MutexSystem.acquire, hi.count_free hfree]
  localOk := by
    intro u
    by_cases hu : u = self
    · subst hu
      simp [MutexSystem.acquire, LocalOk]
    · -- nobody releases a free mutex
      have hnot : sys.pc u ≠ .unlockLoad := by
        intro h
        have hok := hi.localOk u
        rw [h] at hok
        have howner : sys.mutex.exclusiveOwner = some u := hok.1
        rw [hfree] at howner
        cases howner
      have hpc : (sys.acquire self (sys.mutex.stateAndContenders ||| kHeldMask)).pc u = sys.pc u :=
        Function.update_of_ne hu _ _
      rw [hpc]
      exact Mutex.localOk_of_ne_unlockLoad hnot (hi.localOk u)
  noLostWakeup := noLostWakeup_of_owner (by simp [MutexSystem.acquire])

/-- The CAS loops of `ExclusiveLock` and `ExclusiveTryLock`: a clear held bit is taken, a set
one sends the thread on. -/
theorem Inv.load (hi : sys.Inv recursive) (hcont : (sys.pc self).contending = false)
    (next : Nat → MutexPc) (hnext : ∀ cur, cur % 2 = 1 → sys.mutex.exclusiveOwner ≠ none →
      (next cur).contending = false ∧ sys.mutex.LocalOk self (next cur) ∧
        (sys.mutex.exclusiveOwner ≠ none ∨ (next cur).awake = true)) :
    (if sys.mutex.stateAndContenders &&& kHeldMask == 0 then
        sys.acquire self (sys.mutex.stateAndContenders ||| kHeldMask)
      else sys.setPc self (next sys.mutex.stateAndContenders)).Inv recursive := by
  split_ifs with hbit
  · exact hi.acquire hcont ((hi.free_iff).mp (by simpa using hbit))
  · have hodd : sys.mutex.stateAndContenders % 2 = 1 := by
      have hne : sys.mutex.stateAndContenders &&& kHeldMask ≠ 0 := by simpa using hbit
      rw [and_kHeldMask] at hne
      omega
    have hown : sys.mutex.exclusiveOwner ≠ none := by
      intro hnone
      exact hbit (by simpa using (hi.free_iff).mpr hnone)
    obtain ⟨hc, hok, hwake⟩ := hnext _ hodd hown
    refine hi.setPc_of (by rw [hc, hcont]) hok ?_
    rcases hwake with hown | hawake
    · exact noLostWakeup_of_owner hown
    · exact noLostWakeup_of_awake self (by simpa using hawake)

/-- `recursion_count_--` by the owner. -/
theorem Inv.releaseRecursion (hi : sys.Inv recursive) (hpc : sys.pc self = .idle)
    (hown : sys.mutex.exclusiveOwner = some self) :
    (sys.releaseRecursion self).Inv recursive where
  state_eq := hi.state_eq
  tracks u := by
    by_cases hu : u = self
    · subst hu
      simp [MutexSystem.releaseRecursion, hi.tracks u, hown]
    · have hne : sys.mutex.exclusiveOwner ≠ some u := by
        rw [hown]
        exact fun h => hu (Option.some.inj h).symm
      simp [MutexSystem.releaseRecursion, Function.update_of_ne hu, hi.tracks u, hne]
  count_free h := absurd h (by simp [MutexSystem.releaseRecursion, hown])
  count_le_one h := (Nat.sub_le _ _).trans (hi.count_le_one h)
  localOk u := by
    have hnot := hi.not_unlockLoad hown (by rw [hpc]; simp) u
    exact Mutex.localOk_of_ne_unlockLoad hnot (hi.localOk u)
  noLostWakeup := noLostWakeup_of_owner (by simp [MutexSystem.releaseRecursion, hown])

/-- The start of `ExclusiveUnlock` by the owner: the last recursion goes on to the release
loop. -/
theorem Inv.unlockCall (hi : sys.Inv recursive) (hpc : sys.pc self = .idle)
    (hheld : 0 < sys.held self) :
    (if !recursive || (sys.releaseRecursion self).mutex.recursionCount == 0 then
        (sys.releaseRecursion self).setPc self .unlockLoad
      else sys.releaseRecursion self).Inv recursive := by
  -- a thread with a positive balance owns the mutex, at that depth
  have hown : sys.mutex.exclusiveOwner = some self := by
    by_contra hne
    have := hi.tracks self
    rw [if_neg hne] at this
    omega
  have hcount : sys.held self = sys.mutex.recursionCount := by
    rw [hi.tracks self, if_pos hown]
  have hi' := hi.releaseRecursion hpc hown
  split_ifs with hlast
  · have hzero : sys.mutex.recursionCount - 1 = 0 := by
      cases hrec : recursive
      · have := hi.count_le_one hrec
        omega
      · simpa [hrec, MutexSystem.releaseRecursion] using hlast
    refine hi'.setPc_of (by rw [MutexSystem.releaseRecursion, hpc]; rfl) ?_ ?_
    · exact ⟨by simp [MutexSystem.releaseRecursion, hown], hzero⟩
    · exact noLostWakeup_of_owner (by simp [MutexSystem.releaseRecursion, hown])
  · exact hi'

theorem Inv.lockContend (hi : sys.Inv recursive) {curState : Nat}
    (hpc : sys.pc self = .lockContend curState) :
    ((sys.setState (sys.mutex.stateAndContenders + kContenderIncrement)).setPc self
      (.lockWait (curState + kContenderIncrement))).Inv recursive := by
  have hodd : curState % 2 = 1 := by
    have hok := hi.localOk self
    rw [hpc] at hok
    exact hok
  -- the thread enters the contender window
  have henter : (sys.setPc self (.lockWait (curState + kContenderIncrement))).contenders =
      sys.contenders + 1 :=
    census_update_enter (by rw [hpc]; simp) (by simp)
  refine hi.setStatePc_of ?_ ?_ (noLostWakeup_of_awake self (by simp))
  · rw [henter, hi.state_eq, kContenderIncrement_eq]
    omega
  · show (curState + kContenderIncrement) % 2 = 1
    rw [kContenderIncrement_eq]
    omega

theorem Inv.lockWait (hi : sys.Inv recursive) {expected : Nat}
    (hpc : sys.pc self = .lockWait expected) (interrupted : Bool) :
    (if !interrupted && sys.mutex.stateAndContenders == expected then sys.setPc self .lockAsleep
      else sys.setPc self .lockWoken).Inv recursive := by
  split_ifs with hsleep
  · -- `FUTEX_WAIT` sleeps only on a word whose held bit is set
    have heq : sys.mutex.stateAndContenders = expected := by
      simp only [Bool.and_eq_true, Bool.not_eq_true', beq_iff_eq] at hsleep
      exact hsleep.2
    have hodd : expected % 2 = 1 := by
      have hok := hi.localOk self
      rw [hpc] at hok
      exact hok
    have hown : sys.mutex.exclusiveOwner ≠ none := by
      intro hnone
      rw [← heldBit_eq_zero_iff] at hnone
      have := hi.state_mod
      omega
    exact hi.setPc_of (by rw [hpc]; rfl) trivial (noLostWakeup_of_owner hown)
  · exact hi.setPc_of (by rw [hpc]; rfl) trivial
      (noLostWakeup_of_awake self (by simp))

theorem Inv.lockWoken (hi : sys.Inv recursive) (hpc : sys.pc self = .lockWoken) :
    ((sys.setState (sys.mutex.stateAndContenders - kContenderIncrement)).setPc self
      .lockLoad).Inv recursive := by
  -- the thread leaves the contender window
  have hleave : (sys.setPc self .lockLoad).contenders + 1 = sys.contenders :=
    census_update_leave (by rw [hpc]; rfl) (by simp)
  refine hi.setStatePc_of ?_ trivial (noLostWakeup_of_awake self (by simp))
  rw [hi.state_eq, kContenderIncrement_eq, ← hleave]
  omega

/-- The release CAS of the owner, which wakes one sleeper when contenders remain. -/
theorem Inv.unlockLoad (hcard : Fintype.card τ < 2 ^ 30) (hi : sys.Inv recursive)
    (hpc : sys.pc self = .unlockLoad) :
    (if sys.mutex.stateAndContenders &&& kHeldMask != 0 then
        (sys.release (sys.mutex.stateAndContenders &&& kHeldMaskToggled)).setPc self
          (if sys.mutex.stateAndContenders &&& kHeldMaskToggled != 0 then .unlockWake else .idle)
      else sys.setPc self .aborted).Inv recursive := by
  have hok := hi.localOk self
  rw [hpc] at hok
  obtain ⟨hown, hzero⟩ := hok
  have hheld : (sys.mutex.stateAndContenders &&& kHeldMask != 0) = true := by
    have hne : sys.mutex.stateAndContenders &&& kHeldMask ≠ 0 := by
      rw [Ne, hi.free_iff, hown]
      simp
    simpa using hne
  -- clearing the held bit leaves twice the contenders
  have hnew : sys.mutex.stateAndContenders &&& kHeldMaskToggled = 2 * sys.contenders := by
    have hbit : sys.mutex.heldBit = 1 := by simp [heldBit, hown]
    rw [and_kHeldMaskToggled (hi.state_lt hcard), hi.state_eq, hbit]
    omega
  rw [if_pos hheld, hnew]
  have hcont : (if 2 * sys.contenders != 0 then MutexPc.unlockWake else .idle).contending = false := by
    split <;> rfl
  have hsame : ((sys.release (2 * sys.contenders)).setPc self
      (if 2 * sys.contenders != 0 then .unlockWake else .idle)).contenders = sys.contenders :=
    census_update_of_iff (by rw [hcont]; simp [MutexSystem.release, hpc])
  exact {
    state_eq := by
      rw [hsame]
      simp [MutexSystem.release, heldBit]
    tracks := fun u => by
      have hu := hi.tracks u
      by_cases hsu : some self = some u
      · simp_all [MutexSystem.release]
      · simp_all [MutexSystem.release]
    count_free := fun _ => by simpa [MutexSystem.release] using hzero
    count_le_one := fun _ => by simp [MutexSystem.release, hzero]
    localOk := by
      intro u
      by_cases hu : u = self
      · subst hu
        simp only [setPc_pc, Function.update_self]
        split <;> trivial
      · -- only the owner releases
        have hnot : sys.pc u ≠ .unlockLoad := by
          intro hu'
          have hok' := hi.localOk u
          rw [hu'] at hok'
          exact hu (Option.some.inj (hok'.1.symm.trans hown))
        simp only [setPc_pc, Function.update_of_ne hu]
        exact Mutex.localOk_of_ne_unlockLoad hnot (hi.localOk u)
    noLostWakeup := by
      rintro ⟨u, hu⟩
      -- a sleeper is a contender, so the release wakes one
      have hsleeper : sys.pc u = .lockAsleep := by
        have hut : u ≠ self := by
          rintro rfl
          simp only [setPc_pc, Function.update_self] at hu
          split at hu <;> cases hu
        simpa [Function.update_of_ne hut, MutexSystem.release] using hu
      have hpos : 0 < sys.contenders := census_pos (by rw [hsleeper]; rfl)
      refine .inr (.inl ⟨self, ?_⟩)
      simp only [setPc_pc, Function.update_self]
      rw [if_pos (by simpa using Nat.pos_iff_ne_zero.mp (by omega : 0 < 2 * sys.contenders))] }

/-- `FUTEX_WAKE` of one: the sleeper it wakes is awake again. -/
theorem Inv.unlockWake (hi : sys.Inv recursive) (hpc : sys.pc self = .unlockWake) {victim : τ}
    (hvictim : (∃ u, sys.pc u = .lockAsleep) → sys.pc victim = .lockAsleep) :
    ((sys.setPc self .idle).wakeOne victim).Inv recursive := by
  by_cases hasleep : sys.pc victim = .lockAsleep
  · have hne : self ≠ victim := by
      rintro rfl
      rw [hpc] at hasleep
      cases hasleep
    have hwoken : (sys.setPc self .idle).wakeOne victim =
        (sys.setPc victim .lockWoken).setPc self .idle := by
      rw [wakeOne, if_pos (by rw [setPc_pc, Function.update_of_ne (Ne.symm hne)]; exact hasleep),
        setPc_comm hne]
    rw [hwoken]
    -- the woken thread is awake, before and after the waker returns
    have hi' : (sys.setPc victim .lockWoken).Inv recursive :=
      hi.setPc_of (by rw [hasleep]; rfl) trivial
        (noLostWakeup_of_awake victim (by simp))
    exact hi'.setPc_of (by simp [Function.update_of_ne hne, hpc]) trivial
      (noLostWakeup_of_awake victim (by simp [Function.update_of_ne (Ne.symm hne)]))
  · -- nobody sleeps: the wake finds no one
    have hnone : ∀ u, sys.pc u ≠ .lockAsleep := fun u hu => hasleep (hvictim ⟨u, hu⟩)
    have hwoken : (sys.setPc self .idle).wakeOne victim = sys.setPc self .idle := by
      rw [wakeOne, if_neg]
      by_cases hv : victim = self
      · subst hv
        simp
      · rw [setPc_pc, Function.update_of_ne hv]
        exact hasleep
    rw [hwoken]
    refine hi.setPc_of (by rw [hpc]; rfl) trivial ?_
    rintro ⟨u, hu⟩
    by_cases hu' : u = self
    · subst hu'
      simp at hu
    · rw [setPc_pc, Function.update_of_ne hu'] at hu
      exact absurd hu (hnone u)

/-- Every step with a valid choice keeps the invariant. -/
theorem Inv.step (hcard : Fintype.card τ < 2 ^ 30) (hi : sys.Inv recursive) {ch : MutexChoice τ}
    (hch : sys.choiceValid self ch) : (sys.step recursive self ch).Inv recursive := by
  cases hpc : sys.pc self with
  | idle =>
    -- an idle thread neither sleeps, wakes nor tries to lock
    have hidle : sys.pc self ≠ .unlockWake ∧ (sys.pc self).awake = false := by
      rw [hpc]
      exact ⟨by simp, rfl⟩
    cases hcall : ch.call with
    | exclusiveLock =>
      simp only [MutexSystem.step, hpc, hcall]
      split_ifs with hpath
      · exact hi.setPc_of (by rw [hpc]; rfl) trivial
          (noLostWakeup_of_awake self (by simp))
      · simp only [Bool.or_eq_true, Bool.not_eq_true', Bool.not_eq_false, not_or,
          Bool.not_eq_false] at hpath
        exact hi.acquireRecursively (by simpa using hpath.1) hpc (by simpa [isExclusiveHeld] using hpath.2)
    | exclusiveTryLock =>
      simp only [MutexSystem.step, hpc, hcall]
      split_ifs with hpath
      · exact hi.setPc_of (by rw [hpc]; rfl) trivial
          (hi.noLostWakeup.setPc (by simp) hidle.1 hidle.2)
      · simp only [Bool.or_eq_true, Bool.not_eq_true', Bool.not_eq_false, not_or,
          Bool.not_eq_false] at hpath
        exact hi.acquireRecursively (by simpa using hpath.1) hpc (by simpa [isExclusiveHeld] using hpath.2)
    | exclusiveUnlock =>
      simp only [MutexSystem.step, hpc, hcall]
      exact hi.unlockCall hpc (hch.1 hpc hcall)
  | lockLoad =>
    simp only [MutexSystem.step, hpc]
    exact hi.load (by rw [hpc]; rfl) MutexPc.lockContend fun _ hcur _ => ⟨rfl, hcur, .inr rfl⟩
  | lockContend curState =>
    simp only [MutexSystem.step, hpc]
    exact hi.lockContend hpc
  | lockWait expected =>
    simp only [MutexSystem.step, hpc]
    exact hi.lockWait hpc ch.interrupted
  | lockAsleep =>
    simp only [MutexSystem.step, hpc]
    split_ifs
    · exact hi.setPc_of (by rw [hpc]; rfl) trivial
        (noLostWakeup_of_awake self (by simp))
    · exact hi
  | lockWoken =>
    simp only [MutexSystem.step, hpc]
    exact hi.lockWoken hpc
  | tryLoad =>
    simp only [MutexSystem.step, hpc]
    exact hi.load (by rw [hpc]; rfl) (fun _ => .idle) fun _ _ hown => ⟨rfl, trivial, .inl hown⟩
  | unlockLoad =>
    simp only [MutexSystem.step, hpc]
    exact hi.unlockLoad hcard hpc
  | unlockWake =>
    simp only [MutexSystem.step, hpc]
    exact hi.unlockWake hpc (hch.2 hpc)
  | aborted =>
    have hok := hi.localOk self
    rw [hpc] at hok
    exact hok.elim

theorem inv_init : (init : MutexSystem τ).Inv recursive where
  state_eq := by
    have hzero : (init : MutexSystem τ).contenders = 0 :=
      census_eq_zero_iff.mpr fun _ => by simp [init]
    rw [hzero]
    rfl
  tracks _ := by simp [init]
  count_free _ := rfl
  count_le_one _ := Nat.zero_le _
  localOk _ := trivial
  noLostWakeup := by
    rintro ⟨u, hu⟩
    cases hu

/-- The invariant holds in every reachable system. -/
theorem inv_of_reachable (hcard : Fintype.card τ < 2 ^ 30) {sys : MutexSystem τ}
    (hr : MutexReachable recursive sys) : sys.Inv recursive := by
  refine Lib.Reachable.invariant ?_ ?_ hr
  · rintro s rfl
    exact inv_init
  · rintro s s' hi ⟨self, ch, hch, rfl⟩
    exact hi.step hcard hch

end Steps

/-- What the futex mutex guarantees in a system. -/
structure Safe (sys : MutexSystem τ) : Prop where
  /-- The held bit is set exactly when the mutex has an exclusive owner. -/
  held_iff : sys.mutex.stateAndContenders &&& kHeldMask ≠ 0 ↔ sys.mutex.exclusiveOwner ≠ none
  /-- The owner's balance of acquisitions is `recursion_count_`, and no other thread has one. -/
  recursion : ∀ t,
    sys.held t = if sys.mutex.exclusiveOwner = some t then sys.mutex.recursionCount else 0
  /-- The contender field counts the threads between `increment_contenders` and
  `decrement_contenders`. -/
  contenders_eq : sys.mutex.getContenders = census (fun q => q.contending = true) sys.pc
  not_aborted : ∀ t, sys.pc t ≠ .aborted
  noLostWakeup : sys.NoLostWakeup

theorem safe_of_reachable {recursive : Bool} (hcard : Fintype.card τ < 2 ^ 30)
    {sys : MutexSystem τ} (hr : MutexReachable recursive sys) : sys.Safe := by
  have hi := inv_of_reachable hcard hr
  refine ⟨by rw [Ne, hi.free_iff], hi.tracks, ?_, ?_, hi.noLostWakeup⟩
  · have hbit := heldBit_le_one sys.mutex
    change sys.mutex.getContenders = sys.contenders
    rw [getContenders_eq, hi.state_eq]
    omega
  · intro t habort
    have hok := hi.localOk t
    rw [habort] at hok
    exact hok

end MutexSystem

end AndroidArt.Runtime
