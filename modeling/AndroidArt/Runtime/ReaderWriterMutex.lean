/-
Module: AndroidArt.Runtime.ReaderWriterMutex
Purpose: The futex build of art::ReaderWriterMutex (runtime/base/mutex.cc, mutex-inl.h):
  ExclusiveLock, ExclusiveLockWithTimeout, ExclusiveUnlock, SharedLock (with
  HandleSharedLockContention), SharedTryLock and SharedUnlock run by any number of threads in
  interleaved steps, one step for each load, CAS, counter update and futex call of the source.
Trusted boundary: as for Mutex: sequentially consistent memory, a failed CAS is a step that
  changes nothing, the stores of exclusive_owner_ next to a CAS are part of its step, and
  FUTEX_WAIT compares and sleeps atomically and may return with EINTR (or ETIMEDOUT when it has a
  timeout, which a timed wait may also meet before it sleeps). FUTEX_WAKE of all wakes every
  thread asleep on state_. Each thread unlocks only what it holds.
Main exports: ReaderWriterMutex, RwPc, RwSystem, RwSystem.step
-/
import AndroidArt.Runtime.Mutex

namespace AndroidArt.Runtime

open AndroidArt.Lib

/-- The fields of `art::ReaderWriterMutex` that locking reads and writes in the futex build. -/
structure ReaderWriterMutex (τ : Type) where
  state : Int
  exclusiveOwner : Option τ
  numPendingReaders : Nat
  numPendingWriters : Nat
deriving DecidableEq

/-- Where a thread is in the code of the reader-writer mutex.  `timed` marks the loop of
`ExclusiveLockWithTimeout`. -/
inductive RwPc where
  | idle
  /-- The top of the loop of `ExclusiveLock` or `ExclusiveLockWithTimeout`. -/
  | exclusiveLoad (timed : Bool)
  /-- It read the nonzero state `curState`, before `++num_pending_writers_`. -/
  | exclusiveContend (timed : Bool) (curState : Int)
  /-- A pending writer, before `FUTEX_WAIT` on `curState`. -/
  | exclusiveWait (timed : Bool) (curState : Int)
  | exclusiveAsleep (timed : Bool)
  /-- Back from `FUTEX_WAIT`, before `--num_pending_writers_`; `timedOut` if it returns false. -/
  | exclusiveWoken (timed timedOut : Bool)
  /-- The top of the loop of `SharedLock`. -/
  | sharedLoad
  /-- `HandleSharedLockContention` of the negative state `curState`, before
  `++num_pending_readers_`. -/
  | sharedContend (curState : Int)
  | sharedWait (curState : Int)
  | sharedAsleep
  | sharedWoken
  /-- The loop of `SharedTryLock`. -/
  | sharedTryLoad
  /-- The loop of `ExclusiveUnlock`. -/
  | exclusiveUnlockLoad
  /-- `ExclusiveUnlock` after its CAS, before it loads `num_pending_readers_`. -/
  | exclusiveUnlockReaders
  | exclusiveUnlockWriters
  /-- The loop of `SharedUnlock`. -/
  | sharedUnlockLoad
  /-- `SharedUnlock` after the CAS to 0, before it loads `num_pending_writers_`. -/
  | sharedUnlockWriters
  | sharedUnlockReaders
  /-- Before `FUTEX_WAKE` of all. -/
  | wakeAll
  /-- A `LOG(FATAL)`. -/
  | aborted
deriving DecidableEq, Repr

namespace RwPc

/-- Between `++num_pending_writers_` and `--num_pending_writers_`. -/
def pendingWriter : RwPc → Bool
  | .exclusiveWait _ _ | .exclusiveAsleep _ | .exclusiveWoken _ _ => true
  | _ => false

/-- Between `++num_pending_readers_` and `--num_pending_readers_`. -/
def pendingReader : RwPc → Bool
  | .sharedWait _ | .sharedAsleep | .sharedWoken => true
  | _ => false

def asleep : RwPc → Bool
  | .exclusiveAsleep _ | .sharedAsleep => true
  | _ => false

/-- A releaser at `releaser` will wake a thread asleep at `sleeper`: it is about to wake all, or
about to read the counter that the sleeper is counted in before it decides. -/
def wakes : RwPc → RwPc → Bool
  | .wakeAll, _ | .exclusiveUnlockReaders, _ | .sharedUnlockWriters, _ => true
  | .exclusiveUnlockWriters, .exclusiveAsleep _ => true
  | .sharedUnlockReaders, .sharedAsleep => true
  | _, _ => false

/-- What `FUTEX_WAKE` of all does to a thread. -/
def wake : RwPc → RwPc
  | .exclusiveAsleep timed => .exclusiveWoken timed false
  | .sharedAsleep => .sharedWoken
  | q => q

end RwPc

/-- A call a thread makes on the reader-writer mutex. -/
inductive RwCall where
  | exclusiveLock
  | exclusiveLockWithTimeout
  | exclusiveUnlock
  | sharedLock
  | sharedTryLock
  | sharedUnlock
deriving DecidableEq, Repr

/-- What the scheduler decides in a step: the call an idle thread makes, whether a
`FUTEX_WAIT` returns with `EINTR`, and whether a timed wait has run out of time. -/
structure RwChoice where
  call : RwCall
  interrupted : Bool
  timedOut : Bool
deriving DecidableEq, Repr

/-- The mutex, where each thread is, and, as ghost state, how often each thread holds it
shared. -/
structure RwSystem (τ : Type) where
  rw : ReaderWriterMutex τ
  pc : τ → RwPc
  sharedHeld : τ → Nat

namespace RwSystem

variable {τ : Type} [DecidableEq τ]

def setPc (sys : RwSystem τ) (t : τ) (q : RwPc) : RwSystem τ :=
  { sys with pc := Function.update sys.pc t q }

def setReaders (sys : RwSystem τ) (n : Nat) : RwSystem τ :=
  { sys with rw := { sys.rw with numPendingReaders := n } }

def setWriters (sys : RwSystem τ) (n : Nat) : RwSystem τ :=
  { sys with rw := { sys.rw with numPendingWriters := n } }

section Simp

variable {sys : RwSystem τ} {t : τ} {q : RwPc} {n : Nat}

@[simp] theorem setPc_rw : (sys.setPc t q).rw = sys.rw := rfl
@[simp] theorem setPc_sharedHeld : (sys.setPc t q).sharedHeld = sys.sharedHeld := rfl
@[simp] theorem setPc_pc : (sys.setPc t q).pc = Function.update sys.pc t q := rfl

omit [DecidableEq τ] in
@[simp] theorem setReaders_pc : (sys.setReaders n).pc = sys.pc := rfl

omit [DecidableEq τ] in
@[simp] theorem setReaders_sharedHeld : (sys.setReaders n).sharedHeld = sys.sharedHeld := rfl

omit [DecidableEq τ] in
@[simp] theorem setReaders_rw : (sys.setReaders n).rw = { sys.rw with numPendingReaders := n } :=
  rfl

omit [DecidableEq τ] in
@[simp] theorem setWriters_pc : (sys.setWriters n).pc = sys.pc := rfl

omit [DecidableEq τ] in
@[simp] theorem setWriters_sharedHeld : (sys.setWriters n).sharedHeld = sys.sharedHeld := rfl

omit [DecidableEq τ] in
@[simp] theorem setWriters_rw : (sys.setWriters n).rw = { sys.rw with numPendingWriters := n } :=
  rfl

end Simp

/-- The CAS from 0 to -1, after which the caller owns the mutex and returns. -/
def acquireExclusive (sys : RwSystem τ) (self : τ) : RwSystem τ :=
  { sys with
    rw := { sys.rw with state := -1, exclusiveOwner := some self }
    pc := Function.update sys.pc self .idle }

/-- The CAS that adds a reader and writes `v`, after which the caller returns. -/
def acquireShared (sys : RwSystem τ) (self : τ) (v : Int) : RwSystem τ :=
  { rw := { sys.rw with state := v }
    pc := Function.update sys.pc self .idle
    sharedHeld := Function.update sys.sharedHeld self (sys.sharedHeld self + 1) }

/-- The CAS from -1 to 0, with the owner cleared. -/
def releaseExclusive (sys : RwSystem τ) : RwSystem τ :=
  { sys with rw := { sys.rw with state := 0, exclusiveOwner := none } }

/-- The CAS that takes a reader away and writes `v`. -/
def releaseShared (sys : RwSystem τ) (self : τ) (v : Int) : RwSystem τ :=
  { sys with
    rw := { sys.rw with state := v }
    sharedHeld := Function.update sys.sharedHeld self (sys.sharedHeld self - 1) }

/-- `FUTEX_WAKE` of all. -/
def wakeAllSleepers (sys : RwSystem τ) : RwSystem τ :=
  { sys with pc := fun u => (sys.pc u).wake }

/-- One step of the thread `self`: the next action of the call it is in, or the call it makes
when idle. -/
def step (sys : RwSystem τ) (self : τ) (ch : RwChoice) : RwSystem τ :=
  let m := sys.rw
  match sys.pc self with
  | .idle =>
    match ch.call with
    | .exclusiveLock => sys.setPc self (.exclusiveLoad false)
    | .exclusiveLockWithTimeout => sys.setPc self (.exclusiveLoad true)
    | .exclusiveUnlock => sys.setPc self .exclusiveUnlockLoad
    | .sharedLock => sys.setPc self .sharedLoad
    | .sharedTryLock => sys.setPc self .sharedTryLoad
    | .sharedUnlock => sys.setPc self .sharedUnlockLoad
  | .exclusiveLoad timed =>
    let curState := m.state
    if curState = 0 then sys.acquireExclusive self
    -- `ComputeRelativeTimeSpec` finds the time spent: return false
    else if timed && ch.timedOut then sys.setPc self .idle
    else sys.setPc self (.exclusiveContend timed curState)
  | .exclusiveContend timed curState =>
    (sys.setWriters (m.numPendingWriters + 1)).setPc self (.exclusiveWait timed curState)
  | .exclusiveWait timed curState =>
    if !ch.interrupted && m.state == curState then sys.setPc self (.exclusiveAsleep timed)
    else sys.setPc self (.exclusiveWoken timed false)
  | .exclusiveAsleep timed =>
    if timed && ch.timedOut then sys.setPc self (.exclusiveWoken timed true)
    else if ch.interrupted then sys.setPc self (.exclusiveWoken timed false)
    else sys
  | .exclusiveWoken timed timedOut =>
    (sys.setWriters (m.numPendingWriters - 1)).setPc self
      (if timedOut then .idle else .exclusiveLoad timed)
  | .sharedLoad =>
    let curState := m.state
    if 0 ≤ curState then sys.acquireShared self (curState + 1)
    else sys.setPc self (.sharedContend curState)
  | .sharedContend curState =>
    (sys.setReaders (m.numPendingReaders + 1)).setPc self (.sharedWait curState)
  | .sharedWait curState =>
    if !ch.interrupted && m.state == curState then sys.setPc self .sharedAsleep
    else sys.setPc self .sharedWoken
  | .sharedAsleep => if ch.interrupted then sys.setPc self .sharedWoken else sys
  | .sharedWoken => (sys.setReaders (m.numPendingReaders - 1)).setPc self .sharedLoad
  | .sharedTryLoad =>
    let curState := m.state
    if 0 ≤ curState then sys.acquireShared self (curState + 1) else sys.setPc self .idle
  | .exclusiveUnlockLoad =>
    if m.state = -1 then sys.releaseExclusive.setPc self .exclusiveUnlockReaders
    else sys.setPc self .aborted
  | .exclusiveUnlockReaders =>
    if 0 < m.numPendingReaders then sys.setPc self .wakeAll
    else sys.setPc self .exclusiveUnlockWriters
  | .exclusiveUnlockWriters =>
    if 0 < m.numPendingWriters then sys.setPc self .wakeAll else sys.setPc self .idle
  | .sharedUnlockLoad =>
    let curState := m.state
    if 0 < curState then
      (sys.releaseShared self (curState - 1)).setPc self
        (if curState - 1 == 0 then .sharedUnlockWriters else .idle)
    else sys.setPc self .aborted
  | .sharedUnlockWriters =>
    if 0 < m.numPendingWriters then sys.setPc self .wakeAll
    else sys.setPc self .sharedUnlockReaders
  | .sharedUnlockReaders =>
    if 0 < m.numPendingReaders then sys.setPc self .wakeAll else sys.setPc self .idle
  | .wakeAll => (sys.setPc self .idle).wakeAllSleepers
  | .aborted => sys

/-- A choice the source allows: a thread unlocks only what it holds. -/
def choiceValid (sys : RwSystem τ) (self : τ) (ch : RwChoice) : Prop :=
  sys.pc self = .idle →
    (ch.call = .exclusiveUnlock → sys.rw.exclusiveOwner = some self) ∧
      (ch.call = .sharedUnlock → 0 < sys.sharedHeld self)

/-- A new mutex, with every thread idle. -/
def init : RwSystem τ :=
  ⟨⟨0, none, 0, 0⟩, fun _ => .idle, fun _ => 0⟩

end RwSystem

/-- The systems that some interleaving of steps with valid choices reaches from a new
reader-writer mutex. -/
def RwReachable {τ : Type} [DecidableEq τ] : RwSystem τ → Prop :=
  Lib.Reachable (· = RwSystem.init) fun sys sys' =>
    ∃ self ch, sys.choiceValid self ch ∧ sys' = sys.step self ch

/-- What the place `q` of thread `t`, which holds the mutex shared `n` times, asks of the mutex:
a waiter saw a state that blocks it, a thread in the loop of an unlock holds what it releases,
and no thread is past a `LOG(FATAL)`. -/
def ReaderWriterMutex.LocalOk {τ : Type} (m : ReaderWriterMutex τ) (t : τ) (n : Nat) : RwPc → Prop
  | .exclusiveContend _ curState | .exclusiveWait _ curState => curState ≠ 0
  | .sharedContend curState | .sharedWait curState => curState < 0
  | .exclusiveUnlockLoad => m.exclusiveOwner = some t
  | .sharedUnlockLoad => 0 < n
  | .aborted => False
  | _ => True

namespace ReaderWriterMutex

variable {τ : Type} {m m' : ReaderWriterMutex τ} {t : τ} {n : Nat} {q : RwPc}

-- the facts below go through every place, each of which simp reads off the definition
attribute [local simp] LocalOk

/-- Only the owner matters to a place. -/
theorem localOk_congr (howner : m'.exclusiveOwner = m.exclusiveOwner) (h : m.LocalOk t n q) :
    m'.LocalOk t n q := by
  cases q <;> simp_all

/-- Outside the loop of `ExclusiveUnlock`, a place asks nothing of the owner. -/
theorem localOk_of_ne_exclusiveUnlockLoad (hq : q ≠ .exclusiveUnlockLoad) (h : m.LocalOk t n q) :
    m'.LocalOk t n q := by
  cases q <;> simp_all

/-- A thread that does not own the mutex is not in the loop of `ExclusiveUnlock`, so it keeps
its condition when the owner changes. -/
theorem localOk_of_not_owner (hown : m.exclusiveOwner ≠ some t) (h : m.LocalOk t n q) :
    m'.LocalOk t n q :=
  localOk_of_ne_exclusiveUnlockLoad (by rintro rfl; exact hown h) h

/-- A woken thread asks nothing more than it did asleep. -/
theorem localOk_wake (h : m.LocalOk t n q) : m.LocalOk t n q.wake := by
  cases q <;> simp_all [RwPc.wake]

end ReaderWriterMutex

namespace RwPc

attribute [local simp] asleep pendingReader pendingWriter wakes

@[simp] theorem pendingReader_wake (q : RwPc) : q.wake.pendingReader = q.pendingReader := by
  cases q <;> rfl

@[simp] theorem pendingWriter_wake (q : RwPc) : q.wake.pendingWriter = q.pendingWriter := by
  cases q <;> rfl

@[simp] theorem asleep_wake (q : RwPc) : q.wake.asleep = false := by
  cases q <;> rfl

/-- A sleeper is a pending reader or a pending writer. -/
theorem pending_of_asleep {q : RwPc} (h : q.asleep = true) :
    q.pendingReader = true ∨ q.pendingWriter = true := by
  cases q <;> simp_all

/-- The last load of `ExclusiveUnlock` decides to wake exactly the sleeping writers. -/
theorem exclusiveUnlockWriters_wakes {q : RwPc} (h : q.asleep = true) :
    exclusiveUnlockWriters.wakes q = q.pendingWriter := by
  cases q <;> simp_all

/-- The last load of `SharedUnlock` decides to wake exactly the sleeping readers. -/
theorem sharedUnlockReaders_wakes {q : RwPc} (h : q.asleep = true) :
    sharedUnlockReaders.wakes q = q.pendingReader := by
  cases q <;> simp_all

end RwPc

namespace RwSystem

open ReaderWriterMutex

variable {τ : Type} [DecidableEq τ]

/-- No wake-up is lost: while a thread sleeps, the mutex is held (so its word is not the 0 that
the release writes), or a releaser is past its CAS at a place from which it will wake it. -/
def NoLostWakeup (sys : RwSystem τ) : Prop :=
  ∀ t, (sys.pc t).asleep = true → sys.rw.state ≠ 0 ∨ ∃ r, (sys.pc r).wakes (sys.pc t) = true

variable [Fintype τ]

/-- The threads between `++num_pending_readers_` and `--num_pending_readers_`. -/
def pendingReaders (sys : RwSystem τ) : Nat :=
  census (fun q => q.pendingReader = true) sys.pc

def pendingWriters (sys : RwSystem τ) : Nat :=
  census (fun q => q.pendingWriter = true) sys.pc

/-- How often the mutex is held shared, over all threads. -/
def sharedHolds (sys : RwSystem τ) : Nat :=
  ∑ t, sys.sharedHeld t

/-- The invariant of every interleaving. -/
structure Inv (sys : RwSystem τ) : Prop where
  /-- Without an exclusive owner the state counts the shared holds ... -/
  state_free : sys.rw.exclusiveOwner = none → sys.rw.state = sys.sharedHolds
  /-- ... and with one it is -1 and nobody holds the mutex shared. -/
  state_owned : sys.rw.exclusiveOwner ≠ none → sys.rw.state = -1
  holds_owned : sys.rw.exclusiveOwner ≠ none → sys.sharedHolds = 0
  readers_eq : sys.rw.numPendingReaders = sys.pendingReaders
  writers_eq : sys.rw.numPendingWriters = sys.pendingWriters
  localOk : ∀ t, sys.rw.LocalOk t (sys.sharedHeld t) (sys.pc t)
  noLostWakeup : sys.NoLostWakeup

section Support

variable {sys : RwSystem τ} {t : τ} {q : RwPc}

omit [DecidableEq τ] in
theorem Inv.owner_eq_none (hi : sys.Inv) (h : 0 ≤ sys.rw.state) : sys.rw.exclusiveOwner = none := by
  by_contra hown
  have := hi.state_owned hown
  omega

omit [DecidableEq τ] in
theorem Inv.localOk_at (hi : sys.Inv) {q : RwPc} (hpc : sys.pc t = q) :
    sys.rw.LocalOk t (sys.sharedHeld t) q :=
  hpc ▸ hi.localOk t

theorem sharedHeld_le_sharedHolds (sys : RwSystem τ) (t : τ) : sys.sharedHeld t ≤ sys.sharedHolds := by
  have h := sum_update sys.sharedHeld t 0
  unfold sharedHolds
  omega

omit [DecidableEq τ] [Fintype τ] in
theorem noLostWakeup_of_state (h : sys.rw.state ≠ 0) : sys.NoLostWakeup :=
  fun _ _ => .inl h

omit [DecidableEq τ] [Fintype τ] in
/-- A releaser about to wake every sleeper. -/
theorem noLostWakeup_of_wakes (r : τ) (h : ∀ q, (sys.pc r).wakes q = true) : sys.NoLostWakeup :=
  fun t _ => .inr ⟨r, h (sys.pc t)⟩

omit [Fintype τ] in
/-- A thread can move when it does not fall asleep with the word at 0 and every sleeper it would
have woken from its old place, it still wakes from its new one. -/
theorem NoLostWakeup.setPc (h : sys.NoLostWakeup) (hq : q.asleep = true → sys.rw.state ≠ 0)
    (hcover : ∀ u, u ≠ t → (sys.pc u).asleep = true → (sys.pc t).wakes (sys.pc u) = true →
      q.wakes (sys.pc u) = true) :
    (sys.setPc t q).NoLostWakeup := by
  intro u hu
  by_cases hut : u = t
  · subst hut
    exact .inl (hq (by simpa using hu))
  rw [setPc_pc, Function.update_of_ne hut] at hu ⊢
  rcases h u hu with hstate | ⟨r, hr⟩
  · exact .inl hstate
  by_cases hrt : r = t
  · subst hrt
    exact .inr ⟨r, by simpa using hcover u hut hu hr⟩
  · exact .inr ⟨r, by rw [Function.update_of_ne hrt]; exact hr⟩

omit [Fintype τ] in
/-- A thread at a place that wakes nothing can move to any place but sleep. -/
theorem NoLostWakeup.setPc_of_wakes_none (h : sys.NoLostWakeup) (hq : q.asleep = false)
    (hnone : ∀ q', (sys.pc t).wakes q' = false) : (sys.setPc t q).NoLostWakeup :=
  h.setPc (by simp [hq]) fun u _ _ hw => by rw [hnone] at hw; cases hw

omit [Fintype τ] in
/-- The places after a move of `t` to `q`: the new place holds, and every other thread keeps its
count and a place that holds of the new mutex whenever it held of the old. -/
theorem localOk_move {sys' : RwSystem τ} (hpc : sys'.pc = Function.update sys.pc t q)
    (hheld : ∀ u, u ≠ t → sys'.sharedHeld u = sys.sharedHeld u)
    (hq : sys'.rw.LocalOk t (sys'.sharedHeld t) q)
    (hother : ∀ u, u ≠ t → sys.rw.LocalOk u (sys.sharedHeld u) (sys.pc u) →
      sys'.rw.LocalOk u (sys.sharedHeld u) (sys.pc u))
    (h : ∀ u, sys.rw.LocalOk u (sys.sharedHeld u) (sys.pc u)) :
    ∀ u, sys'.rw.LocalOk u (sys'.sharedHeld u) (sys'.pc u) := by
  intro u
  rw [hpc]
  by_cases hut : u = t
  · subst hut
    simpa using hq
  · rw [Function.update_of_ne hut, hheld u hut]
    exact hother u hut (h u)

theorem pendingReaders_of_move {sys' : RwSystem τ} (hpc : sys'.pc = Function.update sys.pc t q)
    (hr : q.pendingReader = (sys.pc t).pendingReader) : sys'.pendingReaders = sys.pendingReaders := by
  unfold pendingReaders
  rw [hpc]
  exact census_update_of_iff (by rw [hr])

theorem pendingWriters_of_move {sys' : RwSystem τ} (hpc : sys'.pc = Function.update sys.pc t q)
    (hw : q.pendingWriter = (sys.pc t).pendingWriter) : sys'.pendingWriters = sys.pendingWriters := by
  unfold pendingWriters
  rw [hpc]
  exact census_update_of_iff (by rw [hw])

/-- Moving one thread keeps the invariant when it stays inside or outside each pending window and
its new place is one the mutex allows. -/
theorem Inv.setPc_of (hi : sys.Inv) (hr : q.pendingReader = (sys.pc t).pendingReader)
    (hw : q.pendingWriter = (sys.pc t).pendingWriter)
    (hq : sys.rw.LocalOk t (sys.sharedHeld t) q) (hwake : (sys.setPc t q).NoLostWakeup) :
    (sys.setPc t q).Inv where
  state_free := hi.state_free
  state_owned := hi.state_owned
  holds_owned := hi.holds_owned
  readers_eq := hi.readers_eq.trans (pendingReaders_of_move rfl hr).symm
  writers_eq := hi.writers_eq.trans (pendingWriters_of_move rfl hw).symm
  localOk := localOk_move rfl (fun _ _ => rfl) hq (fun _ _ h => h) hi.localOk
  noLostWakeup := hwake

/-- A move of a thread from a place `p` that wakes nothing to a place in the same windows, where
it does not sleep. -/
theorem Inv.move (hi : sys.Inv) {p : RwPc} (hpc : sys.pc t = p)
    (hr : q.pendingReader = p.pendingReader) (hw : q.pendingWriter = p.pendingWriter)
    (hnone : ∀ q', p.wakes q' = false) (hs : q.asleep = false)
    (hq : sys.rw.LocalOk t (sys.sharedHeld t) q) : (sys.setPc t q).Inv := by
  subst hpc
  exact hi.setPc_of hr hw hq (hi.noLostWakeup.setPc_of_wakes_none hs hnone)

/-- Moving into or out of the pending-reader window with the counter written to match. -/
theorem Inv.setReadersPc_of (hi : sys.Inv) {n : Nat} (hn : n = (sys.setPc t q).pendingReaders)
    (hw : q.pendingWriter = (sys.pc t).pendingWriter) (hq : sys.rw.LocalOk t (sys.sharedHeld t) q)
    (hwake : (sys.setPc t q).NoLostWakeup) : ((sys.setReaders n).setPc t q).Inv where
  state_free := hi.state_free
  state_owned := hi.state_owned
  holds_owned := hi.holds_owned
  readers_eq := hn
  writers_eq := hi.writers_eq.trans (pendingWriters_of_move rfl hw).symm
  localOk := localOk_move rfl (fun _ _ => rfl) (localOk_congr rfl hq)
    (fun _ _ h => localOk_congr rfl h) hi.localOk
  noLostWakeup := hwake

theorem Inv.setWritersPc_of (hi : sys.Inv) {n : Nat} (hn : n = (sys.setPc t q).pendingWriters)
    (hr : q.pendingReader = (sys.pc t).pendingReader) (hq : sys.rw.LocalOk t (sys.sharedHeld t) q)
    (hwake : (sys.setPc t q).NoLostWakeup) : ((sys.setWriters n).setPc t q).Inv where
  state_free := hi.state_free
  state_owned := hi.state_owned
  holds_owned := hi.holds_owned
  readers_eq := hi.readers_eq.trans (pendingReaders_of_move rfl hr).symm
  writers_eq := hn
  localOk := localOk_move rfl (fun _ _ => rfl) (localOk_congr rfl hq)
    (fun _ _ h => localOk_congr rfl h) hi.localOk
  noLostWakeup := hwake

omit [DecidableEq τ] [Fintype τ] in
theorem noLostWakeup_of_none_asleep (h : ∀ u, (sys.pc u).asleep = false) : sys.NoLostWakeup :=
  fun u hu => by rw [h u] at hu; cases hu

omit [DecidableEq τ] [Fintype τ] in
@[simp] theorem wakeAllSleepers_pc (u : τ) : sys.wakeAllSleepers.pc u = (sys.pc u).wake := rfl

omit [Fintype τ] in
theorem wakeAllSleepers_setPc : (sys.setPc t q).wakeAllSleepers = sys.wakeAllSleepers.setPc t q.wake := by
  simp only [RwSystem.wakeAllSleepers, RwSystem.setPc, RwSystem.mk.injEq, and_true, true_and]
  funext u
  by_cases hut : u = t
  · subst hut
    simp
  · simp [Function.update_of_ne hut]

omit [DecidableEq τ] in
/-- Waking every sleeper keeps the invariant: each stays in its pending window, and nobody
sleeps. -/
theorem Inv.wakeAllSleepers (hi : sys.Inv) : sys.wakeAllSleepers.Inv where
  state_free := hi.state_free
  state_owned := hi.state_owned
  holds_owned := hi.holds_owned
  readers_eq := hi.readers_eq.trans (census_congr fun u => by simp).symm
  writers_eq := hi.writers_eq.trans (census_congr fun u => by simp).symm
  localOk u := localOk_wake (hi.localOk u)
  noLostWakeup := noLostWakeup_of_none_asleep fun u => by simp

omit [DecidableEq τ] in
/-- With its counter at zero, no thread is in the pending-reader window. -/
theorem Inv.not_pendingReader (hi : sys.Inv) (h : sys.rw.numPendingReaders = 0) (u : τ) :
    (sys.pc u).pendingReader = false := by
  rw [hi.readers_eq, pendingReaders, census_eq_zero_iff] at h
  simpa using h u

omit [DecidableEq τ] in
theorem Inv.not_pendingWriter (hi : sys.Inv) (h : sys.rw.numPendingWriters = 0) (u : τ) :
    (sys.pc u).pendingWriter = false := by
  rw [hi.writers_eq, pendingWriters, census_eq_zero_iff] at h
  simpa using h u

end Support

section Steps

variable {sys : RwSystem τ} {self : τ}

/-- The CAS from 0 to -1 of `ExclusiveLock`: the caller becomes the owner of a mutex that nobody
held. -/
theorem Inv.acquireExclusive (hi : sys.Inv) {timed : Bool}
    (hpc : sys.pc self = .exclusiveLoad timed) (hzero : sys.rw.state = 0) :
    (sys.acquireExclusive self).Inv := by
  have hfree : sys.rw.exclusiveOwner = none := hi.owner_eq_none (by omega)
  have hholds : sys.sharedHolds = 0 := by
    have := hi.state_free hfree
    omega
  have hmove : (sys.acquireExclusive self).pc = Function.update sys.pc self .idle := rfl
  refine ⟨(fun h => nomatch h), fun _ => rfl, fun _ => hholds, ?_, ?_, ?_, ?_⟩
  · exact hi.readers_eq.trans (pendingReaders_of_move hmove (by rw [hpc]; rfl)).symm
  · exact hi.writers_eq.trans (pendingWriters_of_move hmove (by rw [hpc]; rfl)).symm
  · exact localOk_move hmove (fun _ _ => rfl) trivial
      (fun _ _ h => localOk_of_not_owner (by simp [hfree]) h) hi.localOk
  · exact noLostWakeup_of_state (by simp [RwSystem.acquireExclusive])

/-- The CAS of `SharedLock` or `SharedTryLock` that adds a reader to a state `>= 0`. -/
theorem Inv.acquireShared (hi : sys.Inv) (hr : (sys.pc self).pendingReader = false)
    (hw : (sys.pc self).pendingWriter = false) (hnonneg : 0 ≤ sys.rw.state) :
    (sys.acquireShared self (sys.rw.state + 1)).Inv := by
  have hfree := hi.owner_eq_none hnonneg
  have hmove : (sys.acquireShared self (sys.rw.state + 1)).pc =
      Function.update sys.pc self .idle := rfl
  -- the new hold is counted in the total
  have hholds : (sys.acquireShared self (sys.rw.state + 1)).sharedHolds = sys.sharedHolds + 1 := by
    have h := sum_update sys.sharedHeld self (sys.sharedHeld self + 1)
    show ∑ u, Function.update sys.sharedHeld self (sys.sharedHeld self + 1) u = sys.sharedHolds + 1
    unfold sharedHolds
    omega
  refine ⟨fun _ => ?_, fun h => absurd hfree h, fun h => absurd hfree h, ?_, ?_, ?_, ?_⟩
  · show sys.rw.state + 1 = _
    rw [hholds, hi.state_free hfree]
    push_cast
    rfl
  · exact hi.readers_eq.trans (pendingReaders_of_move hmove (by rw [hr]; rfl)).symm
  · exact hi.writers_eq.trans (pendingWriters_of_move hmove (by rw [hw]; rfl)).symm
  · exact localOk_move hmove (fun _ hu => Function.update_of_ne hu _ _) trivial
      (fun _ _ h => localOk_congr rfl h) hi.localOk
  · exact noLostWakeup_of_state (by show sys.rw.state + 1 ≠ 0; omega)

/-- The CAS from -1 to 0 of `ExclusiveUnlock`, after which the caller wakes every sleeper or reads
the pending counters. -/
theorem Inv.releaseExclusive (hi : sys.Inv) (hpc : sys.pc self = .exclusiveUnlockLoad) :
    (sys.releaseExclusive.setPc self .exclusiveUnlockReaders).Inv := by
  have hown : sys.rw.exclusiveOwner = some self := hi.localOk_at hpc
  have hholds : sys.sharedHolds = 0 := hi.holds_owned (by simp [hown])
  have hmove : (sys.releaseExclusive.setPc self .exclusiveUnlockReaders).pc =
      Function.update sys.pc self .exclusiveUnlockReaders := rfl
  refine ⟨fun _ => ?_, fun h => (h rfl).elim, fun h => (h rfl).elim, ?_, ?_, ?_, ?_⟩
  · show (0 : Int) = (sys.sharedHolds : Int)
    rw [hholds]
    rfl
  · exact hi.readers_eq.trans (pendingReaders_of_move hmove (by rw [hpc]; rfl)).symm
  · exact hi.writers_eq.trans (pendingWriters_of_move hmove (by rw [hpc]; rfl)).symm
  · refine localOk_move hmove (fun _ _ => rfl) trivial (fun u hu h => ?_) hi.localOk
    -- only the owner is in the loop of `ExclusiveUnlock`
    exact localOk_of_not_owner (by rw [hown]; simpa [eq_comm] using hu) h
  · exact noLostWakeup_of_wakes self fun _ => by simp [RwPc.wakes]

/-- The CAS of `SharedUnlock` that takes a reader away; the last reader goes on to the pending
counters. -/
theorem Inv.releaseShared (hi : sys.Inv) (hpc : sys.pc self = .sharedUnlockLoad)
    (hpos : 0 < sys.rw.state) :
    ((sys.releaseShared self (sys.rw.state - 1)).setPc self
      (if sys.rw.state - 1 == 0 then .sharedUnlockWriters else .idle)).Inv := by
  have hfree := hi.owner_eq_none (by omega)
  have hheld : 0 < sys.sharedHeld self := hi.localOk_at hpc
  have hmove : ((sys.releaseShared self (sys.rw.state - 1)).setPc self
      (if sys.rw.state - 1 == 0 then .sharedUnlockWriters else .idle)).pc =
      Function.update sys.pc self (if sys.rw.state - 1 == 0 then .sharedUnlockWriters else .idle) :=
    rfl
  have hquiet : ∀ b : Bool, (if b then RwPc.sharedUnlockWriters else .idle).pendingReader = false ∧
      (if b then RwPc.sharedUnlockWriters else .idle).pendingWriter = false := by
    intro b
    cases b <;> exact ⟨rfl, rfl⟩
  -- the released hold leaves the total
  have hholds : ((sys.releaseShared self (sys.rw.state - 1)).setPc self
      (if sys.rw.state - 1 == 0 then .sharedUnlockWriters else .idle)).sharedHolds + 1 =
      sys.sharedHolds := by
    have h := sum_update sys.sharedHeld self (sys.sharedHeld self - 1)
    show ∑ u, Function.update sys.sharedHeld self (sys.sharedHeld self - 1) u + 1 = sys.sharedHolds
    unfold sharedHolds
    omega
  refine ⟨fun _ => ?_, fun h => absurd hfree h, fun h => absurd hfree h, ?_, ?_, ?_, ?_⟩
  · show sys.rw.state - 1 = _
    have hstate := hi.state_free hfree
    omega
  · exact hi.readers_eq.trans
      (pendingReaders_of_move hmove (by rw [hpc, (hquiet _).1]; rfl)).symm
  · exact hi.writers_eq.trans
      (pendingWriters_of_move hmove (by rw [hpc, (hquiet _).2]; rfl)).symm
  · refine localOk_move hmove (fun _ hu => Function.update_of_ne hu _ _) ?_
      (fun _ _ h => localOk_congr rfl h) hi.localOk
    split <;> trivial
  · by_cases hz : sys.rw.state - 1 = 0
    · exact noLostWakeup_of_wakes self fun _ => by simp [hz, RwPc.wakes]
    · exact noLostWakeup_of_state hz

/-- A thread that decides to wake everybody keeps the invariant, as long as the move keeps it in
the same pending windows: from `wakeAll` every sleeper is woken. -/
theorem Inv.setPc_wakeAll (hi : sys.Inv)
    (hr : RwPc.wakeAll.pendingReader = (sys.pc self).pendingReader)
    (hw : RwPc.wakeAll.pendingWriter = (sys.pc self).pendingWriter) :
    (sys.setPc self .wakeAll).Inv :=
  hi.setPc_of hr hw trivial (noLostWakeup_of_wakes self fun _ => by simp [RwPc.wakes])

/-- The first load of the wake decision of `ExclusiveUnlock`: with no pending reader, every
sleeper is a writer, which the next load covers. -/
theorem Inv.exclusiveUnlockReaders (hi : sys.Inv) (hpc : sys.pc self = .exclusiveUnlockReaders) :
    (if 0 < sys.rw.numPendingReaders then sys.setPc self .wakeAll
      else sys.setPc self .exclusiveUnlockWriters).Inv := by
  split_ifs with hpending
  · exact hi.setPc_wakeAll (by rw [hpc]; rfl) (by rw [hpc]; rfl)
  · refine hi.setPc_of (by rw [hpc]; rfl) (by rw [hpc]; rfl) trivial
      (hi.noLostWakeup.setPc (by simp [RwPc.asleep]) fun u _ hu _ => ?_)
    have hr := hi.not_pendingReader (by omega) u
    rw [RwPc.exclusiveUnlockWriters_wakes hu]
    simpa [hr] using RwPc.pending_of_asleep hu

/-- The second load of `ExclusiveUnlock`: with no pending writer it has nobody to wake. -/
theorem Inv.exclusiveUnlockWriters (hi : sys.Inv) (hpc : sys.pc self = .exclusiveUnlockWriters) :
    (if 0 < sys.rw.numPendingWriters then sys.setPc self .wakeAll
      else sys.setPc self .idle).Inv := by
  split_ifs with hpending
  · exact hi.setPc_wakeAll (by rw [hpc]; rfl) (by rw [hpc]; rfl)
  · refine hi.setPc_of (by rw [hpc]; rfl) (by rw [hpc]; rfl) trivial
      (hi.noLostWakeup.setPc (by simp [RwPc.asleep]) fun u _ hu hwakes => ?_)
    rw [hpc, RwPc.exclusiveUnlockWriters_wakes hu, hi.not_pendingWriter (by omega) u] at hwakes
    cases hwakes

/-- The first load of the wake decision of `SharedUnlock`: with no pending writer, every sleeper
is a reader, which the next load covers. -/
theorem Inv.sharedUnlockWriters (hi : sys.Inv) (hpc : sys.pc self = .sharedUnlockWriters) :
    (if 0 < sys.rw.numPendingWriters then sys.setPc self .wakeAll
      else sys.setPc self .sharedUnlockReaders).Inv := by
  split_ifs with hpending
  · exact hi.setPc_wakeAll (by rw [hpc]; rfl) (by rw [hpc]; rfl)
  · refine hi.setPc_of (by rw [hpc]; rfl) (by rw [hpc]; rfl) trivial
      (hi.noLostWakeup.setPc (by simp [RwPc.asleep]) fun u _ hu _ => ?_)
    have hw := hi.not_pendingWriter (by omega) u
    rw [RwPc.sharedUnlockReaders_wakes hu]
    simpa [hw] using RwPc.pending_of_asleep hu

theorem Inv.sharedUnlockReaders (hi : sys.Inv) (hpc : sys.pc self = .sharedUnlockReaders) :
    (if 0 < sys.rw.numPendingReaders then sys.setPc self .wakeAll
      else sys.setPc self .idle).Inv := by
  split_ifs with hpending
  · exact hi.setPc_wakeAll (by rw [hpc]; rfl) (by rw [hpc]; rfl)
  · refine hi.setPc_of (by rw [hpc]; rfl) (by rw [hpc]; rfl) trivial
      (hi.noLostWakeup.setPc (by simp [RwPc.asleep]) fun u _ hu hwakes => ?_)
    rw [hpc, RwPc.sharedUnlockReaders_wakes hu, hi.not_pendingReader (by omega) u] at hwakes
    cases hwakes

/-- `FUTEX_WAKE` of all: the caller returns, and every sleeper wakes inside its pending
window. -/
theorem Inv.wakeAll (hi : sys.Inv) (hpc : sys.pc self = .wakeAll) :
    (sys.setPc self .idle).wakeAllSleepers.Inv := by
  have hwoken := hi.wakeAllSleepers
  rw [wakeAllSleepers_setPc]
  refine hwoken.setPc_of (by rw [wakeAllSleepers_pc, hpc]; rfl) (by rw [wakeAllSleepers_pc, hpc]; rfl)
    trivial (hwoken.noLostWakeup.setPc (by simp [RwPc.wake, RwPc.asleep]) fun u _ hu _ => ?_)
  simp at hu

/-- A thread whose mutex it holds shared sees a positive state. -/
theorem Inv.state_pos (hi : sys.Inv) (hheld : 0 < sys.sharedHeld self) : 0 < sys.rw.state := by
  have hle := sharedHeld_le_sharedHolds sys self
  by_cases hown : sys.rw.exclusiveOwner = none
  · rw [hi.state_free hown]
    omega
  · have := hi.holds_owned hown
    omega

/-- Every step of every thread keeps the invariant. -/
theorem Inv.step (hi : sys.Inv) {ch : RwChoice} (hch : sys.choiceValid self ch) :
    (sys.step self ch).Inv := by
  cases hpc : sys.pc self with
  | idle =>
    -- the call starts in its first loop, and an unlock only by a holder
    have hmove : ∀ q, q.pendingReader = false → q.pendingWriter = false → q.asleep = false →
        sys.rw.LocalOk self (sys.sharedHeld self) q → (sys.setPc self q).Inv :=
      fun q hr hw hs hq => hi.move hpc hr hw (fun _ => rfl) hs hq
    cases hcall : ch.call <;> simp only [RwSystem.step, hpc, hcall]
    · exact hmove _ rfl rfl rfl trivial
    · exact hmove _ rfl rfl rfl trivial
    · exact hmove _ rfl rfl rfl ((hch hpc).1 hcall)
    · exact hmove _ rfl rfl rfl trivial
    · exact hmove _ rfl rfl rfl trivial
    · exact hmove _ rfl rfl rfl ((hch hpc).2 hcall)
  | exclusiveLoad timed =>
    simp only [RwSystem.step, hpc]
    split_ifs with hzero
    · exact hi.acquireExclusive hpc hzero
    · exact hi.move hpc rfl rfl (fun _ => rfl) rfl trivial
    · exact hi.move hpc rfl rfl (fun _ => rfl) rfl hzero
  | exclusiveContend timed curState =>
    simp only [RwSystem.step, hpc]
    -- the thread enters the pending-writer window
    have henter : (sys.setPc self (.exclusiveWait timed curState)).pendingWriters =
        sys.pendingWriters + 1 :=
      census_update_enter (by rw [hpc]; simp [RwPc.pendingWriter]) rfl
    have hcur : curState ≠ 0 := hi.localOk_at hpc
    exact hi.setWritersPc_of (by rw [henter, hi.writers_eq]) (by rw [hpc]; rfl) hcur
      (hi.noLostWakeup.setPc_of_wakes_none rfl (by rw [hpc]; exact fun _ => rfl))
  | exclusiveWait timed curState =>
    simp only [RwSystem.step, hpc]
    split_ifs with hsleep
    · -- `FUTEX_WAIT` sleeps only on the nonzero state it saw
      have heq : sys.rw.state = curState := by
        simp only [Bool.and_eq_true, Bool.not_eq_true', beq_iff_eq] at hsleep
        exact hsleep.2
      have hcur : curState ≠ 0 := hi.localOk_at hpc
      exact hi.setPc_of (by rw [hpc]; rfl) (by rw [hpc]; rfl) trivial
        (noLostWakeup_of_state (by rw [setPc_rw, heq]; exact hcur))
    · exact hi.move hpc rfl rfl (fun _ => rfl) rfl trivial
  | exclusiveAsleep timed =>
    simp only [RwSystem.step, hpc]
    split_ifs
    · exact hi.move hpc rfl rfl (fun _ => rfl) rfl trivial
    · exact hi.move hpc rfl rfl (fun _ => rfl) rfl trivial
    · exact hi
  | exclusiveWoken timed timedOut =>
    simp only [RwSystem.step, hpc]
    have hq : ∀ b : Bool, (if b then RwPc.idle else .exclusiveLoad timed).pendingReader = false ∧
        (if b then RwPc.idle else .exclusiveLoad timed).pendingWriter = false ∧
        (if b then RwPc.idle else .exclusiveLoad timed).asleep = false := by
      intro b
      cases b <;> exact ⟨rfl, rfl, rfl⟩
    -- the thread leaves the pending-writer window
    have hleave : (sys.setPc self (if timedOut then .idle else .exclusiveLoad timed)).pendingWriters +
        1 = sys.pendingWriters :=
      census_update_leave (by rw [hpc]; rfl) (by simp [(hq _).2.1])
    refine hi.setWritersPc_of (by rw [hi.writers_eq, ← hleave]; rfl) (by rw [hpc, (hq _).1]; rfl)
      (by split <;> trivial) (hi.noLostWakeup.setPc_of_wakes_none (hq _).2.2 ?_)
    rw [hpc]
    exact fun _ => rfl
  | sharedLoad =>
    simp only [RwSystem.step, hpc]
    split_ifs with hnonneg
    · exact hi.acquireShared (by rw [hpc]; rfl) (by rw [hpc]; rfl) hnonneg
    · exact hi.move hpc rfl rfl (fun _ => rfl) rfl (show sys.rw.state < 0 by omega)
  | sharedContend curState =>
    simp only [RwSystem.step, hpc]
    -- the thread enters the pending-reader window
    have henter : (sys.setPc self (.sharedWait curState)).pendingReaders = sys.pendingReaders + 1 :=
      census_update_enter (by rw [hpc]; simp [RwPc.pendingReader]) rfl
    have hcur : curState < 0 := hi.localOk_at hpc
    exact hi.setReadersPc_of (by rw [henter, hi.readers_eq]) (by rw [hpc]; rfl) hcur
      (hi.noLostWakeup.setPc_of_wakes_none rfl (by rw [hpc]; exact fun _ => rfl))
  | sharedWait curState =>
    simp only [RwSystem.step, hpc]
    split_ifs with hsleep
    · -- `FUTEX_WAIT` sleeps only on the negative state it saw
      have heq : sys.rw.state = curState := by
        simp only [Bool.and_eq_true, Bool.not_eq_true', beq_iff_eq] at hsleep
        exact hsleep.2
      have hcur : curState < 0 := hi.localOk_at hpc
      exact hi.setPc_of (by rw [hpc]; rfl) (by rw [hpc]; rfl) trivial
        (noLostWakeup_of_state (by rw [setPc_rw, heq]; omega))
    · exact hi.move hpc rfl rfl (fun _ => rfl) rfl trivial
  | sharedAsleep =>
    simp only [RwSystem.step, hpc]
    split_ifs
    · exact hi.move hpc rfl rfl (fun _ => rfl) rfl trivial
    · exact hi
  | sharedWoken =>
    simp only [RwSystem.step, hpc]
    -- the thread leaves the pending-reader window
    have hleave : (sys.setPc self .sharedLoad).pendingReaders + 1 = sys.pendingReaders :=
      census_update_leave (by rw [hpc]; rfl) (by simp [RwPc.pendingReader])
    exact hi.setReadersPc_of (by rw [hi.readers_eq, ← hleave]; rfl) (by rw [hpc]; rfl) trivial
      (hi.noLostWakeup.setPc_of_wakes_none rfl (by rw [hpc]; exact fun _ => rfl))
  | sharedTryLoad =>
    simp only [RwSystem.step, hpc]
    split_ifs with hnonneg
    · exact hi.acquireShared (by rw [hpc]; rfl) (by rw [hpc]; rfl) hnonneg
    · exact hi.move hpc rfl rfl (fun _ => rfl) rfl trivial
  | exclusiveUnlockLoad =>
    simp only [RwSystem.step, hpc]
    -- the owner always finds -1, never the `LOG(FATAL)` branch
    have hown : sys.rw.exclusiveOwner = some self := hi.localOk_at hpc
    have hstate : sys.rw.state = -1 := hi.state_owned (by simp [hown])
    rw [if_pos hstate]
    exact hi.releaseExclusive hpc
  | exclusiveUnlockReaders =>
    simp only [RwSystem.step, hpc]
    exact hi.exclusiveUnlockReaders hpc
  | exclusiveUnlockWriters =>
    simp only [RwSystem.step, hpc]
    exact hi.exclusiveUnlockWriters hpc
  | sharedUnlockLoad =>
    simp only [RwSystem.step, hpc]
    -- a reader always finds a positive state, never the `LOG(FATAL)` branch
    have hpos : 0 < sys.rw.state := hi.state_pos (hi.localOk_at hpc)
    rw [if_pos hpos]
    exact hi.releaseShared hpc hpos
  | sharedUnlockWriters =>
    simp only [RwSystem.step, hpc]
    exact hi.sharedUnlockWriters hpc
  | sharedUnlockReaders =>
    simp only [RwSystem.step, hpc]
    exact hi.sharedUnlockReaders hpc
  | wakeAll =>
    simp only [RwSystem.step, hpc]
    exact hi.wakeAll hpc
  | aborted => exact (hi.localOk_at hpc).elim

omit [DecidableEq τ] in
theorem inv_init : (init : RwSystem τ).Inv where
  state_free _ := by simp [init, sharedHolds]
  state_owned h := (h rfl).elim
  holds_owned h := (h rfl).elim
  readers_eq := (census_eq_zero_iff.mpr fun _ => by simp [init, RwPc.pendingReader]).symm
  writers_eq := (census_eq_zero_iff.mpr fun _ => by simp [init, RwPc.pendingWriter]).symm
  localOk _ := trivial
  noLostWakeup := noLostWakeup_of_none_asleep fun _ => rfl

/-- The invariant holds in every reachable system. -/
theorem inv_of_reachable {sys : RwSystem τ} (hr : RwReachable sys) : sys.Inv := by
  refine Lib.Reachable.invariant ?_ ?_ hr
  · rintro s rfl
    exact inv_init
  · rintro s s' hi ⟨self, ch, hch, rfl⟩
    exact hi.step hch

end Steps

/-- What the futex reader-writer mutex guarantees in a system.  Shared holds are counted with
their multiplicity, as `state_` counts them. -/
structure Safe (sys : RwSystem τ) : Prop where
  /-- The state is -1 exactly when a thread holds the mutex exclusively and none holds it
  shared. -/
  exclusive_iff : sys.rw.state = -1 ↔ sys.rw.exclusiveOwner ≠ none ∧ sys.sharedHolds = 0
  /-- The state is `k >= 0` exactly when the mutex is held shared `k` times and not
  exclusively. -/
  shared_iff : ∀ k : Nat, sys.rw.state = k ↔ sys.rw.exclusiveOwner = none ∧ sys.sharedHolds = k
  /-- It takes no other value. -/
  state_ge : -1 ≤ sys.rw.state
  /-- The pending counters count the threads between their increment and decrement. -/
  readers_eq : sys.rw.numPendingReaders = census (fun q => q.pendingReader = true) sys.pc
  writers_eq : sys.rw.numPendingWriters = census (fun q => q.pendingWriter = true) sys.pc
  not_aborted : ∀ t, sys.pc t ≠ .aborted
  noLostWakeup : sys.NoLostWakeup

omit [DecidableEq τ] in
theorem Inv.exclusive_iff {sys : RwSystem τ} (hi : sys.Inv) :
    sys.rw.state = -1 ↔ sys.rw.exclusiveOwner ≠ none ∧ sys.sharedHolds = 0 := by
  constructor
  · intro hstate
    have hown : sys.rw.exclusiveOwner ≠ none := by
      intro hfree
      have := hi.state_free hfree
      omega
    exact ⟨hown, hi.holds_owned hown⟩
  · exact fun h => hi.state_owned h.1

omit [DecidableEq τ] in
theorem Inv.shared_iff {sys : RwSystem τ} (hi : sys.Inv) (k : Nat) :
    sys.rw.state = k ↔ sys.rw.exclusiveOwner = none ∧ sys.sharedHolds = k := by
  constructor
  · intro hstate
    have hfree := hi.owner_eq_none (by omega)
    have := hi.state_free hfree
    exact ⟨hfree, by omega⟩
  · rintro ⟨hfree, hholds⟩
    rw [hi.state_free hfree, hholds]

omit [DecidableEq τ] in
theorem Inv.state_ge {sys : RwSystem τ} (hi : sys.Inv) : -1 ≤ sys.rw.state := by
  by_cases hfree : sys.rw.exclusiveOwner = none
  · rw [hi.state_free hfree]
    omega
  · rw [hi.state_owned hfree]

theorem safe_of_reachable {sys : RwSystem τ} (hr : RwReachable sys) : sys.Safe := by
  have hi := inv_of_reachable hr
  exact ⟨hi.exclusive_iff, hi.shared_iff, hi.state_ge, hi.readers_eq, hi.writers_eq,
    fun t habort => hi.localOk_at habort, hi.noLostWakeup⟩

end RwSystem

/-- Both futex mutexes of the runtime are safe over every interleaving of their calls, for any
set of fewer than `2^30` threads (so that the contenders fit the mutex word). -/
theorem futexMutexes_safe {τ : Type} [DecidableEq τ] [Fintype τ]
    (hcard : Fintype.card τ < 2 ^ 30) :
    (∀ (recursive : Bool) (sys : MutexSystem τ), MutexReachable recursive sys → sys.Safe) ∧
      ∀ sys : RwSystem τ, RwReachable sys → sys.Safe :=
  ⟨fun _ _ hr => MutexSystem.safe_of_reachable hcard hr, fun _ hr => RwSystem.safe_of_reachable hr⟩

theorem futexMutexes_safe_twoThreads :
    Fintype.card (Fin 2) < 2 ^ 30 ∧
      ((∀ (recursive : Bool) (sys : MutexSystem (Fin 2)), MutexReachable recursive sys → sys.Safe) ∧
        ∀ sys : RwSystem (Fin 2), RwReachable sys → sys.Safe) :=
  ⟨by simp, futexMutexes_safe (by simp)⟩

end AndroidArt.Runtime
