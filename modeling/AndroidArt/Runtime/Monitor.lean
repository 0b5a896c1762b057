/-
Module: AndroidArt.Runtime.Monitor
Purpose: Locking one object (runtime/monitor.cc, mirror/object.cc): the iterations of the loops
  of Monitor::MonitorEnter, Monitor::MonitorExit and Object::IdentityHashCode, with thin-to-fat
  inflation (InflateThinLocked, Inflate, Install) and the fat monitor's TryLockLocked, Unlock and
  GetHashCode.
Trusted boundary: an iteration reads the lock word and writes it, by CAS or, where only the owner
  can write, by a plain store, as one atomic step. Where the source reads the word again before
  it writes (InflateThinLocked after suspending the owner, Install), a step of another thread in
  between can only inflate the lock, and the later read then finds it fat and changes nothing, so
  such a run is a run of this model with steps that change nothing. A CAS that fails, because the
  word changed or spuriously, a failed suspension and a monitor's Lock that waits are such steps
  too. A thread is suspended only at a suspend point, never between the read and the store of its
  own thin word. Deflation, Wait and Notify are not modelled, nothing else changes the GC bits of
  the word, and monitor ids fit the word.
Main exports: Monitor, ObjectLock, ObjectLock.monitorEnter, ObjectLock.monitorExit
-/
import AndroidArt.Lib.ReentrantLock
import AndroidArt.Runtime.LockWord

namespace AndroidArt.Runtime

open AndroidArt.Lib LockWord

/-- The fields of `art::Monitor` that locking reads and writes: `owner_` by its thread id,
`lock_count_`, and `hash_code_` (0 while the monitor has none). -/
structure Monitor where
  owner : Option Nat
  lockCount : Nat
  hashCode : Nat
deriving Repr, DecidableEq

/-- How an iteration of a loop ends: the function returns, the loop goes round again, or a
`CHECK` or `LOG(FATAL)` aborts. -/
inductive Outcome (α : Type) where
  | returned (value : α)
  | retry
  | abort
deriving Repr, DecidableEq

namespace Monitor

/-- `Monitor::TryLockLocked`: an unowned monitor is taken (`CHECK_EQ(lock_count_, 0)`), the
owner's is taken once more, another thread's is not. -/
def tryLockLocked (mon : Monitor) (self : Nat) : Outcome Bool × Monitor :=
  match mon.owner with
  | none =>
    if mon.lockCount = 0 then (.returned true, { mon with owner := some self }) else (.abort, mon)
  | some owner =>
    if owner = self then (.returned true, { mon with lockCount := mon.lockCount + 1 })
    else (.returned false, mon)

/-- `Monitor::Unlock`: only the owner unlocks, and the outermost unlock clears `owner_`. -/
def unlock (mon : Monitor) (self : Nat) : Bool × Monitor :=
  if mon.owner = some self then
    if mon.lockCount = 0 then (true, { mon with owner := none })
    else (true, { mon with lockCount := mon.lockCount - 1 })
  else (false, mon)

/-- `Monitor::GetHashCode`: `hash_code_`, which is first set to `newHash` if the monitor has
none. -/
def getHashCode (mon : Monitor) (newHash : Nat) : Nat × Monitor :=
  if mon.hashCode ≠ 0 then (mon.hashCode, mon) else (newHash, { mon with hashCode := newHash })

/-- The reentrant lock a monitor implements: its owner at depth `lock_count_ + 1`. -/
def lock (mon : Monitor) : ReentrantLock Nat :=
  match mon.owner with
  | some owner => .ownedBy owner (mon.lockCount + 1) (Nat.succ_ne_zero _)
  | none => .free

/-- The hash code the monitor stores, once it has one. -/
def storedHash (mon : Monitor) : Option Nat :=
  if mon.hashCode ≠ 0 then some mon.hashCode else none

/-- An unowned monitor has count 0, as the `CHECK_EQ` of `TryLockLocked` asserts. -/
def CountOk (mon : Monitor) : Prop :=
  mon.owner = none → mon.lockCount = 0

variable {mon : Monitor} {self : Nat}

@[simp] theorem lock_some {owner : Nat} {count hashCode : Nat} :
    (⟨some owner, count, hashCode⟩ : Monitor).lock =
      .ownedBy owner (count + 1) (Nat.succ_ne_zero _) := rfl

@[simp] theorem lock_none {count hashCode : Nat} : (⟨none, count, hashCode⟩ : Monitor).lock = .free :=
  rfl

/-- A monitor's lock reads neither its hash code nor anything but owner and count. -/
theorem lock_with_hashCode (hashCode : Nat) : { mon with hashCode := hashCode }.lock = mon.lock :=
  rfl

/-- `TryLockLocked` is an acquire of the monitor's lock, or a failed one that changes nothing. -/
theorem tryLockLocked_cases (self : Nat) (hmon : mon.CountOk) :
    (∃ mon', mon.tryLockLocked self = (.returned true, mon') ∧
      mon.lock.acquire self = some mon'.lock ∧ mon'.CountOk ∧ mon'.hashCode = mon.hashCode) ∨
    (mon.tryLockLocked self = (.returned false, mon) ∧ mon.lock.acquire self = none) := by
  obtain ⟨owner, lockCount, hashCode⟩ := mon
  cases owner with
  | none =>
    -- an unowned monitor has count 0, so the `CHECK_EQ` holds
    have hzero : lockCount = 0 := hmon rfl
    subst hzero
    left
    refine ⟨⟨some self, 0, hashCode⟩, by simp [tryLockLocked], rfl, (fun h => by cases h), rfl⟩
  | some owner =>
    by_cases hown : owner = self
    · subst hown
      left
      refine ⟨⟨some owner, lockCount + 1, hashCode⟩, by simp [tryLockLocked], by simp, ?_, rfl⟩
      intro h
      cases h
    · right
      exact ⟨by simp [tryLockLocked, hown], by simp [hown]⟩

/-- `Unlock` is a release of the monitor's lock, or a failed one that changes nothing. -/
theorem unlock_cases (self : Nat) (hmon : mon.CountOk) :
    (∃ mon', mon.unlock self = (true, mon') ∧
      mon.lock.release self = some mon'.lock ∧ mon'.CountOk ∧ mon'.hashCode = mon.hashCode) ∨
    (mon.unlock self = (false, mon) ∧ mon.lock.release self = none) := by
  obtain ⟨owner, lockCount, hashCode⟩ := mon
  by_cases hown : owner = some self
  · subst hown
    left
    by_cases hzero : lockCount = 0
    · -- the outermost unlock clears the owner
      subst hzero
      exact ⟨⟨none, 0, hashCode⟩, by simp [unlock], by simp, fun _ => rfl, rfl⟩
    · refine ⟨⟨some self, lockCount - 1, hashCode⟩, by simp [unlock, hzero], ?_, ?_, rfl⟩
      · have hcount : lockCount - 1 + 1 = lockCount := Nat.sub_add_cancel (Nat.pos_of_ne_zero hzero)
        simp [hcount, ReentrantLock.release_ownedBy_succ hzero]
      · intro h
        cases h
  · right
    refine ⟨by simp [unlock, hown], ?_⟩
    cases owner with
    | none => simp
    | some owner =>
      have hne : owner ≠ self := fun h => hown (congrArg some h)
      simp [hne]

/-- `GetHashCode` changes only the hash code, returns the one it stores, and returns the stored one
if there is one. -/
theorem getHashCode_spec (mon : Monitor) {newHash : Nat} (hnew : 0 < newHash) :
    (mon.getHashCode newHash).2 = { mon with hashCode := (mon.getHashCode newHash).1 } ∧
      (mon.getHashCode newHash).2.storedHash = some (mon.getHashCode newHash).1 ∧
      ∀ h, mon.storedHash = some h → (mon.getHashCode newHash).1 = h := by
  by_cases hhash : mon.hashCode = 0
  · have hnew' : newHash ≠ 0 := Nat.pos_iff_ne_zero.mp hnew
    simp [getHashCode, storedHash, hhash, hnew']
  · simp [getHashCode, storedHash, hhash]

end Monitor

/-- One object's lock: its lock word, and the `MonitorPool`, which maps monitor ids to
monitors. -/
structure ObjectLock where
  lockWord : LockWord
  monitorPool : Nat → Option Monitor

namespace ObjectLock

variable (useReadBarrier : Bool)

/-- `SetLockWord`, or the write of a successful `CasLockWord`. -/
def setLockWord (s : ObjectLock) (lw : LockWord) : ObjectLock :=
  { s with lockWord := lw }

/-- The monitor with id `monitorId` becomes `mon`. -/
def setMonitor (s : ObjectLock) (monitorId : Nat) (mon : Monitor) : ObjectLock :=
  { s with monitorPool := Function.update s.monitorPool monitorId (some mon) }

/-- `Monitor::Install` of `mon`, which `MonitorPool::CreateMonitor` created with id
`monitorId`: the state of the word is moved into the monitor (the thin owner is checked and
its count copied, or the hash code is checked), and the fat word is published.  A word that is
already fat means another thread installed a monitor first. -/
def install (s : ObjectLock) (mon : Monitor) (monitorId : Nat) : Outcome Bool × ObjectLock :=
  let lw := s.lockWord
  let publish (m : Monitor) : Outcome Bool × ObjectLock :=
    (.returned true, (s.setMonitor monitorId m).setLockWord (fromMonitorId monitorId lw.gcState))
  match lw.getState useReadBarrier with
  | .thinLocked =>
    if mon.owner = some lw.thinLockOwner then publish { mon with lockCount := lw.thinLockCount }
    else (.abort, s)
  | .hashCode => if mon.hashCode = lw.getHashCode then publish mon else (.abort, s)
  | .fatLocked => (.returned false, s)
  | .unlocked | .forwardingAddress => (.abort, s)

/-- `Monitor::Inflate`: a new monitor with `owner` and `hashCode` is installed, and must then
be in the word (`CHECK_EQ`), or is released when another monitor won. -/
def inflate (s : ObjectLock) (owner : Option Nat) (hashCode monitorId : Nat) :
    Option ObjectLock :=
  match install useReadBarrier s ⟨owner, 0, hashCode⟩ monitorId with
  | (.returned true, s') =>
    if s'.lockWord.getState useReadBarrier = .fatLocked then some s' else none
  | (.returned false, _) => some s
  | _ => none

/-- `Monitor::InflateThinLocked` of the thin word `lw`: the caller's own lock is inflated at
once; another thread's after suspending it, if the word still names that thread as the
owner. -/
def inflateThinLocked (s : ObjectLock) (self : Nat) (lw : LockWord) (hashCode monitorId : Nat) :
    Option ObjectLock :=
  let ownerThreadId := lw.thinLockOwner
  if ownerThreadId = self then inflate useReadBarrier s (some self) hashCode monitorId
  else
    let lw' := s.lockWord
    if lw'.getState useReadBarrier = .thinLocked ∧ lw'.thinLockOwner = ownerThreadId then
      inflate useReadBarrier s (some ownerThreadId) hashCode monitorId
    else some s

/-- The loop goes round again after an inflation, or aborts with it. -/
def retryAfter {α : Type} (s : ObjectLock) : Option ObjectLock → Outcome α × ObjectLock
  | some s' => (.retry, s')
  | none => (.abort, s)

/-- One iteration of `Monitor::MonitorEnter` by thread `self`.  `spinsExhausted` says whether
the contention count has passed `GetMaxSpinsBeforeThinLockInflation`, and `monitorId` is the id
`MonitorPool` gives a monitor the iteration creates.  A returned `true` is the object, a
returned `false` the `nullptr` of a failed `trylock`. -/
def monitorEnter (s : ObjectLock) (self : Nat) (trylock spinsExhausted : Bool)
    (monitorId : Nat) : Outcome Bool × ObjectLock :=
  let lw := s.lockWord
  match lw.getState useReadBarrier with
  | .unlocked => (.returned true, s.setLockWord (fromThinLockId self 0 lw.gcState))
  | .thinLocked =>
    if lw.thinLockOwner = self then
      let newCount := lw.thinLockCount + 1
      if newCount ≤ kThinLockMaxCount then
        (.returned true, s.setLockWord (fromThinLockId self newCount lw.gcState))
      else
        -- the recursion count would overflow: inflate and go again
        retryAfter s (inflateThinLocked useReadBarrier s self lw 0 monitorId)
    else if trylock then (.returned false, s)
    else if spinsExhausted then retryAfter s (inflateThinLocked useReadBarrier s self lw 0 monitorId)
    else (.retry, s)
  | .fatLocked =>
    match s.monitorPool lw.monitorId with
    | some mon =>
      match mon.tryLockLocked self with
      | (.returned true, mon') => (.returned true, s.setMonitor lw.monitorId mon')
      -- `TryLock` fails; `Lock` waits on the monitor and tries again
      | (.returned false, _) => if trylock then (.returned false, s) else (.retry, s)
      | _ => (.abort, s)
    | none => (.abort, s)
  | .hashCode => retryAfter s (inflate useReadBarrier s none lw.getHashCode monitorId)
  | .forwardingAddress => (.abort, s)

/-- One iteration of `Monitor::MonitorExit` by thread `self`. -/
def monitorExit (s : ObjectLock) (self : Nat) : Outcome Bool × ObjectLock :=
  let lw := s.lockWord
  match lw.getState useReadBarrier with
  | .hashCode | .unlocked => (.returned false, s)
  | .thinLocked =>
    if lw.thinLockOwner ≠ self then (.returned false, s)
    else
      let newLw :=
        if lw.thinLockCount ≠ 0 then fromThinLockId self (lw.thinLockCount - 1) lw.gcState
        else fromDefault lw.gcState
      (.returned true, s.setLockWord newLw)
  | .fatLocked =>
    match s.monitorPool lw.monitorId with
    | some mon =>
      let unlocked := mon.unlock self
      (.returned unlocked.1, s.setMonitor lw.monitorId unlocked.2)
    | none => (.abort, s)
  | .forwardingAddress => (.abort, s)

/-- One iteration of `Object::IdentityHashCode` by thread `self`, where `newHash` is what
`GenerateIdentityHashCode` returns. -/
def identityHashCode (s : ObjectLock) (self newHash monitorId : Nat) : Outcome Nat × ObjectLock :=
  let lw := s.lockWord
  match lw.getState useReadBarrier with
  | .unlocked =>
    let hashWord := fromHashCode newHash lw.gcState
    (.returned hashWord.getHashCode, s.setLockWord hashWord)
  | .thinLocked => retryAfter s (inflateThinLocked useReadBarrier s self lw newHash monitorId)
  | .fatLocked =>
    match s.monitorPool lw.monitorId with
    | some mon =>
      let hashed := mon.getHashCode newHash
      (.returned hashed.1, s.setMonitor lw.monitorId hashed.2)
    | none => (.abort, s)
  | .hashCode => (.returned lw.getHashCode, s)
  | .forwardingAddress => (.abort, s)

end ObjectLock

/-! ### What the lock word and the pool mean -/

/-- The reentrant lock a view implements with a pool: a thin lock's owner at depth
`count + 1`, or the lock of the installed monitor. -/
def LockView.lock (pool : Nat → Option Monitor) : LockView → ReentrantLock Nat
  | .thin owner count => .ownedBy owner (count + 1) (Nat.succ_ne_zero _)
  | .fat monitorId => ((pool monitorId).map Monitor.lock).getD .free
  | .unlocked | .hash _ => .free

/-- The identity hash code a view and a pool store: that of a hash word, or that of the
installed monitor once it has one. -/
def LockView.storedHash (pool : Nat → Option Monitor) : LockView → Option Nat
  | .hash hashCode => some hashCode
  | .fat monitorId => (pool monitorId).bind Monitor.storedHash
  | .unlocked | .thin _ _ => none

/-- A view fits the pool: the monitor of a fat word is in the pool, with count 0 while it is
unowned, and a stored hash code is not 0 (`GenerateIdentityHashCode` never returns 0). -/
def LockView.FitsPool (pool : Nat → Option Monitor) : LockView → Prop
  | .fat monitorId => ∃ mon, pool monitorId = some mon ∧ mon.CountOk
  | .hash hashCode => 0 < hashCode
  | .unlocked | .thin _ _ => True

namespace ObjectLock

variable (useReadBarrier : Bool)

/-- The reentrant lock the object's lock word and pool implement. -/
def lock (s : ObjectLock) : ReentrantLock Nat :=
  ((s.lockWord.view useReadBarrier).map (LockView.lock s.monitorPool)).getD .free

/-- The identity hash code stored for the object. -/
def storedHash (s : ObjectLock) : Option Nat :=
  (s.lockWord.view useReadBarrier).bind (LockView.storedHash s.monitorPool)

/-- The invariant of the object's lock: its word encodes, with the GC bits `gcState`, a valid
view that fits the pool. -/
def Inv (gcState : Nat) (s : ObjectLock) : Prop :=
  GcStateOk useReadBarrier gcState ∧
    ∃ v : LockView, v.Valid ∧ v.FitsPool s.monitorPool ∧ s.lockWord = v.encode gcState

/-- The object after the monitor `mon` with id `monitorId` is installed: `Install`'s publication
of the fat word. -/
def installed (gcState monitorId : Nat) (mon : Monitor) (s : ObjectLock) : ObjectLock :=
  (s.setMonitor monitorId mon).setLockWord ((LockView.fat monitorId).encode gcState)

/-- What an iteration of `MonitorEnter` by `self` does to the abstract lock: a returned object
is an acquire, a returned null a failed acquire, and a retry changes nothing.  It never aborts,
and it keeps the stored hash code. -/
def EnterRefines (s : ObjectLock) (self : Nat) : Outcome Bool × ObjectLock → Prop
  | (.returned true, s') =>
    (s.lock useReadBarrier).acquire self = some (s'.lock useReadBarrier) ∧
      s'.storedHash useReadBarrier = s.storedHash useReadBarrier
  | (.returned false, s') =>
    (s.lock useReadBarrier).acquire self = none ∧ s'.lock useReadBarrier = s.lock useReadBarrier ∧
      s'.storedHash useReadBarrier = s.storedHash useReadBarrier
  | (.retry, s') =>
    s'.lock useReadBarrier = s.lock useReadBarrier ∧
      s'.storedHash useReadBarrier = s.storedHash useReadBarrier
  | (.abort, _) => False

/-- What an iteration of `MonitorExit` by `self` does to the abstract lock: a returned `true` is
a release, a returned `false` a failed release that changes nothing.  It never aborts or loops,
and it keeps the stored hash code. -/
def ExitRefines (s : ObjectLock) (self : Nat) : Outcome Bool × ObjectLock → Prop
  | (.returned true, s') =>
    (s.lock useReadBarrier).release self = some (s'.lock useReadBarrier) ∧
      s'.storedHash useReadBarrier = s.storedHash useReadBarrier
  | (.returned false, s') =>
    (s.lock useReadBarrier).release self = none ∧ s'.lock useReadBarrier = s.lock useReadBarrier ∧
      s'.storedHash useReadBarrier = s.storedHash useReadBarrier
  | (.retry, _) | (.abort, _) => False

/-- What an iteration of `IdentityHashCode` does: it keeps the abstract lock and any stored hash
code, and a returned hash code is the one stored.  It never aborts. -/
def HashRefines (s : ObjectLock) : Outcome Nat × ObjectLock → Prop
  | (.returned hashCode, s') =>
    s'.lock useReadBarrier = s.lock useReadBarrier ∧
      s'.storedHash useReadBarrier = some hashCode ∧
      ∀ h, s.storedHash useReadBarrier = some h → h = hashCode
  | (.retry, s') =>
    s'.lock useReadBarrier = s.lock useReadBarrier ∧
      ∀ h, s.storedHash useReadBarrier = some h → s'.storedHash useReadBarrier = some h
  | (.abort, _) => False

end ObjectLock

/-- A thread id that `ThreadList::AllocThreadId` can give: from 1 to `kMaxThreadId` (`0xFFFF`,
which is `kThinLockMaxOwner`). -/
def ValidThreadId (t : Nat) : Prop :=
  0 < t ∧ t ≤ kThinLockMaxOwner

/-- What an iteration chooses that the model does not compute: whether the thread has spun
`GetMaxSpinsBeforeThinLockInflation` times, the id of a monitor it creates, and the value
`GenerateIdentityHashCode` returns. -/
structure Choices where
  spinsExhausted : Bool
  monitorId : Nat
  newHash : Nat
deriving Repr, DecidableEq

/-- A monitor id fits the lock word, and a generated hash code is nonzero and fits its bits
(`GenerateIdentityHashCode` loops until `expected_value & kHashMask` is nonzero). -/
def Choices.Valid (ch : Choices) : Prop :=
  ch.monitorId ≤ kMaxMonitorId ∧ 0 < ch.newHash ∧ ch.newHash ≤ kMaxHash

/-! ### Each iteration refines the abstract lock -/

namespace ObjectLock

section Refinement

variable {useReadBarrier : Bool} {gcState : Nat} {s : ObjectLock}

@[simp] theorem setLockWord_lockWord (lw : LockWord) : (s.setLockWord lw).lockWord = lw := rfl

@[simp] theorem setLockWord_monitorPool (lw : LockWord) :
    (s.setLockWord lw).monitorPool = s.monitorPool := rfl

@[simp] theorem setMonitor_lockWord (monitorId : Nat) (mon : Monitor) :
    (s.setMonitor monitorId mon).lockWord = s.lockWord := rfl

@[simp] theorem setMonitor_monitorPool (monitorId : Nat) (mon : Monitor) :
    (s.setMonitor monitorId mon).monitorPool = Function.update s.monitorPool monitorId (some mon) :=
  rfl

/-- Writing back the monitor the pool holds changes nothing. -/
theorem setMonitor_of_eq {monitorId : Nat} {mon : Monitor} (hp : s.monitorPool monitorId = some mon) :
    s.setMonitor monitorId mon = s := by
  rw [setMonitor, ← hp, Function.update_eq_self]

theorem lock_of_encode (hg : GcStateOk useReadBarrier gcState) {v : LockView}
    (hs : s.lockWord = v.encode gcState) (hv : v.Valid) : s.lock useReadBarrier = v.lock s.monitorPool := by
  rw [lock, hs, view_encode hg hv]
  rfl

theorem storedHash_of_encode (hg : GcStateOk useReadBarrier gcState) {v : LockView}
    (hs : s.lockWord = v.encode gcState) (hv : v.Valid) :
    s.storedHash useReadBarrier = v.storedHash s.monitorPool := by
  rw [storedHash, hs, view_encode hg hv]
  rfl

section Encoded

variable {v : LockView}

/-- Writing an encoded valid view that fits the pool keeps the invariant. -/
theorem inv_setLockWord (hg : GcStateOk useReadBarrier gcState) (hv : v.Valid)
    (hf : v.FitsPool s.monitorPool) : (s.setLockWord (v.encode gcState)).Inv useReadBarrier gcState :=
  ⟨hg, v, hv, hf, rfl⟩

theorem lock_setLockWord (hg : GcStateOk useReadBarrier gcState) (hv : v.Valid) :
    (s.setLockWord (v.encode gcState)).lock useReadBarrier = v.lock s.monitorPool :=
  lock_of_encode hg rfl hv

theorem storedHash_setLockWord (hg : GcStateOk useReadBarrier gcState) (hv : v.Valid) :
    (s.setLockWord (v.encode gcState)).storedHash useReadBarrier = v.storedHash s.monitorPool :=
  storedHash_of_encode hg rfl hv

end Encoded

section Fat

variable {monitorId : Nat} {mon : Monitor}

/-- A fat word means the lock and the hash code of its monitor. -/
theorem lock_of_fat (hg : GcStateOk useReadBarrier gcState) (hm : monitorId ≤ kMaxMonitorId)
    (hs : s.lockWord = (LockView.fat monitorId).encode gcState)
    (hp : s.monitorPool monitorId = some mon) : s.lock useReadBarrier = mon.lock := by
  rw [lock_of_encode hg hs hm]
  simp [LockView.lock, hp]

theorem storedHash_of_fat (hg : GcStateOk useReadBarrier gcState) (hm : monitorId ≤ kMaxMonitorId)
    (hs : s.lockWord = (LockView.fat monitorId).encode gcState)
    (hp : s.monitorPool monitorId = some mon) : s.storedHash useReadBarrier = mon.storedHash := by
  rw [storedHash_of_encode hg hs hm]
  simp [LockView.storedHash, hp]

theorem inv_of_fat (hg : GcStateOk useReadBarrier gcState) (hm : monitorId ≤ kMaxMonitorId)
    (hs : s.lockWord = (LockView.fat monitorId).encode gcState)
    (hp : s.monitorPool monitorId = some mon) (hmon : mon.CountOk) :
    s.Inv useReadBarrier gcState :=
  ⟨hg, .fat monitorId, hm, ⟨mon, hp, hmon⟩, hs⟩

theorem installed_monitorPool : (installed gcState monitorId mon s).monitorPool monitorId = some mon := by
  simp [installed]

theorem getState_installed (hg : GcStateOk useReadBarrier gcState) (hm : monitorId ≤ kMaxMonitorId) :
    (installed gcState monitorId mon s).lockWord.getState useReadBarrier = .fatLocked :=
  getState_encode hg hm

theorem inv_installed (hg : GcStateOk useReadBarrier gcState) (hm : monitorId ≤ kMaxMonitorId)
    (hmon : mon.CountOk) : (installed gcState monitorId mon s).Inv useReadBarrier gcState :=
  inv_of_fat hg hm rfl installed_monitorPool hmon

theorem lock_installed (hg : GcStateOk useReadBarrier gcState) (hm : monitorId ≤ kMaxMonitorId) :
    (installed gcState monitorId mon s).lock useReadBarrier = mon.lock :=
  lock_of_fat hg hm rfl installed_monitorPool

theorem storedHash_installed (hg : GcStateOk useReadBarrier gcState)
    (hm : monitorId ≤ kMaxMonitorId) :
    (installed gcState monitorId mon s).storedHash useReadBarrier = mon.storedHash :=
  storedHash_of_fat hg hm rfl installed_monitorPool

/-- Updating the installed monitor keeps the invariant, if the update keeps its count right, and
the lock and hash code are the new monitor's. -/
theorem setMonitor_fat (hg : GcStateOk useReadBarrier gcState) (hm : monitorId ≤ kMaxMonitorId)
    (hs : s.lockWord = (LockView.fat monitorId).encode gcState) (hmon : mon.CountOk) :
    (s.setMonitor monitorId mon).Inv useReadBarrier gcState ∧
      (s.setMonitor monitorId mon).lock useReadBarrier = mon.lock ∧
      (s.setMonitor monitorId mon).storedHash useReadBarrier = mon.storedHash := by
  have hs' : (s.setMonitor monitorId mon).lockWord = (LockView.fat monitorId).encode gcState := hs
  have hp : (s.setMonitor monitorId mon).monitorPool monitorId = some mon := by simp
  exact ⟨inv_of_fat hg hm hs' hp hmon, lock_of_fat hg hm hs' hp, storedHash_of_fat hg hm hs' hp⟩

end Fat

section Inflation

variable {owner count hashCode monitorId : Nat}

/-- `Install` of a monitor owned by the thin lock's owner copies the recursion count into it and
publishes the fat word. -/
theorem install_thin (hg : GcStateOk useReadBarrier gcState) (hv : (LockView.thin owner count).Valid)
    (hs : s.lockWord = (LockView.thin owner count).encode gcState) :
    install useReadBarrier s ⟨some owner, 0, hashCode⟩ monitorId =
      (.returned true, installed gcState monitorId ⟨some owner, count, hashCode⟩ s) := by
  obtain ⟨ho, hc⟩ := thin_encode hg hv
  simp [install, hs, getState_encode hg hv, LockView.state, ho, hc, gcState_encode hg hv]
  rfl

/-- `Install` of a monitor with the hash word's hash code publishes the fat word. -/
theorem install_hash (hg : GcStateOk useReadBarrier gcState) (hv : (LockView.hash hashCode).Valid)
    (hs : s.lockWord = (LockView.hash hashCode).encode gcState) :
    install useReadBarrier s ⟨none, 0, hashCode⟩ monitorId =
      (.returned true, installed gcState monitorId ⟨none, 0, hashCode⟩ s) := by
  simp [install, hs, getState_encode hg hv, LockView.state, getHashCode_encode hg hv,
    gcState_encode hg hv]
  rfl

theorem inflate_thin (hg : GcStateOk useReadBarrier gcState) (hv : (LockView.thin owner count).Valid)
    (hs : s.lockWord = (LockView.thin owner count).encode gcState) (hm : monitorId ≤ kMaxMonitorId) :
    inflate useReadBarrier s (some owner) hashCode monitorId =
      some (installed gcState monitorId ⟨some owner, count, hashCode⟩ s) := by
  rw [inflate, install_thin hg hv hs]
  simp [getState_installed hg hm]

theorem inflate_hash (hg : GcStateOk useReadBarrier gcState) (hv : (LockView.hash hashCode).Valid)
    (hs : s.lockWord = (LockView.hash hashCode).encode gcState) (hm : monitorId ≤ kMaxMonitorId) :
    inflate useReadBarrier s none hashCode monitorId =
      some (installed gcState monitorId ⟨none, 0, hashCode⟩ s) := by
  rw [inflate, install_hash hg hv hs]
  simp [getState_installed hg hm]

/-- `InflateThinLocked` of the thin word the object holds moves the lock into a monitor that the
thin lock's owner owns, whether that is the caller or a thread it suspends. -/
theorem inflateThinLocked_thin (self hashCode : Nat) (hg : GcStateOk useReadBarrier gcState)
    (hv : (LockView.thin owner count).Valid)
    (hs : s.lockWord = (LockView.thin owner count).encode gcState) (hm : monitorId ≤ kMaxMonitorId) :
    inflateThinLocked useReadBarrier s self ((LockView.thin owner count).encode gcState) hashCode
        monitorId = some (installed gcState monitorId ⟨some owner, count, hashCode⟩ s) := by
  obtain ⟨ho, -⟩ := thin_encode hg hv
  by_cases hself : owner = self
  · subst hself
    simp [inflateThinLocked, ho, inflate_thin hg hv hs hm]
  · -- the word read again after the suspension still names the suspended owner
    simp [inflateThinLocked, ho, hself, hs, getState_encode hg hv, LockView.state,
      inflate_thin hg hv hs hm]

/-- Inflating a thin lock keeps the abstract lock, and stores the hash code given to the
monitor. -/
theorem installed_thin (hashCode : Nat) (hg : GcStateOk useReadBarrier gcState)
    (hv : (LockView.thin owner count).Valid)
    (hs : s.lockWord = (LockView.thin owner count).encode gcState) (hm : monitorId ≤ kMaxMonitorId) :
    (installed gcState monitorId ⟨some owner, count, hashCode⟩ s).Inv useReadBarrier gcState ∧
      (installed gcState monitorId ⟨some owner, count, hashCode⟩ s).lock useReadBarrier =
        s.lock useReadBarrier ∧
      (installed gcState monitorId ⟨some owner, count, hashCode⟩ s).storedHash useReadBarrier =
        Monitor.storedHash ⟨some owner, count, hashCode⟩ := by
  refine ⟨inv_installed hg hm (fun h => by cases h), ?_, storedHash_installed hg hm⟩
  rw [lock_installed hg hm, lock_of_encode hg hs hv]
  rfl

/-- Inflating a hash word keeps the abstract lock, which is free, and the hash code. -/
theorem installed_hash (hg : GcStateOk useReadBarrier gcState)
    (hv : (LockView.hash hashCode).Valid) (hpos : 0 < hashCode)
    (hs : s.lockWord = (LockView.hash hashCode).encode gcState) (hm : monitorId ≤ kMaxMonitorId) :
    (installed gcState monitorId ⟨none, 0, hashCode⟩ s).Inv useReadBarrier gcState ∧
      (installed gcState monitorId ⟨none, 0, hashCode⟩ s).lock useReadBarrier =
        s.lock useReadBarrier ∧
      (installed gcState monitorId ⟨none, 0, hashCode⟩ s).storedHash useReadBarrier =
        s.storedHash useReadBarrier := by
  refine ⟨inv_installed hg hm (fun _ => rfl), ?_, ?_⟩
  · rw [lock_installed hg hm, lock_of_encode hg hs hv]
    rfl
  · rw [storedHash_installed hg hm, storedHash_of_encode hg hs hv]
    simp [Monitor.storedHash, LockView.storedHash, Nat.pos_iff_ne_zero.mp hpos]

end Inflation

section Iterations

variable {self : Nat} {trylock spinsExhausted : Bool} {monitorId : Nat}

/-! #### `MonitorEnter` -/

theorem monitorEnter_unlocked (hg : GcStateOk useReadBarrier gcState)
    (hs : s.lockWord = LockView.unlocked.encode gcState) (hself : ValidThreadId self) :
    (s.monitorEnter useReadBarrier self trylock spinsExhausted monitorId).2.Inv useReadBarrier
        gcState ∧
      s.EnterRefines useReadBarrier self
        (s.monitorEnter useReadBarrier self trylock spinsExhausted monitorId) := by
  have hu : LockView.unlocked.Valid := trivial
  have hv : (LockView.thin self 0).Valid := ⟨hself.1, hself.2, Nat.zero_le _⟩
  simp only [monitorEnter, hs, getState_encode hg hu, LockView.state, gcState_encode hg hu,
    ← LockView.encode_thin]
  refine ⟨inv_setLockWord hg hv trivial, ?_, ?_⟩
  · rw [lock_of_encode hg hs hu, lock_setLockWord hg hv]
    rfl
  · rw [storedHash_setLockWord hg hv, storedHash_of_encode hg hs hu]
    rfl

theorem monitorEnter_thin {owner count : Nat} (hg : GcStateOk useReadBarrier gcState)
    (hv : (LockView.thin owner count).Valid)
    (hs : s.lockWord = (LockView.thin owner count).encode gcState) (hm : monitorId ≤ kMaxMonitorId) :
    (s.monitorEnter useReadBarrier self trylock spinsExhausted monitorId).2.Inv useReadBarrier
        gcState ∧
      s.EnterRefines useReadBarrier self
        (s.monitorEnter useReadBarrier self trylock spinsExhausted monitorId) := by
  obtain ⟨ho, hc⟩ := thin_encode hg hv
  have hlock := lock_of_encode hg hs hv
  have hhash := storedHash_of_encode hg hs hv
  -- an inflation moves the lock into a monitor that has no hash code
  obtain ⟨hinv₁, hlock₁, hhash₁⟩ := installed_thin 0 hg hv hs hm
  have hhash₁' : Monitor.storedHash ⟨some owner, count, 0⟩ = s.storedHash useReadBarrier := by
    rw [hhash]
    rfl
  simp only [monitorEnter, hs, getState_encode hg hv, LockView.state, ho, hc, gcState_encode hg hv,
    inflateThinLocked_thin self 0 hg hv hs hm, retryAfter, ← LockView.encode_thin]
  split_ifs with hself hcount htry hspins
  · -- a recursive enter: the count grows in the thin word
    subst hself
    have hv' : (LockView.thin owner (count + 1)).Valid := ⟨hv.1, hv.2.1, hcount⟩
    refine ⟨inv_setLockWord hg hv' trivial, ?_, ?_⟩
    · rw [hlock, lock_setLockWord hg hv']
      simp [LockView.lock]
    · rw [storedHash_setLockWord hg hv', hhash]
      rfl
  · -- the count would overflow: the lock moves into a monitor
    exact ⟨hinv₁, hlock₁, hhash₁.trans hhash₁'⟩
  · -- a failed trylock
    refine ⟨⟨hg, _, hv, trivial, hs⟩, ?_, rfl, rfl⟩
    rw [hlock]
    simp [LockView.lock, hself]
  · -- contention past the spins: the owner's lock moves into a monitor
    exact ⟨hinv₁, hlock₁, hhash₁.trans hhash₁'⟩
  · exact ⟨⟨hg, _, hv, trivial, hs⟩, rfl, rfl⟩

theorem monitorEnter_fat {m : Nat} (hg : GcStateOk useReadBarrier gcState)
    (hv : (LockView.fat m).Valid) (hf : (LockView.fat m).FitsPool s.monitorPool)
    (hs : s.lockWord = (LockView.fat m).encode gcState) :
    (s.monitorEnter useReadBarrier self trylock spinsExhausted monitorId).2.Inv useReadBarrier
        gcState ∧
      s.EnterRefines useReadBarrier self
        (s.monitorEnter useReadBarrier self trylock spinsExhausted monitorId) := by
  obtain ⟨mon, hp, hmon⟩ := hf
  have hlock := lock_of_fat hg hv hs hp
  have hhash := storedHash_of_fat hg hv hs hp
  rcases Monitor.tryLockLocked_cases self hmon with ⟨mon', hr, ha, hmon', hh⟩ | ⟨hr, ha⟩
  · -- `TryLockLocked` takes the monitor
    obtain ⟨hinv', hlock', hhash'⟩ := setMonitor_fat hg hv hs hmon'
    simp only [monitorEnter, hs, getState_encode hg hv, LockView.state, monitorId_encode hg hv, hp,
      hr]
    refine ⟨hinv', ?_, ?_⟩
    · rw [hlock, hlock', ha]
    · rw [hhash', hhash]
      simp [Monitor.storedHash, hh]
  · -- another thread owns the monitor: a trylock fails, a lock waits
    simp only [monitorEnter, hs, getState_encode hg hv, LockView.state, monitorId_encode hg hv, hp,
      hr]
    have hi : s.Inv useReadBarrier gcState := ⟨hg, _, hv, ⟨mon, hp, hmon⟩, hs⟩
    split_ifs
    · exact ⟨hi, by rw [hlock, ha], rfl, rfl⟩
    · exact ⟨hi, rfl, rfl⟩

theorem monitorEnter_hash {hashCode : Nat} (hg : GcStateOk useReadBarrier gcState)
    (hv : (LockView.hash hashCode).Valid) (hf : (LockView.hash hashCode).FitsPool s.monitorPool)
    (hs : s.lockWord = (LockView.hash hashCode).encode gcState) (hm : monitorId ≤ kMaxMonitorId) :
    (s.monitorEnter useReadBarrier self trylock spinsExhausted monitorId).2.Inv useReadBarrier
        gcState ∧
      s.EnterRefines useReadBarrier self
        (s.monitorEnter useReadBarrier self trylock spinsExhausted monitorId) := by
  simp only [monitorEnter, hs, getState_encode hg hv, LockView.state, getHashCode_encode hg hv,
    inflate_hash hg hv hs hm, retryAfter]
  exact installed_hash hg hv hf hs hm

/-- Every iteration of `MonitorEnter` by a thread keeps the invariant and refines the abstract
lock. -/
theorem monitorEnter_spec (trylock spinsExhausted : Bool) (hi : s.Inv useReadBarrier gcState) (hself : ValidThreadId self)
    (hm : monitorId ≤ kMaxMonitorId) :
    (s.monitorEnter useReadBarrier self trylock spinsExhausted monitorId).2.Inv useReadBarrier
        gcState ∧
      s.EnterRefines useReadBarrier self
        (s.monitorEnter useReadBarrier self trylock spinsExhausted monitorId) := by
  obtain ⟨hg, v, hv, hf, hs⟩ := hi
  cases v with
  | unlocked => exact monitorEnter_unlocked hg hs hself
  | thin owner count => exact monitorEnter_thin hg hv hs hm
  | fat m => exact monitorEnter_fat hg hv hf hs
  | hash hashCode => exact monitorEnter_hash hg hv hf hs hm

/-! #### `MonitorExit` -/

theorem monitorExit_thin {owner count : Nat} (hg : GcStateOk useReadBarrier gcState)
    (hv : (LockView.thin owner count).Valid)
    (hs : s.lockWord = (LockView.thin owner count).encode gcState) :
    (s.monitorExit useReadBarrier self).2.Inv useReadBarrier gcState ∧
      s.ExitRefines useReadBarrier self (s.monitorExit useReadBarrier self) := by
  obtain ⟨ho, hc⟩ := thin_encode hg hv
  have hlock := lock_of_encode hg hs hv
  have hhash := storedHash_of_encode hg hs hv
  simp only [monitorExit, hs, getState_encode hg hv, LockView.state, ho, hc, gcState_encode hg hv,
    ← LockView.encode_thin, ← LockView.encode_unlocked]
  split_ifs with hown hcount
  · -- another thread's lock
    refine ⟨⟨hg, _, hv, trivial, hs⟩, ?_, rfl, rfl⟩
    rw [hlock]
    simp [LockView.lock, hown]
  · -- a nested exit: the count drops in the thin word
    obtain rfl : owner = self := not_not.mp hown
    have hv' : (LockView.thin owner (count - 1)).Valid := ⟨hv.1, hv.2.1, by have := hv.2.2; omega⟩
    refine ⟨inv_setLockWord hg hv' trivial, ?_, ?_⟩
    · rw [hlock, lock_setLockWord hg hv']
      simp [LockView.lock, Nat.sub_one_add_one hcount, hcount]
    · rw [storedHash_setLockWord hg hv', hhash]
      rfl
  · -- the outermost exit: the word is unlocked again
    obtain rfl : owner = self := not_not.mp hown
    obtain rfl : count = 0 := not_not.mp hcount
    have hu : LockView.unlocked.Valid := trivial
    refine ⟨inv_setLockWord hg hu trivial, ?_, ?_⟩
    · rw [hlock, lock_setLockWord hg hu]
      simp [LockView.lock]
    · rw [storedHash_setLockWord hg hu, hhash]
      rfl

theorem monitorExit_fat {m : Nat} (hg : GcStateOk useReadBarrier gcState)
    (hv : (LockView.fat m).Valid) (hf : (LockView.fat m).FitsPool s.monitorPool)
    (hs : s.lockWord = (LockView.fat m).encode gcState) :
    (s.monitorExit useReadBarrier self).2.Inv useReadBarrier gcState ∧
      s.ExitRefines useReadBarrier self (s.monitorExit useReadBarrier self) := by
  obtain ⟨mon, hp, hmon⟩ := hf
  have hlock := lock_of_fat hg hv hs hp
  have hhash := storedHash_of_fat hg hv hs hp
  rcases Monitor.unlock_cases self hmon with ⟨mon', hr, hrel, hmon', hh⟩ | ⟨hr, hrel⟩
  · -- the owner unlocks the monitor
    obtain ⟨hinv', hlock', hhash'⟩ := setMonitor_fat hg hv hs hmon'
    simp only [monitorExit, hs, getState_encode hg hv, LockView.state, monitorId_encode hg hv, hp,
      hr]
    refine ⟨hinv', ?_, ?_⟩
    · rw [hlock, hlock', hrel]
    · rw [hhash', hhash]
      simp [Monitor.storedHash, hh]
  · -- `Unlock` by another thread fails and leaves the monitor as it is
    simp only [monitorExit, hs, getState_encode hg hv, LockView.state, monitorId_encode hg hv, hp,
      hr, setMonitor_of_eq hp]
    exact ⟨⟨hg, _, hv, ⟨mon, hp, hmon⟩, hs⟩, by rw [hlock, hrel], rfl, rfl⟩

/-- Every iteration of `MonitorExit` keeps the invariant and refines the abstract lock. -/
theorem monitorExit_spec (self : Nat) (hi : s.Inv useReadBarrier gcState) :
    (s.monitorExit useReadBarrier self).2.Inv useReadBarrier gcState ∧
      s.ExitRefines useReadBarrier self (s.monitorExit useReadBarrier self) := by
  obtain ⟨hg, v, hv, hf, hs⟩ := hi
  have hlock := lock_of_encode hg hs hv
  cases v with
  | unlocked =>
    simp only [monitorExit, hs, getState_encode hg hv, LockView.state]
    exact ⟨⟨hg, _, hv, hf, hs⟩, by rw [hlock]; simp [LockView.lock], rfl, rfl⟩
  | thin owner count => exact monitorExit_thin hg hv hs
  | fat m => exact monitorExit_fat hg hv hf hs
  | hash hashCode =>
    simp only [monitorExit, hs, getState_encode hg hv, LockView.state]
    exact ⟨⟨hg, _, hv, hf, hs⟩, by rw [hlock]; simp [LockView.lock], rfl, rfl⟩

/-! #### `IdentityHashCode` -/

variable {newHash : Nat}

theorem identityHashCode_unlocked (hg : GcStateOk useReadBarrier gcState)
    (hs : s.lockWord = LockView.unlocked.encode gcState) (hpos : 0 < newHash)
    (hmax : newHash ≤ kMaxHash) :
    (s.identityHashCode useReadBarrier self newHash monitorId).2.Inv useReadBarrier gcState ∧
      s.HashRefines useReadBarrier (s.identityHashCode useReadBarrier self newHash monitorId) := by
  have hu : LockView.unlocked.Valid := trivial
  have hv : (LockView.hash newHash).Valid := hmax
  simp only [identityHashCode, hs, getState_encode hg hu, LockView.state, gcState_encode hg hu,
    ← LockView.encode_hash, getHashCode_encode hg hv]
  refine ⟨inv_setLockWord hg hv hpos, ?_, ?_, ?_⟩
  · rw [lock_setLockWord hg hv, lock_of_encode hg hs hu]
    rfl
  · rw [storedHash_setLockWord hg hv]
    rfl
  · rw [storedHash_of_encode hg hs hu]
    intro h hsome
    cases hsome

theorem identityHashCode_thin {owner count : Nat} (hg : GcStateOk useReadBarrier gcState)
    (hv : (LockView.thin owner count).Valid)
    (hs : s.lockWord = (LockView.thin owner count).encode gcState) (hm : monitorId ≤ kMaxMonitorId) :
    (s.identityHashCode useReadBarrier self newHash monitorId).2.Inv useReadBarrier gcState ∧
      s.HashRefines useReadBarrier (s.identityHashCode useReadBarrier self newHash monitorId) := by
  obtain ⟨hinv₁, hlock₁, -⟩ := installed_thin newHash hg hv hs hm
  simp only [identityHashCode, hs, getState_encode hg hv, LockView.state,
    inflateThinLocked_thin self newHash hg hv hs hm, retryAfter]
  refine ⟨hinv₁, hlock₁, ?_⟩
  -- a thin word stores no hash code
  rw [storedHash_of_encode hg hs hv]
  intro h hsome
  cases hsome

theorem identityHashCode_fat {m : Nat} (hg : GcStateOk useReadBarrier gcState)
    (hv : (LockView.fat m).Valid) (hf : (LockView.fat m).FitsPool s.monitorPool)
    (hs : s.lockWord = (LockView.fat m).encode gcState) (hpos : 0 < newHash) :
    (s.identityHashCode useReadBarrier self newHash monitorId).2.Inv useReadBarrier gcState ∧
      s.HashRefines useReadBarrier (s.identityHashCode useReadBarrier self newHash monitorId) := by
  obtain ⟨mon, hp, hmon⟩ := hf
  obtain ⟨hwith, hstored, hprev⟩ := Monitor.getHashCode_spec mon hpos
  have hmon' : (mon.getHashCode newHash).2.CountOk := by
    rw [hwith]
    exact hmon
  obtain ⟨hinv', hlock', hhash'⟩ := setMonitor_fat hg hv hs hmon'
  simp only [identityHashCode, hs, getState_encode hg hv, LockView.state, monitorId_encode hg hv, hp]
  refine ⟨hinv', ?_, ?_, ?_⟩
  · rw [hlock', lock_of_fat hg hv hs hp, hwith, Monitor.lock_with_hashCode]
  · rw [hhash', hstored]
  · intro h hsome
    rw [storedHash_of_fat hg hv hs hp] at hsome
    exact (hprev h hsome).symm

theorem identityHashCode_hash {hashCode : Nat} (hg : GcStateOk useReadBarrier gcState)
    (hv : (LockView.hash hashCode).Valid) (hf : (LockView.hash hashCode).FitsPool s.monitorPool)
    (hs : s.lockWord = (LockView.hash hashCode).encode gcState) :
    (s.identityHashCode useReadBarrier self newHash monitorId).2.Inv useReadBarrier gcState ∧
      s.HashRefines useReadBarrier (s.identityHashCode useReadBarrier self newHash monitorId) := by
  have hhash := storedHash_of_encode hg hs hv
  simp only [identityHashCode, hs, getState_encode hg hv, LockView.state, getHashCode_encode hg hv]
  refine ⟨⟨hg, _, hv, hf, hs⟩, rfl, hhash, ?_⟩
  intro h hsome
  rw [hhash] at hsome
  exact Option.some.inj hsome.symm

/-- Every iteration of `IdentityHashCode` keeps the invariant, the abstract lock and the stored
hash code, and returns the stored hash code. -/
theorem identityHashCode_spec (self : Nat) (hi : s.Inv useReadBarrier gcState) (hpos : 0 < newHash)
    (hmax : newHash ≤ kMaxHash) (hm : monitorId ≤ kMaxMonitorId) :
    (s.identityHashCode useReadBarrier self newHash monitorId).2.Inv useReadBarrier gcState ∧
      s.HashRefines useReadBarrier (s.identityHashCode useReadBarrier self newHash monitorId) := by
  obtain ⟨hg, v, hv, hf, hs⟩ := hi
  cases v with
  | unlocked => exact identityHashCode_unlocked hg hs hpos hmax
  | thin owner count => exact identityHashCode_thin hg hv hs hm
  | fat m => exact identityHashCode_fat hg hv hf hs hpos
  | hash hashCode => exact identityHashCode_hash hg hv hf hs

end Iterations

variable {self : Nat}

/-- An enter that returns the object leaves the lock owned by the caller. -/
theorem EnterRefines.owner {r : Outcome Bool × ObjectLock} (h : s.EnterRefines useReadBarrier self r)
    (hret : r.1 = .returned true) : (r.2.lock useReadBarrier).owner = some self := by
  obtain ⟨out, s'⟩ := r
  cases hret
  exact ReentrantLock.owner_of_acquire h.1

/-- An exit by a thread that does not own the lock fails and leaves the lock as it is. -/
theorem ExitRefines.of_not_owner {r : Outcome Bool × ObjectLock}
    (h : s.ExitRefines useReadBarrier self r) (hown : (s.lock useReadBarrier).owner ≠ some self) :
    r.1 = .returned false ∧ r.2.lock useReadBarrier = s.lock useReadBarrier := by
  have hnone := ReentrantLock.release_eq_none_iff.mpr hown
  obtain ⟨out, s'⟩ := r
  cases out with
  | returned exited =>
    cases exited
    · exact ⟨rfl, h.2.1⟩
    · -- a successful exit is a release, which a non-owner cannot make
      have hrel := h.1
      rw [hnone] at hrel
      cases hrel
  | retry => exact h.elim
  | abort => exact h.elim

end Refinement

end ObjectLock

/-! ### Every interleaving -/

/-- A call a thread makes on the object. -/
inductive Request where
  | monitorEnter (trylock : Bool)
  | monitorExit
  | identityHashCode
deriving Repr, DecidableEq

/-- The object's lock, with each thread's balance of successful enters minus successful exits
as ghost state. -/
structure System where
  object : ObjectLock
  held : Nat → Nat

namespace System

variable (useReadBarrier : Bool)

/-- One iteration of the call `req` by the thread `self`: the object changes as the iteration
says, and a successful enter or exit moves the thread's balance. -/
def step (sys : System) (self : Nat) (req : Request) (ch : Choices) : System :=
  match req with
  | .monitorEnter trylock =>
    match sys.object.monitorEnter useReadBarrier self trylock ch.spinsExhausted ch.monitorId with
    | (.returned true, object) => ⟨object, Function.update sys.held self (sys.held self + 1)⟩
    | (_, object) => ⟨object, sys.held⟩
  | .monitorExit =>
    match sys.object.monitorExit useReadBarrier self with
    | (.returned true, object) => ⟨object, Function.update sys.held self (sys.held self - 1)⟩
    | (_, object) => ⟨object, sys.held⟩
  | .identityHashCode =>
    ⟨(sys.object.identityHashCode useReadBarrier self ch.newHash ch.monitorId).2, sys.held⟩

/-- A new object: its word is `LockWord::FromDefault` of its GC bits, no monitor exists, and no
thread has entered. -/
def init (gcState : Nat) : System :=
  ⟨⟨fromDefault gcState, fun _ => none⟩, fun _ => 0⟩

/-- The invariant of every run: the object's invariant, and the abstract lock tracks the
balances. -/
def Inv (gcState : Nat) (sys : System) : Prop :=
  sys.object.Inv useReadBarrier gcState ∧ (sys.object.lock useReadBarrier).Tracks sys.held

end System

/-- The systems that some interleaving of iterations by valid threads reaches from a new
object. -/
inductive Reachable (useReadBarrier : Bool) (gcState : Nat) : System → Prop where
  | init (hg : GcStateOk useReadBarrier gcState) :
    Reachable useReadBarrier gcState (System.init gcState)
  | step {sys : System} {self : Nat} {req : Request} {ch : Choices}
    (hr : Reachable useReadBarrier gcState sys) (hself : ValidThreadId self) (hch : ch.Valid) :
    Reachable useReadBarrier gcState (sys.step useReadBarrier self req ch)

namespace System

variable {useReadBarrier : Bool} {gcState : Nat} {sys : System}

theorem inv_init (hg : GcStateOk useReadBarrier gcState) :
    (init gcState).Inv useReadBarrier gcState := by
  have hu : LockView.unlocked.Valid := trivial
  have hs : (init gcState).object.lockWord = LockView.unlocked.encode gcState := rfl
  refine ⟨⟨hg, _, hu, trivial, hs⟩, ?_⟩
  rw [ObjectLock.lock_of_encode hg hs hu]
  exact ReentrantLock.free_tracks

/-- One iteration by a valid thread with valid choices keeps the invariant: each iteration moves
the abstract lock as it moves the balances. -/
theorem Inv.step (hi : sys.Inv useReadBarrier gcState) {self : Nat} (hself : ValidThreadId self)
    (req : Request) {ch : Choices} (hch : ch.Valid) :
    (sys.step useReadBarrier self req ch).Inv useReadBarrier gcState := by
  obtain ⟨hobj, htracks⟩ := hi
  cases req with
  | monitorEnter trylock =>
    have hspec := ObjectLock.monitorEnter_spec trylock ch.spinsExhausted hobj hself hch.1
    simp only [System.step]
    revert hspec
    generalize sys.object.monitorEnter useReadBarrier self trylock ch.spinsExhausted ch.monitorId = r
    obtain ⟨out, object⟩ := r
    rintro ⟨hinv, href⟩
    cases out with
    | returned entered =>
      cases entered
      · -- a failed trylock changes neither the lock nor the balances
        exact ⟨hinv, href.2.1 ▸ htracks⟩
      · exact ⟨hinv, htracks.acquire href.1⟩
    | retry => exact ⟨hinv, href.1 ▸ htracks⟩
    | abort => exact href.elim
  | monitorExit =>
    have hspec := ObjectLock.monitorExit_spec self hobj
    simp only [System.step]
    revert hspec
    generalize sys.object.monitorExit useReadBarrier self = r
    obtain ⟨out, object⟩ := r
    rintro ⟨hinv, href⟩
    cases out with
    | returned exited =>
      cases exited
      · exact ⟨hinv, href.2.1 ▸ htracks⟩
      · exact ⟨hinv, htracks.release href.1⟩
    | retry => exact href.elim
    | abort => exact href.elim
  | identityHashCode =>
    have hspec := ObjectLock.identityHashCode_spec self hobj hch.2.1 hch.2.2 hch.1
    simp only [System.step]
    revert hspec
    generalize sys.object.identityHashCode useReadBarrier self ch.newHash ch.monitorId = r
    obtain ⟨out, object⟩ := r
    rintro ⟨hinv, href⟩
    -- hash codes never move the lock
    cases out with
    | returned hashCode => exact ⟨hinv, href.1 ▸ htracks⟩
    | retry => exact ⟨hinv, href.1 ▸ htracks⟩
    | abort => exact href.elim

/-- The invariant holds in every reachable system. -/
theorem inv_of_reachable (hr : Reachable useReadBarrier gcState sys) :
    sys.Inv useReadBarrier gcState := by
  induction hr with
  | init hg => exact inv_init hg
  | step _ hself hch ih => exact ih.step hself _ hch

/-- What locking guarantees in a system.  The owner of the abstract lock (the thin-lock owner,
or the owner of the installed monitor) has as depth its balance of successful enters minus
successful exits, and every other thread a zero balance, so at most one thread holds the lock.
Every next iteration of a valid thread refines the abstract lock and aborts nowhere: an enter
that returns the object leaves the caller owning the lock, an exit by a thread that does not
own it fails and leaves it as it is, and hash codes once stored stay. -/
structure LockingSafe (useReadBarrier : Bool) (sys : System) : Prop where
  tracks : (sys.object.lock useReadBarrier).Tracks sys.held
  exclusive : ∀ t u, 0 < sys.held t → 0 < sys.held u → t = u
  enter : ∀ (self : Nat) (trylock : Bool) (ch : Choices), ValidThreadId self → ch.Valid →
    let r := sys.object.monitorEnter useReadBarrier self trylock ch.spinsExhausted ch.monitorId
    sys.object.EnterRefines useReadBarrier self r ∧
      (r.1 = .returned true → (r.2.lock useReadBarrier).owner = some self)
  exit : ∀ self : Nat,
    let r := sys.object.monitorExit useReadBarrier self
    sys.object.ExitRefines useReadBarrier self r ∧
      ((sys.object.lock useReadBarrier).owner ≠ some self →
        r.1 = .returned false ∧ r.2.lock useReadBarrier = sys.object.lock useReadBarrier)
  identityHashCode : ∀ (self : Nat) (ch : Choices), ch.Valid →
    sys.object.HashRefines useReadBarrier
      (sys.object.identityHashCode useReadBarrier self ch.newHash ch.monitorId)

/-- Locking is safe in every system that an interleaving of iterations by valid threads
reaches. -/
theorem reachable_lockingSafe (hr : Reachable useReadBarrier gcState sys) :
    LockingSafe useReadBarrier sys := by
  obtain ⟨hobj, htracks⟩ := inv_of_reachable hr
  refine ⟨htracks, fun t u ht hu => htracks.exclusive ht hu, ?_, ?_, ?_⟩
  · intro self trylock ch hself hch
    have href := (ObjectLock.monitorEnter_spec trylock ch.spinsExhausted hobj hself hch.1).2
    exact ⟨href, href.owner⟩
  · intro self
    have href := (ObjectLock.monitorExit_spec self hobj).2
    exact ⟨href, href.of_not_owner⟩
  · intro self ch hch
    exact (ObjectLock.identityHashCode_spec self hobj hch.2.1 hch.2.2 hch.1).2

/-- A thread has entered a new object without read barriers; locking is safe there. -/
theorem reachable_lockingSafe_afterEnter :
    LockingSafe false ((System.init 0).step false 1 (.monitorEnter false) ⟨false, 1, 1⟩) :=
  reachable_lockingSafe
    (Reachable.step (Reachable.init ⟨by decide, Or.inr rfl⟩) ⟨by decide, by decide⟩
      ⟨by decide, by decide, by decide⟩)

end System

end AndroidArt.Runtime
