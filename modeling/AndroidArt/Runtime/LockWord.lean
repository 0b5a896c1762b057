/-
Module: AndroidArt.Runtime.LockWord
Purpose: The lock word of an object (runtime/lock_word.h, lock_word-inl.h): 32 bits whose top two
  bits give the state (thin or unlocked, fat, hash code, forwarding address), the read barrier
  and mark bits below them, and in the rest the thin-lock owner and recursion count, the monitor
  id or the identity hash code.
Trusted boundary: kUseReadBarrier is a build flag and is a parameter here. A forwarding address,
  which only a moving collector stores while every mutator is suspended, is decoded but never
  built.
Main exports: LockWord, LockState, LockView, LockView.encode
-/
import AndroidArt.Lib.BitField

namespace AndroidArt.Runtime

open AndroidArt.Lib

/-- `LockWord`: the value of `mirror::Object::monitor_`. -/
structure LockWord where
  value : Nat
deriving Repr, DecidableEq

/-- `LockWord::LockState`. -/
inductive LockState where
  | unlocked
  | thinLocked
  | fatLocked
  | hashCode
  | forwardingAddress
deriving Repr, DecidableEq

namespace LockWord

/-! ### `LockWord::SizeShiftsAndMasks` -/

def kStateSize : Nat := 2
def kReadBarrierStateSize : Nat := 1
def kMarkBitStateSize : Nat := 1
def kThinLockOwnerSize : Nat := 16
def kThinLockCountSize : Nat :=
  32 - kThinLockOwnerSize - kStateSize - kReadBarrierStateSize - kMarkBitStateSize
def kThinLockOwnerShift : Nat := 0
def kThinLockOwnerMask : Nat := (1 <<< kThinLockOwnerSize) - 1
def kThinLockMaxOwner : Nat := kThinLockOwnerMask
def kThinLockCountShift : Nat := kThinLockOwnerSize + kThinLockOwnerShift
def kThinLockCountMask : Nat := (1 <<< kThinLockCountSize) - 1
def kThinLockMaxCount : Nat := kThinLockCountMask
def kStateShift : Nat :=
  kReadBarrierStateSize + kThinLockCountSize + kThinLockCountShift + kMarkBitStateSize
def kStateMask : Nat := (1 <<< kStateSize) - 1
def kStateThinOrUnlocked : Nat := 0
def kStateFat : Nat := 1
def kStateHash : Nat := 2
def kStateForwardingAddress : Nat := 3
def kReadBarrierStateShift : Nat := kThinLockCountSize + kThinLockCountShift
def kReadBarrierStateMask : Nat := (1 <<< kReadBarrierStateSize) - 1
def kReadBarrierStateMaskShifted : Nat := kReadBarrierStateMask <<< kReadBarrierStateShift
def kMarkBitStateShift : Nat := kReadBarrierStateSize + kReadBarrierStateShift
def kMarkBitStateMask : Nat := (1 <<< kMarkBitStateSize) - 1
def kMarkBitStateMaskShifted : Nat := kMarkBitStateMask <<< kMarkBitStateShift
def kGCStateShift : Nat := kReadBarrierStateShift
def kGCStateMaskShifted : Nat := kReadBarrierStateMaskShifted ||| kMarkBitStateMaskShifted
/-- `~kGCStateMaskShifted` in `uint32_t`. -/
def kGCStateMaskShiftedToggled : Nat := (2 ^ 32 - 1) ^^^ kGCStateMaskShifted
def kHashShift : Nat := 0
def kHashSize : Nat := 32 - kStateSize - kReadBarrierStateSize - kMarkBitStateSize
def kHashMask : Nat := (1 <<< kHashSize) - 1
def kMaxHash : Nat := kHashMask
def kMonitorIdShift : Nat := kHashShift
def kMonitorIdSize : Nat := kHashSize
def kMonitorIdMask : Nat := kHashMask
def kMaxMonitorId : Nat := kMaxHash

/-! ### Constructors and accessors -/

/-- `LockWord::FromThinLockId` (its `CHECK_LE`s are assumptions of the results). -/
def fromThinLockId (threadId count gcState : Nat) : LockWord :=
  ⟨threadId <<< kThinLockOwnerShift ||| count <<< kThinLockCountShift |||
    gcState <<< kGCStateShift ||| kStateThinOrUnlocked <<< kStateShift⟩

/-- `LockWord::FromHashCode`. -/
def fromHashCode (hashCode gcState : Nat) : LockWord :=
  ⟨hashCode <<< kHashShift ||| gcState <<< kGCStateShift ||| kStateHash <<< kStateShift⟩

/-- `LockWord::FromDefault`. -/
def fromDefault (gcState : Nat) : LockWord :=
  ⟨gcState <<< kGCStateShift⟩

/-- `LockWord(Monitor* mon, uint32_t gc_state)`, for the monitor with id `monitorId`. -/
def fromMonitorId (monitorId gcState : Nat) : LockWord :=
  ⟨monitorId ||| gcState <<< kGCStateShift ||| kStateFat <<< kStateShift⟩

/-- `LockWord::GetState`: with read barriers a word is unlocked when it is zero apart from its
GC bits, without them when it is zero. -/
def getState (useReadBarrier : Bool) (lw : LockWord) : LockState :=
  if (!useReadBarrier && lw.value == 0) ||
      (useReadBarrier && (lw.value &&& kGCStateMaskShiftedToggled) == 0) then .unlocked
  else
    let internalState := (lw.value >>> kStateShift) &&& kStateMask
    if internalState == kStateThinOrUnlocked then .thinLocked
    else if internalState == kStateHash then .hashCode
    else if internalState == kStateForwardingAddress then .forwardingAddress
    else .fatLocked

/-- `LockWord::GCState`. -/
def gcState (lw : LockWord) : Nat :=
  (lw.value &&& kGCStateMaskShifted) >>> kGCStateShift

/-- `LockWord::ThinLockOwner`. -/
def thinLockOwner (lw : LockWord) : Nat :=
  (lw.value >>> kThinLockOwnerShift) &&& kThinLockOwnerMask

/-- `LockWord::ThinLockCount`. -/
def thinLockCount (lw : LockWord) : Nat :=
  (lw.value >>> kThinLockCountShift) &&& kThinLockCountMask

/-- `LockWord::GetHashCode`. -/
def getHashCode (lw : LockWord) : Nat :=
  (lw.value >>> kHashShift) &&& kHashMask

/-- The monitor id that `LockWord::FatLockMonitor` looks up in the `MonitorPool`. -/
def monitorId (lw : LockWord) : Nat :=
  (lw.value >>> kMonitorIdShift) &&& kMonitorIdMask

/-! ### The fields as arithmetic

The compound constants evaluate to the numbers below.  Every accessor is then a quotient and a
residue by powers of two, and every constructor a sum of its fields scaled by powers of two, once
the fields fit their bits. -/

@[simp] theorem kThinLockCountShift_eq : kThinLockCountShift = 16 := rfl
@[simp] theorem kGCStateShift_eq : kGCStateShift = 28 := rfl
@[simp] theorem kStateShift_eq : kStateShift = 30 := rfl
@[simp] theorem kThinLockMaxOwner_eq : kThinLockMaxOwner = 2 ^ 16 - 1 := rfl
@[simp] theorem kThinLockMaxCount_eq : kThinLockMaxCount = 2 ^ 12 - 1 := rfl
@[simp] theorem kMaxHash_eq : kMaxHash = 2 ^ 28 - 1 := rfl
@[simp] theorem kMaxMonitorId_eq : kMaxMonitorId = 2 ^ 28 - 1 := rfl

theorem thinLockOwner_eq (lw : LockWord) : lw.thinLockOwner = lw.value % 2 ^ 16 := by
  simp only [thinLockOwner, kThinLockOwnerMask, kThinLockOwnerShift, kThinLockOwnerSize,
    shiftRight_and_low_mask, pow_zero, Nat.div_one]

theorem thinLockCount_eq (lw : LockWord) : lw.thinLockCount = lw.value / 2 ^ 16 % 2 ^ 12 := by
  rw [thinLockCount, kThinLockCountMask, kThinLockCountShift_eq, shiftRight_and_low_mask]
  rfl

theorem getHashCode_eq (lw : LockWord) : lw.getHashCode = lw.value % 2 ^ 28 := by
  rw [getHashCode, kHashMask, kHashShift, shiftRight_and_low_mask, pow_zero, Nat.div_one]
  rfl

theorem monitorId_eq (lw : LockWord) : lw.monitorId = lw.value % 2 ^ 28 := by
  rw [monitorId, kMonitorIdMask, kHashMask, kMonitorIdShift, kHashShift, shiftRight_and_low_mask,
    pow_zero, Nat.div_one]
  rfl

theorem gcState_eq (lw : LockWord) : lw.gcState = lw.value / 2 ^ 28 % 4 := by
  have hmask : kGCStateMaskShifted = (2 ^ 2 - 1) <<< 28 := by decide
  rw [gcState, hmask, kGCStateShift_eq, and_shiftLeft, Nat.shiftLeft_shiftRight,
    Nat.and_two_pow_sub_one_eq_mod, Nat.shiftRight_eq_div_pow]

/-- `GetState` as arithmetic on the value: the unlocked test, then the two state bits. -/
theorem getState_eq (useReadBarrier : Bool) (lw : LockWord) :
    lw.getState useReadBarrier =
      if (!useReadBarrier && lw.value == 0) ||
          (useReadBarrier && lw.value % 2 ^ 28 + lw.value / 2 ^ 30 % 4 * 2 ^ 30 == 0) then
        .unlocked
      else if lw.value / 2 ^ 30 % 4 == 0 then .thinLocked
      else if lw.value / 2 ^ 30 % 4 == 2 then .hashCode
      else if lw.value / 2 ^ 30 % 4 == 3 then .forwardingAddress
      else .fatLocked := by
  have hmask : kGCStateMaskShiftedToggled = (2 ^ 28 - 1) ||| (2 ^ 2 - 1) <<< 30 := by decide
  have hstate : (lw.value >>> kStateShift) &&& kStateMask = lw.value / 2 ^ 30 % 4 := by
    rw [kStateShift_eq, kStateMask, shiftRight_and_low_mask]
    rfl
  have htoggled : lw.value &&& kGCStateMaskShiftedToggled =
      lw.value % 2 ^ 28 + lw.value / 2 ^ 30 % 4 * 2 ^ 30 := by
    rw [hmask, Nat.and_or_distrib_left, and_shiftLeft, Nat.and_two_pow_sub_one_eq_mod,
      Nat.and_two_pow_sub_one_eq_mod, Nat.shiftRight_eq_div_pow,
      or_shiftLeft_of_lt _ (show lw.value % 2 ^ 28 < 2 ^ 30 by omega)]
  rw [getState, htoggled, hstate]
  rfl

theorem fromThinLockId_value {threadId count : Nat} (gcState : Nat) (ht : threadId < 2 ^ 16)
    (hc : count < 2 ^ 12) :
    (fromThinLockId threadId count gcState).value =
      threadId + count * 2 ^ 16 + gcState * 2 ^ 28 := by
  have hlow : threadId + count * 2 ^ 16 < 2 ^ 28 := by omega
  rw [fromThinLockId, kThinLockOwnerShift, kThinLockCountShift_eq, kGCStateShift_eq,
    kStateThinOrUnlocked, Nat.shiftLeft_zero, Nat.zero_shiftLeft, Nat.or_zero,
    or_shiftLeft_of_lt _ ht, or_shiftLeft_of_lt _ hlow]

theorem fromHashCode_value {hashCode gcState : Nat} (hh : hashCode < 2 ^ 28) (hg : gcState < 4) :
    (fromHashCode hashCode gcState).value = hashCode + gcState * 2 ^ 28 + 2 * 2 ^ 30 := by
  have hlow : hashCode + gcState * 2 ^ 28 < 2 ^ 30 := by omega
  rw [fromHashCode, kHashShift, kGCStateShift_eq, kStateShift_eq, kStateHash, Nat.shiftLeft_zero,
    or_shiftLeft_of_lt _ hh, or_shiftLeft_of_lt _ hlow]

theorem fromDefault_value (gcState : Nat) : (fromDefault gcState).value = gcState * 2 ^ 28 := by
  rw [fromDefault, kGCStateShift_eq, Nat.shiftLeft_eq]

theorem fromMonitorId_value {monitorId gcState : Nat} (hm : monitorId < 2 ^ 28)
    (hg : gcState < 4) :
    (fromMonitorId monitorId gcState).value = monitorId + gcState * 2 ^ 28 + 1 * 2 ^ 30 := by
  have hlow : monitorId + gcState * 2 ^ 28 < 2 ^ 30 := by omega
  rw [fromMonitorId, kGCStateShift_eq, kStateShift_eq, kStateFat, or_shiftLeft_of_lt _ hm,
    or_shiftLeft_of_lt _ hlow]

/-- An id stored in a fat lock word reads back, whatever its GC bits. -/
theorem monitorId_fromMonitorId {monitorId gcState : Nat} (hm : monitorId < 2 ^ kMonitorIdSize)
    (hg : gcState < 4) : (fromMonitorId monitorId gcState).monitorId = monitorId := by
  have hm' : monitorId < 2 ^ 28 := hm
  rw [monitorId_eq, fromMonitorId_value hm' hg]
  omega

end LockWord

/-! ### What a well-formed lock word means -/

/-- The decoded lock word: unlocked, thin-locked by a thread id with a recursion count (one less
than the depth), inflated to the monitor with an id, or holding an identity hash code. -/
inductive LockView where
  | unlocked
  | thin (owner count : Nat)
  | fat (monitorId : Nat)
  | hash (hashCode : Nat)
deriving Repr, DecidableEq

namespace LockView

open LockWord

/-- The word that the constructors of `LockWord` build for a view, with GC bits `gcState`. -/
def encode (gcState : Nat) : LockView → LockWord
  | .unlocked => fromDefault gcState
  | .thin owner count => fromThinLockId owner count gcState
  | .fat monitorId => fromMonitorId monitorId gcState
  | .hash hashCode => fromHashCode hashCode gcState

/-- The constructors that build unlocked, thin and hash words, read as encodings of their
views. -/
theorem encode_unlocked (gcState : Nat) : LockView.unlocked.encode gcState = fromDefault gcState := rfl

theorem encode_thin (owner count gcState : Nat) :
    (LockView.thin owner count).encode gcState = fromThinLockId owner count gcState := rfl

theorem encode_hash (hashCode gcState : Nat) :
    (LockView.hash hashCode).encode gcState = fromHashCode hashCode gcState := rfl

/-- The fields fit their bits, and a thin lock's owner is a thread id, which is never
`kInvalidThreadId` (0). -/
def Valid : LockView → Prop
  | .unlocked => True
  | .thin owner count => 0 < owner ∧ owner ≤ kThinLockMaxOwner ∧ count ≤ kThinLockMaxCount
  | .fat monitorId => monitorId ≤ kMaxMonitorId
  | .hash hashCode => hashCode ≤ kMaxHash

/-- The state `GetState` reports for the view. -/
def state : LockView → LockState
  | .unlocked => .unlocked
  | .thin _ _ => .thinLocked
  | .fat _ => .fatLocked
  | .hash _ => .hashCode

end LockView

/-- GC bits that fit their two bits, and are zero in a build without read barriers
(`CheckReadBarrierState`). -/
def GcStateOk (useReadBarrier : Bool) (gcState : Nat) : Prop :=
  gcState < 4 ∧ (useReadBarrier = true ∨ gcState = 0)

/-- The view a word decodes to, through `GetState` and the accessors of its state; a
forwarding address has none. -/
def LockWord.view (useReadBarrier : Bool) (lw : LockWord) : Option LockView :=
  match lw.getState useReadBarrier with
  | .unlocked => some .unlocked
  | .thinLocked => some (.thin lw.thinLockOwner lw.thinLockCount)
  | .fatLocked => some (.fat lw.monitorId)
  | .hashCode => some (.hash lw.getHashCode)
  | .forwardingAddress => none

section RoundTrip

open LockWord

variable {useReadBarrier : Bool} {gcState : Nat}

/-- A word that is zero neither as a whole nor apart from its GC bits has the state its two
state bits give, with or without read barriers. -/
theorem getState_of_ne_zero (lw : LockWord) (hne : lw.value ≠ 0)
    (hlow : lw.value % 2 ^ 28 + lw.value / 2 ^ 30 % 4 * 2 ^ 30 ≠ 0) :
    lw.getState useReadBarrier =
      if lw.value / 2 ^ 30 % 4 == 0 then .thinLocked
      else if lw.value / 2 ^ 30 % 4 == 2 then .hashCode
      else if lw.value / 2 ^ 30 % 4 == 3 then .forwardingAddress
      else .fatLocked := by
  have hzero : (lw.value == 0) = false := by simpa using hne
  have hlowZero : (lw.value % 2 ^ 28 + lw.value / 2 ^ 30 % 4 * 2 ^ 30 == 0) = false := by
    simpa using hlow
  rw [getState_eq, hzero, hlowZero]
  cases useReadBarrier <;> rfl

theorem getState_fromDefault (hg : GcStateOk useReadBarrier gcState) :
    (fromDefault gcState).getState useReadBarrier = .unlocked := by
  obtain ⟨hg4, hrb⟩ := hg
  have hlow : gcState * 2 ^ 28 % 2 ^ 28 + gcState * 2 ^ 28 / 2 ^ 30 % 4 * 2 ^ 30 = 0 := by
    omega
  rw [getState_eq, fromDefault_value]
  cases useReadBarrier with
  | false =>
    -- without read barriers the GC bits are zero, so the whole word is
    have hzero : gcState = 0 := by simpa using hrb
    simp [hzero]
  | true => simp only [hlow]; rfl

theorem getState_fromThinLockId {threadId count : Nat} (hg : GcStateOk useReadBarrier gcState)
    (ht : 0 < threadId) (ht' : threadId < 2 ^ 16) (hc : count < 2 ^ 12) :
    (fromThinLockId threadId count gcState).getState useReadBarrier = .thinLocked := by
  have hval := fromThinLockId_value gcState ht' hc
  have hst : (fromThinLockId threadId count gcState).value / 2 ^ 30 % 4 = 0 := by
    have := hg.1
    omega
  rw [getState_of_ne_zero _ (by omega) (by omega), hst]
  rfl

theorem getState_fromHashCode {hashCode : Nat} (hg : GcStateOk useReadBarrier gcState)
    (hh : hashCode < 2 ^ 28) :
    (fromHashCode hashCode gcState).getState useReadBarrier = .hashCode := by
  have hval := fromHashCode_value hh hg.1
  have hst : (fromHashCode hashCode gcState).value / 2 ^ 30 % 4 = 2 := by
    have := hg.1
    omega
  rw [getState_of_ne_zero _ (by omega) (by omega), hst]
  rfl

theorem getState_fromMonitorId {monitorId : Nat} (hg : GcStateOk useReadBarrier gcState)
    (hm : monitorId < 2 ^ 28) :
    (fromMonitorId monitorId gcState).getState useReadBarrier = .fatLocked := by
  have hval := fromMonitorId_value hm hg.1
  have hst : (fromMonitorId monitorId gcState).value / 2 ^ 30 % 4 = 1 := by
    have := hg.1
    omega
  rw [getState_of_ne_zero _ (by omega) (by omega), hst]
  rfl

/-- Every constructor keeps the GC bits it is given. -/
theorem gcState_encode (hg : GcStateOk useReadBarrier gcState) {v : LockView} (hv : v.Valid) :
    (v.encode gcState).gcState = gcState := by
  have hg4 := hg.1
  rw [gcState_eq]
  cases v with
  | unlocked => rw [LockView.encode, fromDefault_value]; omega
  | thin owner count =>
    obtain ⟨-, howner, hcount⟩ := hv
    simp only [kThinLockMaxOwner_eq, kThinLockMaxCount_eq] at howner hcount
    rw [LockView.encode, fromThinLockId_value gcState (by omega) (by omega)]
    omega
  | fat monitorId =>
    simp only [LockView.Valid, kMaxMonitorId_eq] at hv
    rw [LockView.encode, fromMonitorId_value (by omega) hg4]
    omega
  | hash hashCode =>
    simp only [LockView.Valid, kMaxHash_eq] at hv
    rw [LockView.encode, fromHashCode_value (by omega) hg4]
    omega

/-- The round trip of the lock word: decoding an encoded view gives the view back. -/
theorem view_encode (hg : GcStateOk useReadBarrier gcState) {v : LockView} (hv : v.Valid) :
    (v.encode gcState).view useReadBarrier = some v := by
  have hg4 := hg.1
  cases v with
  | unlocked => simp [LockWord.view, LockView.encode, getState_fromDefault hg]
  | thin owner count =>
    obtain ⟨hpos, howner, hcount⟩ := hv
    simp only [kThinLockMaxOwner_eq, kThinLockMaxCount_eq] at howner hcount
    have howner' : owner < 2 ^ 16 := by omega
    have hcount' : count < 2 ^ 12 := by omega
    have hval := fromThinLockId_value gcState howner' hcount'
    simp only [LockWord.view, LockView.encode, getState_fromThinLockId hg hpos howner' hcount',
      thinLockOwner_eq, thinLockCount_eq, hval, Option.some.injEq, LockView.thin.injEq]
    omega
  | fat monitorId =>
    simp only [LockView.Valid, kMaxMonitorId_eq] at hv
    have hm : monitorId < 2 ^ 28 := by omega
    have hval := fromMonitorId_value hm hg4
    simp only [LockWord.view, LockView.encode, getState_fromMonitorId hg hm, monitorId_eq, hval,
      Option.some.injEq, LockView.fat.injEq]
    omega
  | hash hashCode =>
    simp only [LockView.Valid, kMaxHash_eq] at hv
    have hh : hashCode < 2 ^ 28 := by omega
    have hval := fromHashCode_value hh hg4
    simp only [LockWord.view, LockView.encode, getState_fromHashCode hg hh, getHashCode_eq, hval,
      Option.some.injEq, LockView.hash.injEq]
    omega

variable {lw : LockWord} {v : LockView}

/-- A word with a view is in the view's state. -/
theorem getState_of_view (h : lw.view useReadBarrier = some v) :
    lw.getState useReadBarrier = v.state := by
  unfold LockWord.view at h
  split at h <;> cases h <;> simp_all [LockView.state]

theorem thin_of_view {owner count : Nat} (h : lw.view useReadBarrier = some (.thin owner count)) :
    lw.thinLockOwner = owner ∧ lw.thinLockCount = count := by
  unfold LockWord.view at h
  split at h <;> simp_all

theorem monitorId_of_view {monitorId : Nat} (h : lw.view useReadBarrier = some (.fat monitorId)) :
    lw.monitorId = monitorId := by
  unfold LockWord.view at h
  split at h <;> simp_all

theorem getHashCode_of_view {hashCode : Nat} (h : lw.view useReadBarrier = some (.hash hashCode)) :
    lw.getHashCode = hashCode := by
  unfold LockWord.view at h
  split at h <;> simp_all

theorem getState_encode (hg : GcStateOk useReadBarrier gcState) (hv : v.Valid) :
    (v.encode gcState).getState useReadBarrier = v.state :=
  getState_of_view (view_encode hg hv)

theorem thin_encode {owner count : Nat} (hg : GcStateOk useReadBarrier gcState)
    (hv : (LockView.thin owner count).Valid) :
    ((LockView.thin owner count).encode gcState).thinLockOwner = owner ∧
      ((LockView.thin owner count).encode gcState).thinLockCount = count :=
  thin_of_view (view_encode hg hv)

theorem monitorId_encode {monitorId : Nat} (hg : GcStateOk useReadBarrier gcState)
    (hv : (LockView.fat monitorId).Valid) :
    ((LockView.fat monitorId).encode gcState).monitorId = monitorId :=
  monitorId_of_view (view_encode hg hv)

theorem getHashCode_encode {hashCode : Nat} (hg : GcStateOk useReadBarrier gcState)
    (hv : (LockView.hash hashCode).Valid) :
    ((LockView.hash hashCode).encode gcState).getHashCode = hashCode :=
  getHashCode_of_view (view_encode hg hv)

end RoundTrip

end AndroidArt.Runtime
