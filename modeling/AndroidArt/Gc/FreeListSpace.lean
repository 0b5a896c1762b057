/-
Module: AndroidArt.Gc.FreeListSpace
Purpose: art::gc::space::FreeListSpace (runtime/gc/space/large_object_space.cc and .h), the
  large-object space that keeps one `AllocationInfo` for each page in a side table: the page's
  allocation size in pages with a free and a zygote flag in its top bits, and the length of the
  free run before it.
Trusted boundary: addresses are byte offsets from `Begin()`; the allocation info table is a
  function from slot to info, zero until written (anonymous memory); the `std::set` is the
  sequence of its elements in order, `lower_bound` its first element not below the probe; the
  address of `Alloc`'s stack temporary compares below every table entry; `DCHECK`s are not
  modelled and a failed `CHECK` is `none`, as is a loop that does not end; `size_t` arithmetic
  does not wrap; `madvise`, `mprotect`, the lock and `Dump` are left out.
Main exports: AllocationInfo, sortByPrevFree, FreeListSpace, FreeListSpace.create
-/
import Mathlib
import AndroidArt.Lib.OrderedSet
import AndroidArt.Gc.SpaceBitmap

namespace AndroidArt.Gc

open AndroidArt.Lib

/-- `kPageSize`. -/
def kPageSize : Nat := 4096

/-- `FreeListSpace::kAlignment`: allocations are whole pages. -/
def FreeListSpace.kAlignment : Nat := kPageSize

/-! ## AllocationInfo -/

/-- An entry of the allocation info table: `prev_free_`, the pages of the free run before this
page when it starts an allocation, and `alloc_size_`, the pages of the run starting here with
the free and zygote flags in its top two bits. -/
structure AllocationInfo where
  prevFree : UInt32
  allocSize : UInt32
deriving DecidableEq, Repr

namespace AllocationInfo

open FreeListSpace (kAlignment)

/-- `kFlagFree`: the block is free. -/
def kFlagFree : UInt32 := 0x80000000

/-- `kFlagZygote`: the large object is a zygote object. -/
def kFlagZygote : UInt32 := 0x40000000

/-- `kFlagsMask`: the bits that hold the size. -/
def kFlagsMask : UInt32 := ~~~(kFlagFree ||| kFlagZygote)

/-- `AllocationInfo()`, and the contents of the anonymous table before any write. -/
def empty : AllocationInfo := ⟨0, 0⟩

/-- `AlignSize()`: the pages the info covers. -/
def alignSize (info : AllocationInfo) : Nat := (info.allocSize &&& kFlagsMask).toNat

/-- `ByteSize()`. -/
def byteSize (info : AllocationInfo) : Nat := info.alignSize * kAlignment

/-- `SetByteSize(size, free)`; it clears the zygote flag. -/
def setByteSize (info : AllocationInfo) (size : Nat) (free : Bool) : AllocationInfo :=
  { info with allocSize := (size / kAlignment).toUInt32 ||| (if free then kFlagFree else 0) }

/-- `IsFree()`. -/
def isFree (info : AllocationInfo) : Bool := info.allocSize &&& kFlagFree != 0

/-- `IsZygoteObject()`. -/
def isZygoteObject (info : AllocationInfo) : Bool := info.allocSize &&& kFlagZygote != 0

/-- `SetZygoteObject()`. -/
def setZygoteObject (info : AllocationInfo) : AllocationInfo :=
  { info with allocSize := info.allocSize ||| kFlagZygote }

/-- `GetPrevFree()`. -/
def getPrevFree (info : AllocationInfo) : Nat := info.prevFree.toNat

/-- `GetPrevFreeBytes()`. -/
def getPrevFreeBytes (info : AllocationInfo) : Nat := info.getPrevFree * kAlignment

/-- `SetPrevFreeBytes(bytes)`. -/
def setPrevFreeBytes (info : AllocationInfo) (bytes : Nat) : AllocationInfo :=
  { info with prevFree := (bytes / kAlignment).toUInt32 }

/-! ### The flag bits

A size below `2^30` pages leaves the two flag bits alone, so the size, the free flag and the
zygote flag read back as they were written. -/

theorem toNat_kFlagFree : kFlagFree.toNat = 2 ^ 31 := by decide

theorem toNat_kFlagZygote : kFlagZygote.toNat = 2 ^ 30 := by decide

theorem toNat_kFlagsMask : kFlagsMask.toNat = 2 ^ 30 - 1 := by decide

theorem kAlignment_pos : 0 < kAlignment := by decide

/-- Testing a one-bit flag reads the bit. -/
theorem and_flag_ne_zero (x : UInt32) {f : UInt32} {n : Nat} (hf : f.toNat = 2 ^ n) :
    (x &&& f != 0) = x.toNat.testBit n := by
  have h : (x &&& f = 0) ↔ x.toNat.testBit n = false := by
    rw [← UInt32.toNat_inj, UInt32.toNat_and, hf, Nat.and_two_pow]
    cases x.toNat.testBit n <;> simp
  cases hb : x.toNat.testBit n <;> simp_all

/-- A size below `2^30` has no bit at or above bit 30. -/
theorem testBit_toUInt32_or {k : Nat} (hk : k < 2 ^ 30) (f : UInt32) {n : Nat} (hn : 30 ≤ n) :
    (k.toUInt32 ||| f).toNat.testBit n = f.toNat.testBit n := by
  have hlt : k < 2 ^ n := lt_of_lt_of_le hk (Nat.pow_le_pow_right (by decide) hn)
  rw [UInt32.toNat_or, Nat.testBit_or, Nat.toUInt32, UInt32.toNat_ofNat',
    Nat.mod_eq_of_lt (by omega), Nat.testBit_lt_two_pow hlt, Bool.false_or]

theorem toNat_toUInt32_or_and_kFlagsMask {k : Nat} (hk : k < 2 ^ 30) (f : UInt32)
    (hf : f.toNat % 2 ^ 30 = 0) : ((k.toUInt32 ||| f) &&& kFlagsMask).toNat = k := by
  rw [UInt32.toNat_and, UInt32.toNat_or, toNat_kFlagsMask, Nat.and_two_pow_sub_one_eq_mod,
    Nat.or_mod_two_pow, hf, Nat.or_zero, Nat.toUInt32, UInt32.toNat_ofNat']
  omega

theorem alignSize_setByteSize {k : Nat} (hk : k < 2 ^ 30) (info : AllocationInfo)
    (free : Bool) : (info.setByteSize (k * kAlignment) free).alignSize = k := by
  rw [alignSize, setByteSize, Nat.mul_div_cancel _ kAlignment_pos]
  apply toNat_toUInt32_or_and_kFlagsMask hk
  cases free <;> simp [toNat_kFlagFree]

theorem isFree_setByteSize {k : Nat} (hk : k < 2 ^ 30) (info : AllocationInfo) (free : Bool) :
    (info.setByteSize (k * kAlignment) free).isFree = free := by
  rw [isFree, setByteSize, Nat.mul_div_cancel _ kAlignment_pos,
    and_flag_ne_zero _ toNat_kFlagFree, testBit_toUInt32_or hk _ (by decide)]
  cases free
  · rfl
  · rw [if_pos rfl, toNat_kFlagFree, Nat.testBit_two_pow_self]

theorem isZygoteObject_setByteSize {k : Nat} (hk : k < 2 ^ 30) (info : AllocationInfo)
    (free : Bool) : (info.setByteSize (k * kAlignment) free).isZygoteObject = false := by
  rw [isZygoteObject, setByteSize, Nat.mul_div_cancel _ kAlignment_pos,
    and_flag_ne_zero _ toNat_kFlagZygote, testBit_toUInt32_or hk _ le_rfl]
  cases free
  · rfl
  · rw [if_pos rfl, toNat_kFlagFree, Nat.testBit_two_pow_of_ne (by decide)]

@[simp] theorem alignSize_setZygoteObject (info : AllocationInfo) :
    info.setZygoteObject.alignSize = info.alignSize := by
  have hmask : (info.allocSize ||| kFlagZygote) &&& kFlagsMask = info.allocSize &&& kFlagsMask := by
    rw [← UInt32.toNat_inj]
    apply Nat.eq_of_testBit_eq
    intro i
    simp only [UInt32.toNat_and, UInt32.toNat_or, Nat.testBit_and, Nat.testBit_or,
      toNat_kFlagZygote, toNat_kFlagsMask, Nat.testBit_two_pow, Nat.testBit_two_pow_sub_one]
    -- the zygote bit is bit 30, which the mask clears
    by_cases h : i < 30
    · simp [h, show 30 ≠ i by omega]
    · simp [h]
  rw [alignSize, alignSize, setZygoteObject, hmask]

@[simp] theorem isFree_setZygoteObject (info : AllocationInfo) :
    info.setZygoteObject.isFree = info.isFree := by
  rw [isFree, isFree, setZygoteObject, and_flag_ne_zero _ toNat_kFlagFree,
    and_flag_ne_zero _ toNat_kFlagFree, UInt32.toNat_or, Nat.testBit_or, toNat_kFlagZygote,
    Nat.testBit_two_pow_of_ne (by decide), Bool.or_false]

@[simp] theorem isZygoteObject_setZygoteObject (info : AllocationInfo) :
    info.setZygoteObject.isZygoteObject = true := by
  rw [isZygoteObject, setZygoteObject, and_flag_ne_zero _ toNat_kFlagZygote, UInt32.toNat_or,
    Nat.testBit_or, toNat_kFlagZygote, Nat.testBit_two_pow_self, Bool.or_true]

@[simp] theorem getPrevFree_setZygoteObject (info : AllocationInfo) :
    info.setZygoteObject.getPrevFree = info.getPrevFree := rfl

@[simp] theorem getPrevFree_setByteSize (info : AllocationInfo) (size : Nat) (free : Bool) :
    (info.setByteSize size free).getPrevFree = info.getPrevFree := rfl

@[simp] theorem alignSize_setPrevFreeBytes (info : AllocationInfo) (bytes : Nat) :
    (info.setPrevFreeBytes bytes).alignSize = info.alignSize := rfl

@[simp] theorem isFree_setPrevFreeBytes (info : AllocationInfo) (bytes : Nat) :
    (info.setPrevFreeBytes bytes).isFree = info.isFree := rfl

@[simp] theorem isZygoteObject_setPrevFreeBytes (info : AllocationInfo) (bytes : Nat) :
    (info.setPrevFreeBytes bytes).isZygoteObject = info.isZygoteObject := rfl

@[simp] theorem getPrevFree_setPrevFreeBytes_zero (info : AllocationInfo) :
    (info.setPrevFreeBytes 0).getPrevFree = 0 := rfl

theorem getPrevFree_setPrevFreeBytes {g : Nat} (hg : g < 2 ^ 32) (info : AllocationInfo) :
    (info.setPrevFreeBytes (g * kAlignment)).getPrevFree = g := by
  rw [getPrevFree, setPrevFreeBytes, Nat.mul_div_cancel _ kAlignment_pos, Nat.toUInt32,
    UInt32.toNat_ofNat', Nat.mod_eq_of_lt hg]

end AllocationInfo

/-! ## The free-block order -/

/-- `SortByPrevFree` on what it reads of two infos: `GetPrevFree()`, then `AlignSize()`, then
the address. -/
def sortByPrevFree (a b : Nat × Nat × Nat) : Bool :=
  if a.1 < b.1 then true
  else if a.1 > b.1 then false
  else if a.2.1 < b.2.1 then true
  else if a.2.1 > b.2.1 then false
  else a.2.2 < b.2.2

/-- The triple as a key of the lexicographic order. -/
def lexKey (a : Nat × Nat × Nat) : Lex (Nat × Lex (Nat × Nat)) := toLex (a.1, toLex a.2)

/-- `SortByPrevFree` is the lexicographic order of the three fields. -/
theorem sortByPrevFree_iff (a b : Nat × Nat × Nat) :
    sortByPrevFree a b = true ↔ lexKey a < lexKey b := by
  obtain ⟨a₁, a₂, a₃⟩ := a
  obtain ⟨b₁, b₂, b₃⟩ := b
  simp only [sortByPrevFree, lexKey, Prod.Lex.toLex_lt_toLex]
  split_ifs <;> simp <;> omega

/-! ## The space -/

/-- The fields of a `FreeListSpace` that `Alloc`, `Free`, `Walk` and
`SetAllLargeObjectsAsZygoteObjects` read and write, with the counters of `LargeObjectSpace`. -/
structure FreeListSpace where
  /-- `end_ - begin_`. -/
  capacity : Nat
  /-- `allocation_info_[slot]`. -/
  allocationInfo : Nat → AllocationInfo
  /-- `free_end_`: the free bytes at the end of the space. -/
  freeEnd : Nat
  /-- `free_blocks_`, in the order of the set. -/
  freeBlocks : List Nat
  numBytesAllocated : Nat
  numObjectsAllocated : Nat
  totalBytesAllocated : Nat
  totalObjectsAllocated : Nat

namespace FreeListSpace

open AllocationInfo

/-- `GetSlotIndexForAddress(address)`. -/
def getSlotIndexForAddress (address : Nat) : Nat := address / kAlignment

/-- `GetAllocationAddressForSlot(slot)`. -/
def getAllocationAddressForSlot (slot : Nat) : Nat := slot * kAlignment

/-- `Create(name, size)` once the memory map is made: the whole space is the end region. -/
def create (capacity : Nat) : Option FreeListSpace :=
  if capacity % kAlignment = 0 then
    some { capacity := capacity
           allocationInfo := fun _ => AllocationInfo.empty
           freeEnd := capacity
           freeBlocks := []
           numBytesAllocated := 0
           numObjectsAllocated := 0
           totalBytesAllocated := 0
           totalObjectsAllocated := 0 }
  else none

/-- One write to the allocation info table. -/
def modifyInfo (s : FreeListSpace) (slot : Nat) (f : AllocationInfo → AllocationInfo) :
    FreeListSpace :=
  { s with allocationInfo := Function.update s.allocationInfo slot (f (s.allocationInfo slot)) }

/-- What `SortByPrevFree` reads of `allocation_info_[slot]`: the slot order is the address
order of the table. -/
def sortKey (s : FreeListSpace) (slot : Nat) : Nat × Nat × Nat :=
  ((s.allocationInfo slot).getPrevFree, (s.allocationInfo slot).alignSize, slot)

/-- The set's comparator on two slots, read in the current table. -/
def freeBlocksLt (s : FreeListSpace) (a b : Nat) : Bool := sortByPrevFree (s.sortKey a) (s.sortKey b)

/-- `free_blocks_.lower_bound(probe)`: the first element not less than the probe. -/
def lowerBound (s : FreeListSpace) (probe : Nat × Nat × Nat) : Option Nat :=
  s.freeBlocks.find? fun info => !sortByPrevFree (s.sortKey info) probe

/-- `free_blocks_.insert(info)`. -/
def insertFreeBlock (s : FreeListSpace) (info : Nat) : FreeListSpace :=
  { s with freeBlocks := OrderedSet.insertBy s.freeBlocksLt info s.freeBlocks }

/-- `RemoveFreePrev(info)`: the `CHECK`s that `info` follows a free run and is the element
`lower_bound` finds, then the erase. -/
def removeFreePrev (s : FreeListSpace) (info : Nat) : Option FreeListSpace :=
  if (s.allocationInfo info).getPrevFree > 0 then
    match s.lowerBound (s.sortKey info) with
    | some it => if it = info then some { s with freeBlocks := s.freeBlocks.erase info } else none
    | none => none
  else none

/-- The part of `Free` that coalesces with the free run before `info`, when there is one: the
first slot of the free run being formed and its bytes so far. -/
def coalescePrev (s : FreeListSpace) (info allocationSize : Nat) :
    Option (FreeListSpace × Nat × Nat) :=
  let prevFreeBytes := (s.allocationInfo info).getPrevFreeBytes
  if prevFreeBytes ≠ 0 then do
    let s ← s.removeFreePrev info
    pure (s, info - (s.allocationInfo info).getPrevFree, allocationSize + prevFreeBytes)
  else pure (s, info, allocationSize)

/-- The part of `Free` that coalesces with the chunk after the freed one when that chunk is
free: the info that will follow the new free run and the run's bytes. -/
def coalesceNext (s : FreeListSpace) (nextInfo newFreeSize : Nat) :
    Option (FreeListSpace × Nat × Nat) :=
  if (s.allocationInfo nextInfo).isFree then do
    -- the info after a free chunk is allocated, since free runs are always coalesced
    let nextNextInfo := nextInfo + (s.allocationInfo nextInfo).alignSize
    let newFreeSize := newFreeSize + (s.allocationInfo nextNextInfo).getPrevFreeBytes
    let s ← s.removeFreePrev nextNextInfo
    pure (s, nextNextInfo, newFreeSize)
  else pure (s, nextInfo, newFreeSize)

/-- `Free(self, obj)`: the freed bytes and the space after. -/
def free (s : FreeListSpace) (obj : Nat) : Option (Nat × FreeListSpace) := do
  let info := getSlotIndexForAddress obj
  let allocationSize := (s.allocationInfo info).byteSize
  let s := s.modifyInfo info (·.setByteSize allocationSize true)
  let nextInfo := info + (s.allocationInfo info).alignSize
  let freeEndStart := s.capacity - s.freeEnd
  let (s, info, newFreeSize) ← s.coalescePrev info allocationSize
  let nextAddr := getAllocationAddressForSlot nextInfo
  let s ←
    if nextAddr ≥ freeEndStart then
      -- the next chunk is the end region
      if nextAddr = freeEndStart then pure { s with freeEnd := s.freeEnd + newFreeSize }
      else none
    else do
      let (s, newFreeInfo, newFreeSize) ← s.coalesceNext nextInfo newFreeSize
      let s := s.modifyInfo newFreeInfo (·.setPrevFreeBytes newFreeSize)
      let s := s.insertFreeBlock newFreeInfo
      pure (s.modifyInfo info (·.setByteSize newFreeSize true))
  pure (allocationSize,
    { s with numObjectsAllocated := s.numObjectsAllocated - 1
             numBytesAllocated := s.numBytesAllocated - allocationSize })

/-- The address `SortByPrevFree` reads of `Alloc`'s stack `temp_info`, taken below the table: it
decides a comparison only with a set element of size 0. -/
def tempInfoAddress : Nat := 0

/-- The branch of `Alloc` that uses the free run before `info`, the element `lower_bound`
found: the object goes at the start of the run, and what is left of the run goes back into the
set.  The space and the object's slot. -/
def takeFreeBlock (s : FreeListSpace) (info allocationSize : Nat) : FreeListSpace × Nat :=
  let s := { s with freeBlocks := s.freeBlocks.erase info }
  let newInfo := info - (s.allocationInfo info).getPrevFree
  let s := s.modifyInfo info fun i => i.setPrevFreeBytes (i.getPrevFreeBytes - allocationSize)
  if (s.allocationInfo info).getPrevFreeBytes > 0 then
    let newFree := info - (s.allocationInfo info).getPrevFree
    let s := s.modifyInfo newFree (·.setPrevFreeBytes 0)
    let s := s.modifyInfo newFree (·.setByteSize (s.allocationInfo info).getPrevFreeBytes true)
    (s.insertFreeBlock info, newInfo)
  else (s, newInfo)

/-- The end of `Alloc` once the object's slot is chosen: the counters, and the object's info,
allocated with no free run before it. -/
def recordAllocation (s : FreeListSpace) (newInfo allocationSize : Nat) :
    Nat × Nat × FreeListSpace :=
  let s := { s with numObjectsAllocated := s.numObjectsAllocated + 1
                    totalObjectsAllocated := s.totalObjectsAllocated + 1
                    numBytesAllocated := s.numBytesAllocated + allocationSize
                    totalBytesAllocated := s.totalBytesAllocated + allocationSize }
  let s := s.modifyInfo newInfo (·.setPrevFreeBytes 0)
  let s := s.modifyInfo newInfo (·.setByteSize allocationSize false)
  (getAllocationAddressForSlot newInfo, allocationSize, s)

/-- The probe `Alloc` looks up: its `temp_info` with `SetPrevFreeBytes(allocation_size)` and
`SetByteSize(0, false)`. -/
def allocProbe (allocationSize : Nat) : Nat × Nat × Nat :=
  let tempInfo := (AllocationInfo.empty.setPrevFreeBytes allocationSize).setByteSize 0 false
  (tempInfo.getPrevFree, tempInfo.alignSize, tempInfoAddress)

/-- `Alloc(self, num_bytes, ...)`: the object's address and `*bytes_allocated` (also
`*usable_size` and `*bytes_tl_bulk_allocated`) with the space after, or `none` for `nullptr`. -/
def alloc (s : FreeListSpace) (numBytes : Nat) : Option (Nat × Nat × FreeListSpace) :=
  let allocationSize := roundUp numBytes kAlignment
  match s.lowerBound (allocProbe allocationSize) with
  | some info =>
    let (s, newInfo) := s.takeFreeBlock info allocationSize
    some (s.recordAllocation newInfo allocationSize)
  | none =>
    -- take the start of the end region
    if s.freeEnd ≥ allocationSize then
      some ({ s with freeEnd := s.freeEnd - allocationSize }.recordAllocation
        (getSlotIndexForAddress (s.capacity - s.freeEnd)) allocationSize)
    else none

/-- `AllocationSize(obj, usable_size)`. -/
def allocationSize (s : FreeListSpace) (obj : Nat) : Nat :=
  (s.allocationInfo (getSlotIndexForAddress obj)).byteSize

/-- `IsZygoteLargeObject(self, obj)`. -/
def isZygoteLargeObject (s : FreeListSpace) (obj : Nat) : Bool :=
  (s.allocationInfo (getSlotIndexForAddress obj)).isZygoteObject

/-- `LargeObjectSpace::FreeList(self, num_ptrs, ptrs)`: `Free` on each pointer in turn, with
the total of the freed bytes. -/
def freeList (s : FreeListSpace) : List Nat → Option (Nat × FreeListSpace)
  | [] => some (0, s)
  | obj :: objs => do
    let (freed, s) ← s.free obj
    let (total, s) ← freeList s objs
    pure (freed + total, s)

/-- The slot of `End() - free_end_`, where `Walk` and `SetAllLargeObjectsAsZygoteObjects`
stop. -/
def endInfo (s : FreeListSpace) : Nat := getSlotIndexForAddress (s.capacity - s.freeEnd)

/-- One call of `Walk`'s callback: `callback(byte_start, byte_end, alloc_size, arg)` as
`some`, and the `callback(nullptr, nullptr, 0, arg)` after each object as `none`. -/
abbrev WalkCall := Option (Nat × Nat × Nat)

/-- `Walk`'s loop from `cur`: the slot it stops at and the callback calls, or `none` when the
fuel runs out, which with one unit more than the slots below `endInfo` is a loop that does not
end. -/
def walkLoop (t : Nat → AllocationInfo) (endInfo : Nat) : Nat → Nat → Option (Nat × List WalkCall)
  | 0, _ => none
  | fuel + 1, cur =>
    if cur < endInfo then
      let calls : List WalkCall :=
        if !(t cur).isFree then
          let byteStart := getAllocationAddressForSlot cur
          [some (byteStart, byteStart + (t cur).byteSize, (t cur).byteSize), none]
        else []
      (walkLoop t endInfo fuel (cur + (t cur).alignSize)).map fun r => (r.1, calls ++ r.2)
    else some (cur, [])

/-- `Walk(callback, arg)`: the calls of the callback, or `none` when `CHECK_EQ(cur_info,
end_info)` fails or the loop does not end. -/
def walk (s : FreeListSpace) : Option (List WalkCall) :=
  match walkLoop s.allocationInfo s.endInfo (s.endInfo + 1) 0 with
  | some (cur, calls) => if cur = s.endInfo then some calls else none
  | none => none

/-- The loop of `SetAllLargeObjectsAsZygoteObjects` from `cur`, or `none` when it does not
end. -/
def setZygoteLoop (endInfo : Nat) :
    Nat → Nat → (Nat → AllocationInfo) → Option (Nat → AllocationInfo)
  | 0, _, _ => none
  | fuel + 1, cur, t =>
    if cur < endInfo then
      let t := if !(t cur).isFree then Function.update t cur (t cur).setZygoteObject else t
      setZygoteLoop endInfo fuel (cur + (t cur).alignSize) t
    else some t

/-- `SetAllLargeObjectsAsZygoteObjects(self)`. -/
def setAllLargeObjectsAsZygoteObjects (s : FreeListSpace) : Option FreeListSpace :=
  (setZygoteLoop s.endInfo (s.endInfo + 1) 0 s.allocationInfo).map fun t =>
    { s with allocationInfo := t }

/-! ## Table writes -/

@[simp] theorem modifyInfo_self (s : FreeListSpace) (slot : Nat) (f) :
    (s.modifyInfo slot f).allocationInfo slot = f (s.allocationInfo slot) := by
  simp [modifyInfo]

theorem modifyInfo_of_ne (s : FreeListSpace) {slot other : Nat} (h : other ≠ slot) (f) :
    (s.modifyInfo slot f).allocationInfo other = s.allocationInfo other := by
  simp [modifyInfo, Function.update_of_ne h]

@[simp] theorem capacity_modifyInfo (s : FreeListSpace) (slot : Nat) (f) :
    (s.modifyInfo slot f).capacity = s.capacity := rfl

@[simp] theorem freeEnd_modifyInfo (s : FreeListSpace) (slot : Nat) (f) :
    (s.modifyInfo slot f).freeEnd = s.freeEnd := rfl

@[simp] theorem freeBlocks_modifyInfo (s : FreeListSpace) (slot : Nat) (f) :
    (s.modifyInfo slot f).freeBlocks = s.freeBlocks := rfl

@[simp] theorem numBytesAllocated_modifyInfo (s : FreeListSpace) (slot : Nat) (f) :
    (s.modifyInfo slot f).numBytesAllocated = s.numBytesAllocated := rfl

@[simp] theorem numObjectsAllocated_modifyInfo (s : FreeListSpace) (slot : Nat) (f) :
    (s.modifyInfo slot f).numObjectsAllocated = s.numObjectsAllocated := rfl

/-! ## The set's order -/

/-- The comparator orders slots as the lexicographic order orders their keys. -/
theorem freeBlocksLt_iff (s : FreeListSpace) (a b : Nat) :
    s.freeBlocksLt a b = true ↔ lexKey (s.sortKey a) < lexKey (s.sortKey b) :=
  sortByPrevFree_iff _ _

instance (s : FreeListSpace) : IsStrictWeakOrder Nat (fun a b => s.freeBlocksLt a b = true) :=
  OrderedSet.isStrictWeakOrder_of_key _ s.freeBlocksLt_iff

theorem sortKey_congr {s t : FreeListSpace} {slot : Nat}
    (h : s.allocationInfo slot = t.allocationInfo slot) : s.sortKey slot = t.sortKey slot := by
  simp only [sortKey, h]

/-- Two slots are equivalent in the set's order only when they are the same slot. -/
theorem incomp_freeBlocksLt_iff (s : FreeListSpace) (a b : Nat) :
    OrderedSet.incomp s.freeBlocksLt a b = true ↔ a = b := by
  rw [OrderedSet.incomp_iff_of_key _ s.freeBlocksLt_iff]
  constructor
  · intro h
    have := congrArg (fun k => (ofLex (ofLex k).2).2) h
    simpa [lexKey, sortKey] using this
  · rintro rfl
    rfl

/-- Inserting a slot that is not in the set adds exactly that slot. -/
theorem mem_insertBy_freeBlocksLt (s : FreeListSpace) {x : Nat} {l : List Nat} (hx : x ∉ l)
    (y : Nat) : y ∈ OrderedSet.insertBy s.freeBlocksLt x l ↔ y = x ∨ y ∈ l := by
  have hperm := @OrderedSet.insertBy_perm Nat s.freeBlocksLt x l fun z hz => by
    cases h : OrderedSet.incomp s.freeBlocksLt x z
    · rfl
    · exact absurd ((s.incomp_freeBlocksLt_iff x z).mp h ▸ hz) hx
  rw [hperm.mem_iff, List.mem_cons]

/-- A sorted set stays sorted under a write that keeps the key of each of its elements. -/
theorem pairwise_freeBlocksLt_of_sortKey {s t : FreeListSpace} {l : List Nat}
    (h : l.Pairwise fun a b => s.freeBlocksLt a b = true)
    (hkey : ∀ x ∈ l, t.sortKey x = s.sortKey x) :
    l.Pairwise fun a b => t.freeBlocksLt a b = true :=
  h.imp_of_mem fun {a b} ha hb hab => by rwa [freeBlocksLt, hkey a ha, hkey b hb]

/-- In a sorted set, `lower_bound` finds the least element not below the probe. -/
theorem lowerBound_eq_some_iff {s : FreeListSpace}
    (hsorted : s.freeBlocks.Pairwise fun a b => s.freeBlocksLt a b = true)
    {probe : Nat × Nat × Nat} {info : Nat} :
    s.lowerBound probe = some info ↔
      info ∈ s.freeBlocks ∧ lexKey probe ≤ lexKey (s.sortKey info) ∧
        ∀ other ∈ s.freeBlocks, lexKey probe ≤ lexKey (s.sortKey other) →
          lexKey (s.sortKey info) ≤ lexKey (s.sortKey other) := by
  rw [lowerBound, OrderedSet.find?_eq_some_iff_of_pairwise hsorted]
  simp only [Bool.not_eq_true', Bool.eq_false_iff, ne_eq, sortByPrevFree_iff, freeBlocksLt_iff,
    not_lt]

theorem lowerBound_eq_none_iff (s : FreeListSpace) (probe : Nat × Nat × Nat) :
    s.lowerBound probe = none ↔ ∀ info ∈ s.freeBlocks, lexKey (s.sortKey info) < lexKey probe := by
  simp [lowerBound, List.find?_eq_none, sortByPrevFree_iff]

/-- `RemoveFreePrev` on an element of a sorted set whose info has a free run before it erases
the element. -/
theorem removeFreePrev_eq {s : FreeListSpace}
    (hsorted : s.freeBlocks.Pairwise fun a b => s.freeBlocksLt a b = true) {info : Nat}
    (hmem : info ∈ s.freeBlocks) (hprev : 0 < (s.allocationInfo info).getPrevFree) :
    s.removeFreePrev info = some { s with freeBlocks := s.freeBlocks.erase info } := by
  have hfound : s.lowerBound (s.sortKey info) = some info :=
    (lowerBound_eq_some_iff hsorted).mpr ⟨hmem, le_rfl, fun _ _ h => h⟩
  simp [removeFreePrev, hprev, hfound]

/-- `Free`'s merge with the run of `g` pages before `info`, on a sorted set that holds `info`
exactly when `g > 0`: the merged run starts at `info - g`, has `g` more pages, and `info` is
no longer in the set. -/
theorem coalescePrev_eq {s : FreeListSpace}
    (hsorted : s.freeBlocks.Pairwise fun a b => s.freeBlocksLt a b = true) {info g : Nat}
    (hg : (s.allocationInfo info).getPrevFree = g) (hmem : info ∈ s.freeBlocks ↔ 0 < g)
    (size : Nat) :
    s.coalescePrev info size =
      some ({ s with freeBlocks := s.freeBlocks.erase info }, info - g, size + g * kAlignment) := by
  unfold coalescePrev
  rcases Nat.eq_zero_or_pos g with rfl | hpos
  · -- no run before `info`, which is then not in the set
    have hnot : info ∉ s.freeBlocks := fun hi => absurd (hmem.mp hi) (lt_irrefl 0)
    simp [getPrevFreeBytes, hg, List.erase_of_not_mem hnot]
  · have hbytes : (s.allocationInfo info).getPrevFreeBytes ≠ 0 := by
      simp [getPrevFreeBytes, hg, kAlignment_pos.ne', hpos.ne']
    dsimp only
    rw [if_pos hbytes, removeFreePrev_eq hsorted (hmem.mpr hpos) (hg ▸ hpos)]
    simp [getPrevFreeBytes, hg]

/-- `Free`'s merge with what follows the freed object at `next`: a free run of `h` pages there
(`h > 0`, its first info free and `h` pages long, the object after it in the set) is added and
that object leaves the set; the merged run comes before the object at `next + h` either way. -/
theorem coalesceNext_eq {s : FreeListSpace}
    (hsorted : s.freeBlocks.Pairwise fun a b => s.freeBlocksLt a b = true) {next h : Nat}
    (hfree : (s.allocationInfo next).isFree = decide (0 < h))
    (halign : 0 < h → (s.allocationInfo next).alignSize = h)
    (hg : (s.allocationInfo (next + h)).getPrevFree = h) (hmem : next + h ∈ s.freeBlocks ↔ 0 < h)
    (size : Nat) :
    s.coalesceNext next size =
      some ({ s with freeBlocks := s.freeBlocks.erase (next + h) }, next + h,
        size + h * kAlignment) := by
  unfold coalesceNext
  rcases Nat.eq_zero_or_pos h with rfl | hpos
  · -- the object itself follows: nothing to merge
    have hnot : next + 0 ∉ s.freeBlocks := fun hi => absurd (hmem.mp hi) (lt_irrefl 0)
    simp only [Nat.add_zero] at hnot
    simp [hfree, List.erase_of_not_mem hnot]
  · -- a free run follows; the object after it is the one the merged run will precede
    dsimp only
    rw [hfree, decide_eq_true hpos, if_pos rfl, halign hpos,
      removeFreePrev_eq hsorted (hmem.mpr hpos) (by rw [hg]; exact hpos)]
    simp [getPrevFreeBytes, hg]

end FreeListSpace

end AndroidArt.Gc
