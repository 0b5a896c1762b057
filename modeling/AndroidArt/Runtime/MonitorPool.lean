/-
Module: AndroidArt.Runtime.MonitorPool
Purpose: runtime/monitor_pool.{h,cc} on 64-bit builds: the pool that hands out monitors whose id
  fits the lock word.
Trusted boundary: addresses are numbers; the blocks `allocator_.allocate` returns are inputs,
  nonzero, 8-aligned and clear of every chunk before (`Fresh`), and pointer arithmetic on them
  does not wrap. The `next_free_` and `monitor_id_` fields of the monitors are functions of their
  address; what the destructor does to them is overwritten by the code and left out. The sizes a
  build fixes are a `Config`, which carries the `static_assert`s of the header.
Main exports: Config, MonitorPool, MonitorPool.create, MonitorPool.createMonitorInPool
-/
import AndroidArt.Lib.CountedLoop
import AndroidArt.Lib.LinkedList
import AndroidArt.Runtime.LockWord
import Mathlib.Data.List.Nodup
import Mathlib.Data.List.TakeWhile

namespace AndroidArt.Runtime

open AndroidArt.Lib

def kMaxChunkLists : Nat := 8
def kMonitorAlignment : Nat := 8

/-- The sizes a build fixes: `kChunkSize` (the page size), `kAlignedMonitorSize` (the size of a
`Monitor` rounded up to the alignment) and `kInitialChunkStorage`, with what the header asserts
of them. -/
structure Config where
  chunkSize : Nat
  alignedMonitorSize : Nat
  initialChunkStorage : Nat
  monitorSize_pos : 0 < alignedMonitorSize
  monitorSize_aligned : alignedMonitorSize % kMonitorAlignment = 0
  monitor_le_chunk : alignedMonitorSize ≤ chunkSize
  chunkSize_aligned : chunkSize % kMonitorAlignment = 0
  initialChunkStorage_pos : 0 < initialChunkStorage
  /-- `static_assert(kMaxListSize * kChunkSize < (1 << LockWord::kMonitorIdSize))`. -/
  ids_fit : (initialChunkStorage <<< (kMaxChunkLists - 1)) * chunkSize < 2 ^ LockWord.kMonitorIdSize

namespace Config

variable (cfg : Config)

/-- `ChunkListCapacity(index)`. -/
def chunkListCapacity (index : Nat) : Nat := cfg.initialChunkStorage <<< index

/-- `kMaxListSize`: the capacity of the last chunk list. -/
def maxListSize : Nat := cfg.initialChunkStorage <<< (kMaxChunkLists - 1)

/-- `kChunkCapacity`: the monitors a chunk holds. -/
def chunkCapacity : Nat := cfg.chunkSize / cfg.alignedMonitorSize

/-- `IsInChunk(base_addr, mon)`. -/
def isInChunk (baseAddr mon : Nat) : Bool :=
  decide (baseAddr ≤ mon) && decide (mon - baseAddr < cfg.chunkSize)

/-- The offset a slot's id encodes: chunk list `i`, chunk `j` of it, slot `k` of the chunk. -/
def slotOffset (i j k : Nat) : Nat :=
  i * (cfg.maxListSize * cfg.chunkSize) + j * cfg.chunkSize + k * cfg.alignedMonitorSize

/-! ### The sizes -/

variable {cfg}

theorem chunkCapacity_pos : 0 < cfg.chunkCapacity :=
  Nat.div_pos cfg.monitor_le_chunk cfg.monitorSize_pos

/-- A slot of the chunk ends inside it. -/
theorem slot_end_le {k : Nat} (hk : k < cfg.chunkCapacity) :
    (k + 1) * cfg.alignedMonitorSize ≤ cfg.chunkSize :=
  (Nat.le_div_iff_mul_le cfg.monitorSize_pos).mp hk

theorem slot_lt_chunk {k : Nat} (hk : k < cfg.chunkCapacity) :
    k * cfg.alignedMonitorSize < cfg.chunkSize := by
  have := slot_end_le hk
  rw [Nat.succ_mul] at this
  have := cfg.monitorSize_pos
  omega

/-- List `i` of the eight holds no more chunks than the last. -/
theorem chunkListCapacity_le {i : Nat} (hi : i < kMaxChunkLists) :
    cfg.chunkListCapacity i ≤ cfg.maxListSize := by
  unfold chunkListCapacity maxListSize
  rw [Nat.shiftLeft_eq, Nat.shiftLeft_eq]
  exact Nat.mul_le_mul_left _ (Nat.pow_le_pow_right (by decide) (by unfold kMaxChunkLists at hi ⊢; omega))

theorem chunkListCapacity_pos (i : Nat) : 0 < cfg.chunkListCapacity i := by
  unfold chunkListCapacity
  rw [Nat.shiftLeft_eq]
  exact Nat.mul_pos cfg.initialChunkStorage_pos (Nat.two_pow_pos i)

theorem maxListSize_mul_lt : cfg.maxListSize * cfg.chunkSize < 2 ^ 28 := cfg.ids_fit

/-- Every slot offset is below 2^31, eight times the offsets of one list. -/
theorem slotOffset_lt {i j k : Nat} (hi : i < kMaxChunkLists) (hj : j < cfg.maxListSize)
    (hk : k < cfg.chunkCapacity) : cfg.slotOffset i j k < kMaxChunkLists * (cfg.maxListSize * cfg.chunkSize) := by
  have hslot := slot_lt_chunk hk
  have hrow : j * cfg.chunkSize + k * cfg.alignedMonitorSize < cfg.maxListSize * cfg.chunkSize :=
    calc j * cfg.chunkSize + k * cfg.alignedMonitorSize
        < j * cfg.chunkSize + cfg.chunkSize := by omega
      _ = (j + 1) * cfg.chunkSize := (Nat.succ_mul j _).symm
      _ ≤ cfg.maxListSize * cfg.chunkSize := Nat.mul_le_mul_right _ hj
  have hlist : i * (cfg.maxListSize * cfg.chunkSize) + cfg.maxListSize * cfg.chunkSize ≤
      kMaxChunkLists * (cfg.maxListSize * cfg.chunkSize) := by
    rw [← Nat.succ_mul]
    exact Nat.mul_le_mul_right _ hi
  unfold slotOffset
  omega

theorem slotOffset_mod (i j k : Nat) : cfg.slotOffset i j k % kMonitorAlignment = 0 := by
  have hc := cfg.chunkSize_aligned
  have hm := cfg.monitorSize_aligned
  unfold slotOffset
  unfold kMonitorAlignment at hc hm ⊢
  rw [Nat.add_mod, Nat.add_mod (i * _), Nat.mul_mod, Nat.mul_mod (cfg.maxListSize) , hc,
    Nat.mul_mod j, hc, Nat.mul_mod k, hm]
  simp

end Config

/-- `MonitorIdToOffset`: `id << 3` on the `uint32_t` id. -/
def monitorIdToOffset (id : Nat) : Nat := (id <<< 3) % 2 ^ 32

/-- `OffsetToMonitorId`: `offset >> 3` cast to the `uint32_t` id. -/
def offsetToMonitorId (offset : Nat) : Nat := (offset >>> 3) % 2 ^ 32

/-- The id `AllocateChunk` gives slot `k` of chunk `j` of list `i`. -/
def Config.slotId (cfg : Config) (i j k : Nat) : Nat := offsetToMonitorId (cfg.slotOffset i j k)

/-! ### Ids and offsets -/

/-- An id read back as an offset gives the offset, for the multiples of 8 a `uint32_t` holds. -/
theorem monitorIdToOffset_offsetToMonitorId {offset : Nat} (h8 : offset % kMonitorAlignment = 0)
    (hlt : offset < 2 ^ 32) : monitorIdToOffset (offsetToMonitorId offset) = offset := by
  unfold monitorIdToOffset offsetToMonitorId kMonitorAlignment at *
  rw [Nat.shiftRight_eq_div_pow, Nat.mod_eq_of_lt (by omega), Nat.shiftLeft_eq]
  omega

section Slots

variable {cfg : Config} {i j k : Nat}

/-- A slot offset is chunk `i * kMaxListSize + j` of all, and `k` slots into it. -/
theorem slotOffset_eq (i j k : Nat) : cfg.slotOffset i j k =
    cfg.chunkSize * (i * cfg.maxListSize + j) + k * cfg.alignedMonitorSize := by
  unfold Config.slotOffset
  rw [Nat.mul_add, Nat.mul_comm cfg.chunkSize (i * _), Nat.mul_assoc, Nat.mul_comm cfg.chunkSize j]

theorem slotOffset_div_chunkSize (hk : k < cfg.chunkCapacity) :
    cfg.slotOffset i j k / cfg.chunkSize = i * cfg.maxListSize + j := by
  have hslot := Config.slot_lt_chunk hk
  rw [slotOffset_eq, Nat.mul_add_div (by omega), Nat.div_eq_of_lt hslot, Nat.add_zero]

theorem slotOffset_mod_chunkSize (hk : k < cfg.chunkCapacity) :
    cfg.slotOffset i j k % cfg.chunkSize = k * cfg.alignedMonitorSize := by
  rw [slotOffset_eq, Nat.mul_add_mod, Nat.mod_eq_of_lt (Config.slot_lt_chunk hk)]

theorem slotOffset_lt_two_pow (hi : i < kMaxChunkLists) (hj : j < cfg.maxListSize)
    (hk : k < cfg.chunkCapacity) : cfg.slotOffset i j k < 2 ^ 31 := by
  have hlt := Config.slotOffset_lt hi hj hk
  have hfit := cfg.maxListSize_mul_lt
  unfold kMaxChunkLists at hlt
  omega

theorem monitorIdToOffset_slotId (hi : i < kMaxChunkLists) (hj : j < cfg.maxListSize)
    (hk : k < cfg.chunkCapacity) : monitorIdToOffset (cfg.slotId i j k) = cfg.slotOffset i j k :=
  monitorIdToOffset_offsetToMonitorId (Config.slotOffset_mod i j k)
    (by have := slotOffset_lt_two_pow hi hj hk; omega)

/-- Every id fits the `LockWord::kMonitorIdSize` bits of the lock word. -/
theorem slotId_lt (hi : i < kMaxChunkLists) (hj : j < cfg.maxListSize)
    (hk : k < cfg.chunkCapacity) : cfg.slotId i j k < 2 ^ LockWord.kMonitorIdSize := by
  have hlt := Config.slotOffset_lt hi hj hk
  have hfit := cfg.maxListSize_mul_lt
  have hoff := slotOffset_lt_two_pow hi hj hk
  unfold Config.slotId offsetToMonitorId
  unfold kMaxChunkLists at hlt
  rw [Nat.shiftRight_eq_div_pow, Nat.mod_eq_of_lt (by omega)]
  show _ < 2 ^ 28
  omega

/-- The slot's place read back from its id: list, chunk and offset in the chunk. -/
theorem slotId_decode (hi : i < kMaxChunkLists) (hj : j < cfg.maxListSize)
    (hk : k < cfg.chunkCapacity) :
    monitorIdToOffset (cfg.slotId i j k) / cfg.chunkSize / cfg.maxListSize = i ∧
      monitorIdToOffset (cfg.slotId i j k) / cfg.chunkSize % cfg.maxListSize = j ∧
      monitorIdToOffset (cfg.slotId i j k) % cfg.chunkSize = k * cfg.alignedMonitorSize := by
  have hL : 0 < cfg.maxListSize := by omega
  rw [monitorIdToOffset_slotId hi hj hk, slotOffset_div_chunkSize hk, slotOffset_mod_chunkSize hk,
    Nat.mul_comm i, Nat.mul_add_div hL, Nat.div_eq_of_lt hj, Nat.add_zero, Nat.mul_add_mod,
    Nat.mod_eq_of_lt hj]
  exact ⟨rfl, rfl, rfl⟩

/-- Distinct places have distinct ids. -/
theorem slotId_injective {i' j' k' : Nat} (hi : i < kMaxChunkLists) (hj : j < cfg.maxListSize)
    (hk : k < cfg.chunkCapacity) (hi' : i' < kMaxChunkLists) (hj' : j' < cfg.maxListSize)
    (hk' : k' < cfg.chunkCapacity) (h : cfg.slotId i j k = cfg.slotId i' j' k') :
    i = i' ∧ j = j' ∧ k = k' := by
  obtain ⟨hi₁, hj₁, hk₁⟩ := slotId_decode hi hj hk
  obtain ⟨hi₂, hj₂, hk₂⟩ := slotId_decode hi' hj' hk'
  rw [h] at hi₁ hj₁ hk₁
  refine ⟨hi₁.symm.trans hi₂, hj₁.symm.trans hj₂, ?_⟩
  exact Nat.eq_of_mul_eq_mul_right cfg.monitorSize_pos (hk₁.symm.trans hk₂)

/-- Slots of one chunk at distinct indices are at distinct addresses. -/
theorem addr_inj {base size k k' : Nat} (hsize : 0 < size) (h : base + k * size = base + k' * size) :
    k = k' :=
  Nat.eq_of_mul_eq_mul_right hsize (Nat.add_left_cancel h)

end Slots

/-- The pool's fields, with the `next_free_` and `monitor_id_` of the monitor at each address.
Null is 0; `monitorChunks i j` is `monitor_chunks_[i][j]`, 0 where no chunk is stored. -/
structure MonitorPool where
  monitorChunks : Nat → Nat → Nat
  currentChunkListIndex : Nat
  numChunks : Nat
  currentChunkListCapacity : Nat
  firstFree : Nat
  nextFree : Nat → Nat
  monitorId : Nat → Nat

namespace MonitorPool

variable (cfg : Config)

/-- The fields before the constructor's first `AllocateChunk`. -/
def empty : MonitorPool := ⟨fun _ _ => 0, 0, 0, 0, 0, fun _ => 0, fun _ => 0⟩

/-- Chunk list `index` started: a zeroed array of `ChunkListCapacity(index)` entries. -/
def startChunkList (p : MonitorPool) (index : Nat) : MonitorPool :=
  { p with
    currentChunkListIndex := index
    currentChunkListCapacity := cfg.chunkListCapacity index
    monitorChunks := fun i j => if i = index then 0 else p.monitorChunks i j
    numChunks := 0 }

/-- The first block of `AllocateChunk`: a new chunk list when the current one is full, the
first one when the pool is being built; `none` is the failed `CHECK_LT`. -/
def ensureChunkList (p : MonitorPool) : Option MonitorPool :=
  if p.numChunks = p.currentChunkListCapacity then
    if p.currentChunkListCapacity ≠ 0 then
      if p.currentChunkListIndex + 1 < kMaxChunkLists then
        some (p.startChunkList cfg (p.currentChunkListIndex + 1))
      else none
    else some (p.startChunkList cfg p.currentChunkListIndex)
  else some p

/-- `monitor_chunks_[current_chunk_list_index_][num_chunks_] = chunk; num_chunks_++`. -/
def addChunk (p : MonitorPool) (chunk : Nat) : MonitorPool :=
  { p with
    monitorChunks := fun i j =>
      if i = p.currentChunkListIndex ∧ j = p.numChunks then chunk else p.monitorChunks i j
    numChunks := p.numChunks + 1 }

/-- The loop of `AllocateChunk` that links `n` more slots below `last` into the free list, each
with the id derived from the one above it; it returns the lowest slot. -/
def linkSlots (size : Nat) : Nat → Nat → (Nat → Nat) → (Nat → Nat) → Nat × (Nat → Nat) × (Nat → Nat)
  | 0, last, next, ids => (last, next, ids)
  | n + 1, last, next, ids =>
    let before := last - size
    linkSlots size n before (Function.update next before last)
      (Function.update ids before (offsetToMonitorId (monitorIdToOffset (ids last) - size)))

/-- The end of `AllocateChunk`, after `num_chunks_++`: the last slot of the chunk ends the free
list with the id of its place, the loop links the others, and the first becomes `first_free_`. -/
def carveChunk (p : MonitorPool) (chunk : Nat) : MonitorPool :=
  let last := chunk + (cfg.chunkCapacity - 1) * cfg.alignedMonitorSize
  let lastId := offsetToMonitorId (p.currentChunkListIndex * (cfg.maxListSize * cfg.chunkSize) +
    (p.numChunks - 1) * cfg.chunkSize + (cfg.chunkCapacity - 1) * cfg.alignedMonitorSize)
  let r := linkSlots cfg.alignedMonitorSize (cfg.chunkCapacity - 1) last
    (Function.update p.nextFree last 0) (Function.update p.monitorId last lastId)
  { p with firstFree := r.1, nextFree := r.2.1, monitorId := r.2.2 }

/-- `AllocateChunk()`, given the block `allocator_.allocate(kChunkSize)` returns; `none` is a
failed `CHECK`. -/
def allocateChunk (p : MonitorPool) (chunk : Nat) : Option MonitorPool :=
  match p.ensureChunkList cfg with
  | none => none
  | some p =>
    if chunk = 0 ∨ chunk % kMonitorAlignment ≠ 0 then none
    else some ((p.addChunk chunk).carveChunk cfg chunk)

/-- `MonitorPool::Create()`: the constructor gets its first chunk. -/
def create (chunk : Nat) : Option MonitorPool :=
  empty.allocateChunk cfg chunk

/-- The rest of `CreateMonitorInPool`: the first free slot leaves the free list and is
constructed with the id it holds and a null `next_free_`. -/
def takeFirstFree (p : MonitorPool) : MonitorPool × Nat :=
  let mon := p.firstFree
  let id := p.monitorId mon
  ({ p with
    firstFree := p.nextFree mon
    nextFree := Function.update p.nextFree mon 0
    monitorId := Function.update p.monitorId mon id }, mon)

/-- `CreateMonitorInPool`, given the block the allocator would return: a chunk when the free
list is empty, then the first free slot. -/
def createMonitorInPool (p : MonitorPool) (chunk : Nat) : Option (MonitorPool × Nat) :=
  (if p.firstFree = 0 then p.allocateChunk cfg chunk else some p).map takeFirstFree

/-- `ReleaseMonitorToPool`: the monitor goes to the head of the free list with its id kept. -/
def releaseMonitorToPool (p : MonitorPool) (mon : Nat) : MonitorPool :=
  let id := p.monitorId mon
  { p with
    nextFree := Function.update p.nextFree mon p.firstFree
    firstFree := mon
    monitorId := Function.update p.monitorId mon id }

/-- `LookupMonitor(mon_id)`. -/
def lookupMonitor (p : MonitorPool) (monId : Nat) : Nat :=
  let offset := monitorIdToOffset monId
  let index := offset / cfg.chunkSize
  let topIndex := index / cfg.maxListSize
  let listIndex := index % cfg.maxListSize
  let offsetInChunk := offset % cfg.chunkSize
  p.monitorChunks topIndex listIndex + offsetInChunk

/-- The chunks `ComputeMonitorIdInPool` visits, in order: the lists up to the current one, and
in each the chunks up to the `break` at `num_chunks_` in the current list. -/
def searchOrder (p : MonitorPool) : List (Nat × Nat) :=
  (List.range (p.currentChunkListIndex + 1)).flatMap fun i =>
    ((List.range (cfg.chunkListCapacity i)).takeWhile fun j =>
      !(decide (j ≥ p.numChunks) && decide (i = p.currentChunkListIndex))).map fun j => (i, j)

/-- `ComputeMonitorIdInPool(mon)`: the id from the first chunk that contains the monitor; `none`
is the `LOG(FATAL)` when none does. -/
def computeMonitorIdInPool (p : MonitorPool) (mon : Nat) : Option Nat :=
  (p.searchOrder cfg).findSome? fun (i, j) =>
    let chunkAddr := p.monitorChunks i j
    if cfg.isInChunk chunkAddr mon then
      some (offsetToMonitorId (mon - chunkAddr + i * (cfg.maxListSize * cfg.chunkSize) +
        j * cfg.chunkSize))
    else none

/-- The slots of the chunk at `chunk`, in order. -/
def slotsOf (chunk : Nat) : List Nat :=
  (List.range cfg.chunkCapacity).map fun k => chunk + k * cfg.alignedMonitorSize

variable {cfg}

/-! ### Lookups -/

/-- `LookupMonitor` of a slot's id is the slot. -/
theorem lookupMonitor_slotId (p : MonitorPool) {i j k : Nat} (hi : i < kMaxChunkLists)
    (hj : j < cfg.maxListSize) (hk : k < cfg.chunkCapacity) :
    p.lookupMonitor cfg (cfg.slotId i j k) = p.monitorChunks i j + k * cfg.alignedMonitorSize := by
  obtain ⟨htop, hlist, hin⟩ := slotId_decode hi hj hk
  dsimp only [lookupMonitor]
  rw [htop, hlist, hin]

/-! ### Carving a chunk -/

/-- What the loop of `AllocateChunk` leaves, run `n` times from slot `n` of a chunk at `base`:
the slots below linked in order, each with the id of its offset from `offset₀`, the lowest
returned, and every other address as it was. -/
structure SlotsLinked (size base offset₀ n : Nat) (next₀ ids₀ : Nat → Nat)
    (r : Nat × (Nat → Nat) × (Nat → Nat)) : Prop where
  first : r.1 = base
  links : ∀ k < n, r.2.1 (base + k * size) = base + (k + 1) * size
  ids : ∀ k ≤ n, r.2.2 (base + k * size) = offsetToMonitorId (offset₀ + k * size)
  frame : ∀ a, (∀ k < n, a ≠ base + k * size) → r.2.1 a = next₀ a ∧ r.2.2 a = ids₀ a

/-- The loop deriving each id from the one above it gives every slot the id of its own offset,
while the offsets stay multiples of 8 below 2^32: by induction on the slots left. -/
theorem linkSlots_spec {size base offset₀ : Nat} (hsize : 0 < size)
    (hsize8 : size % kMonitorAlignment = 0) (hoffset : offset₀ % kMonitorAlignment = 0) :
    ∀ (n : Nat) (next ids : Nat → Nat), offset₀ + n * size < 2 ^ 32 →
      ids (base + n * size) = offsetToMonitorId (offset₀ + n * size) →
      SlotsLinked size base offset₀ n next ids
        (linkSlots size n (base + n * size) next ids)
  | 0, next, ids, _, hid => ⟨by simp [linkSlots], fun k hk => absurd hk (Nat.not_lt_zero k),
      fun k hk => by rw [Nat.le_zero.mp hk]; exact hid, fun _ _ => ⟨rfl, rfl⟩⟩
  | n + 1, next, ids, hlt, hid => by
    have hbefore : base + (n + 1) * size - size = base + n * size := by
      rw [Nat.succ_mul]; omega
    -- the id of the slot below, derived from the one above, is that of its own offset
    have hderived : offsetToMonitorId (monitorIdToOffset (ids (base + (n + 1) * size)) - size) =
        offsetToMonitorId (offset₀ + n * size) := by
      have h8 : (offset₀ + (n + 1) * size) % kMonitorAlignment = 0 := by
        unfold kMonitorAlignment at *
        rw [Nat.add_mod, Nat.mul_mod, hsize8, hoffset]
        simp
      rw [hid, monitorIdToOffset_offsetToMonitorId h8 hlt, Nat.succ_mul]
      congr 1
      omega
    have hne : ∀ k < n + 1, base + k * size ≠ base + (n + 1) * size := fun k hk heq =>
      absurd (addr_inj hsize heq) (by omega)
    have ih := linkSlots_spec hsize hsize8 hoffset n
      (Function.update next (base + n * size) (base + (n + 1) * size))
      (Function.update ids (base + n * size) (offsetToMonitorId (offset₀ + n * size)))
      (by rw [Nat.succ_mul] at hlt; omega) (Function.update_self ..)
    rw [linkSlots, hbefore, hderived]
    -- slot `n` is outside what the rest of the loop writes
    have hfree : ∀ k < n, base + n * size ≠ base + k * size := fun k hk h => by
      have := addr_inj hsize h
      omega
    refine ⟨ih.first, fun k hk => ?_, fun k hk => ?_, fun a ha => ?_⟩
    · rcases Nat.lt_succ_iff_lt_or_eq.mp hk with hk | rfl
      · exact ih.links k hk
      · rw [(ih.frame _ hfree).1]
        exact Function.update_self ..
    · rcases Nat.lt_succ_iff_lt_or_eq.mp (Nat.lt_succ_of_le hk) with hk | rfl
      · exact ih.ids k (by omega)
      · rw [(ih.frame _ fun k' hk' => (hne k' (by omega)).symm).2,
          Function.update_of_ne (hne n (by omega)).symm]
        exact hid
    · obtain ⟨hnext, hids⟩ := ih.frame a fun k hk => ha k (by omega)
      have hna : a ≠ base + n * size := ha n (by omega)
      rw [hnext, hids, Function.update_of_ne hna, Function.update_of_ne hna]
      exact ⟨rfl, rfl⟩

theorem mem_slotsOf {chunk s : Nat} :
    s ∈ slotsOf cfg chunk ↔ ∃ k < cfg.chunkCapacity, s = chunk + k * cfg.alignedMonitorSize := by
  simp only [slotsOf, List.mem_map, List.mem_range]
  exact ⟨fun ⟨k, hk, h⟩ => ⟨k, hk, h.symm⟩, fun ⟨k, hk, h⟩ => ⟨k, hk, h.symm⟩⟩

theorem nodup_slotsOf (chunk : Nat) : (slotsOf cfg chunk).Nodup :=
  List.Nodup.map (fun _ _ h => addr_inj cfg.monitorSize_pos h) List.nodup_range

/-- What carving leaves, for chunk `j` of list `i`: its slots form the free list from the chunk
on, each with the id of its place, and no other monitor's id changes. -/
theorem carveChunk_spec (p : MonitorPool) {chunk : Nat} (hchunk : chunk ≠ 0)
    (hnum : 0 < p.numChunks) (hi : p.currentChunkListIndex < kMaxChunkLists)
    (hj : p.numChunks - 1 < cfg.maxListSize) :
    (p.carveChunk cfg chunk).firstFree = chunk ∧
      Links 0 (p.carveChunk cfg chunk).nextFree chunk (slotsOf cfg chunk) ∧
      (∀ k < cfg.chunkCapacity, (p.carveChunk cfg chunk).monitorId
        (chunk + k * cfg.alignedMonitorSize) = cfg.slotId p.currentChunkListIndex (p.numChunks - 1) k) ∧
      ∀ a, a ∉ slotsOf cfg chunk → (p.carveChunk cfg chunk).monitorId a = p.monitorId a := by
  have hcap : 0 < cfg.chunkCapacity := Config.chunkCapacity_pos
  have hsize := cfg.monitorSize_pos
  -- the loop starts at the last slot, whose id the code computes from its place
  have hlast : cfg.slotOffset p.currentChunkListIndex (p.numChunks - 1) 0 +
      (cfg.chunkCapacity - 1) * cfg.alignedMonitorSize =
      cfg.slotOffset p.currentChunkListIndex (p.numChunks - 1) (cfg.chunkCapacity - 1) := by
    simp only [Config.slotOffset, Nat.zero_mul, Nat.add_zero]
  have hlt := slotOffset_lt_two_pow hi hj (Nat.sub_lt hcap Nat.one_pos)
  have spec := @linkSlots_spec _ chunk _ hsize cfg.monitorSize_aligned
    (Config.slotOffset_mod p.currentChunkListIndex (p.numChunks - 1) 0) (cfg.chunkCapacity - 1)
    (Function.update p.nextFree (chunk + (cfg.chunkCapacity - 1) * cfg.alignedMonitorSize) 0)
    (Function.update p.monitorId (chunk + (cfg.chunkCapacity - 1) * cfg.alignedMonitorSize)
      (offsetToMonitorId (p.currentChunkListIndex * (cfg.maxListSize * cfg.chunkSize) +
        (p.numChunks - 1) * cfg.chunkSize + (cfg.chunkCapacity - 1) * cfg.alignedMonitorSize)))
    (by rw [hlast]; omega) (by rw [Function.update_self, hlast]; rfl)
  obtain ⟨hfirst, hlinks, hids, hframe⟩ := spec
  -- the loop writes the slots below the last one only
  have hlastOut : ∀ k < cfg.chunkCapacity - 1,
      chunk + (cfg.chunkCapacity - 1) * cfg.alignedMonitorSize ≠ chunk + k * cfg.alignedMonitorSize :=
    fun k hk h => absurd (addr_inj hsize h) (by omega)
  unfold carveChunk
  dsimp only
  refine ⟨hfirst, ?_, fun k hk => ?_, fun a ha => ?_⟩
  · have hl := @links_range Nat 0 _ (fun k => chunk + k * cfg.alignedMonitorSize) _ hcap
      (fun k _ => by omega) (fun k hk => hlinks k (by omega))
      (by rw [(hframe _ hlastOut).1, Function.update_self])
    simpa only [Nat.zero_mul, Nat.add_zero, slotsOf] using hl
  · rw [hids k (by omega)]
    simp only [Config.slotId, Config.slotOffset, Nat.zero_mul, Nat.add_zero]
  · have hnot : ∀ k < cfg.chunkCapacity, a ≠ chunk + k * cfg.alignedMonitorSize :=
      fun k hk h => ha (mem_slotsOf.mpr ⟨k, hk, h⟩)
    rw [(hframe a fun k hk => hnot k (by omega)).2, Function.update_of_ne (hnot _ (by omega))]

/-! ### Reachable states -/

variable (cfg)

/-- Chunk `j` of list `i` is allocated: in a full earlier list, or in the current one below
`num_chunks_`. -/
def Allocated (p : MonitorPool) (i j : Nat) : Prop :=
  i < p.currentChunkListIndex ∧ j < cfg.chunkListCapacity i ∨
    i = p.currentChunkListIndex ∧ j < p.numChunks

/-- Two chunks that do not overlap. -/
def Apart (a b : Nat) : Prop := a + cfg.chunkSize ≤ b ∨ b + cfg.chunkSize ≤ a

/-- A block `allocator_.allocate` may return: nonzero, aligned, and clear of every chunk. -/
def Fresh (p : MonitorPool) (chunk : Nat) : Prop :=
  chunk ≠ 0 ∧ chunk % kMonitorAlignment = 0 ∧
    ∀ i j, Allocated cfg p i j → Apart cfg chunk (p.monitorChunks i j)

/-- A slot carved from an allocated chunk. -/
def Carved (p : MonitorPool) (s : Nat) : Prop :=
  ∃ i j k, Allocated cfg p i j ∧ k < cfg.chunkCapacity ∧
    s = p.monitorChunks i j + k * cfg.alignedMonitorSize

/-- `q` keeps every chunk of `p` where it was: chunks are never freed or moved while the pool
lives. -/
def Extends (p q : MonitorPool) : Prop :=
  ∀ i j, Allocated cfg p i j → Allocated cfg q i j ∧ q.monitorChunks i j = p.monitorChunks i j

/-- What every reachable pool keeps, with `live` the monitors handed out and `free` the free
list: the current list is one of the eight and not overfull, the allocated chunks are nonzero
and do not overlap, every slot has the id of its place, and the free list runs to null through
the carved slots that are not live, so that free and live slots are the carved ones, each
once. -/
structure Inv (p : MonitorPool) (live free : List Nat) : Prop where
  index_lt : p.currentChunkListIndex < kMaxChunkLists
  capacity_eq : p.currentChunkListCapacity = cfg.chunkListCapacity p.currentChunkListIndex
  numChunks_le : p.numChunks ≤ p.currentChunkListCapacity
  chunk_ne_zero : ∀ {i j}, Allocated cfg p i j → p.monitorChunks i j ≠ 0
  apart : ∀ {i j i' j'}, Allocated cfg p i j → Allocated cfg p i' j' → (i, j) ≠ (i', j') →
    Apart cfg (p.monitorChunks i j) (p.monitorChunks i' j')
  ids : ∀ {i j k}, Allocated cfg p i j → k < cfg.chunkCapacity →
    p.monitorId (p.monitorChunks i j + k * cfg.alignedMonitorSize) = cfg.slotId i j k
  links : Links 0 p.nextFree p.firstFree free
  nodup : (free ++ live).Nodup
  carved : ∀ s, Carved cfg p s ↔ s ∈ free ++ live

/-- One call: `CreateMonitorInPool` with the block the allocator would return, or
`ReleaseMonitorToPool` of a live monitor. -/
inductive Step : MonitorPool → List Nat → MonitorPool → List Nat → Prop
  | createMonitor {p : MonitorPool} {live : List Nat} {chunk : Nat} {q : MonitorPool} {mon : Nat} :
    Fresh cfg p chunk → p.createMonitorInPool cfg chunk = some (q, mon) → Step p live q (mon :: live)
  | release {p : MonitorPool} {live : List Nat} {mon : Nat} :
    mon ∈ live → Step p live (p.releaseMonitorToPool mon) (live.erase mon)

/-- The pools a run reaches, with the monitors it has handed out and not taken back. -/
inductive Reach : MonitorPool → List Nat → Prop
  | create {chunk : Nat} {p : MonitorPool} : Fresh cfg empty chunk → create cfg chunk = some p →
    Reach p []
  | step {p q : MonitorPool} {live live' : List Nat} : Reach p live → Step cfg p live q live' →
    Reach q live'

variable {cfg}

section Invariant

variable {p : MonitorPool} {live free : List Nat}

/-- An allocated chunk is in one of the eight lists, below the largest list's size. -/
theorem Inv.bounds (h : Inv cfg p live free) {i j : Nat} (ha : Allocated cfg p i j) :
    i < kMaxChunkLists ∧ j < cfg.maxListSize := by
  have hindex := h.index_lt
  rcases ha with ⟨hi, hj⟩ | ⟨rfl, hj⟩
  · exact ⟨by omega, Nat.lt_of_lt_of_le hj (Config.chunkListCapacity_le (by omega))⟩
  · have hle := h.numChunks_le
    rw [h.capacity_eq] at hle
    exact ⟨hindex, Nat.lt_of_lt_of_le hj (hle.trans (Config.chunkListCapacity_le hindex))⟩

/-- A slot lies in its own chunk and no other, so its place is determined by its address. -/
theorem Inv.slot_unique (h : Inv cfg p live free) {i j k i' j' k' : Nat}
    (ha : Allocated cfg p i j) (ha' : Allocated cfg p i' j') (hk : k < cfg.chunkCapacity)
    (hk' : k' < cfg.chunkCapacity)
    (heq : p.monitorChunks i j + k * cfg.alignedMonitorSize =
      p.monitorChunks i' j' + k' * cfg.alignedMonitorSize) :
    i = i' ∧ j = j' ∧ k = k' := by
  by_cases hsame : (i, j) = (i', j')
  · obtain ⟨rfl, rfl⟩ := Prod.mk.inj hsame
    exact ⟨rfl, rfl, addr_inj cfg.monitorSize_pos heq⟩
  · have hslot := Config.slot_lt_chunk hk
    have hslot' := Config.slot_lt_chunk hk'
    rcases h.apart ha ha' hsame with hlt | hlt <;> omega

theorem Inv.carved_ne_zero (h : Inv cfg p live free) {s : Nat} (hs : Carved cfg p s) : s ≠ 0 := by
  obtain ⟨i, j, k, ha, -, rfl⟩ := hs
  have := h.chunk_ne_zero ha
  omega

/-- Slots of two chunks that do not overlap are at distinct addresses. -/
theorem Apart.slot_ne {a b k k' : Nat} (h : Apart cfg a b) (hk : k < cfg.chunkCapacity)
    (hk' : k' < cfg.chunkCapacity) : a + k * cfg.alignedMonitorSize ≠ b + k' * cfg.alignedMonitorSize := by
  have hslot := Config.slot_lt_chunk hk
  have hslot' := Config.slot_lt_chunk hk'
  rcases h with h | h <;> omega

theorem Apart.symm {a b : Nat} (h : Apart cfg a b) : Apart cfg b a := Or.symm h

/-- The slots of a fresh block are not carved yet. -/
theorem Fresh.not_mem_slotsOf {chunk s : Nat} (hfresh : Fresh cfg p chunk)
    (hs : Carved cfg p s) : s ∉ slotsOf cfg chunk := by
  obtain ⟨i, j, k, ha, hk, rfl⟩ := hs
  intro hmem
  obtain ⟨k', hk', heq⟩ := mem_slotsOf.mp hmem
  exact (hfresh.2.2 i j ha).slot_ne hk' hk heq.symm

/-- A pool with the same allocated chunks, at the same addresses, and the same monitors keeps
the invariant, once its current list is still one of the eight with its capacity. -/
theorem Inv.congr (h : Inv cfg p live free) {q : MonitorPool}
    (hindex : q.currentChunkListIndex < kMaxChunkLists)
    (hcap : q.currentChunkListCapacity = cfg.chunkListCapacity q.currentChunkListIndex)
    (hnum : q.numChunks ≤ q.currentChunkListCapacity)
    (halloc : ∀ i j, Allocated cfg q i j ↔ Allocated cfg p i j)
    (hchunks : ∀ i j, Allocated cfg p i j → q.monitorChunks i j = p.monitorChunks i j)
    (hfirst : q.firstFree = p.firstFree) (hnext : q.nextFree = p.nextFree)
    (hid : q.monitorId = p.monitorId) : Inv cfg q live free where
  index_lt := hindex
  capacity_eq := hcap
  numChunks_le := hnum
  chunk_ne_zero ha := by
    have ha' := (halloc _ _).mp ha
    rw [hchunks _ _ ha']
    exact h.chunk_ne_zero ha'
  apart ha ha' hne := by
    have hp := (halloc _ _).mp ha
    have hp' := (halloc _ _).mp ha'
    rw [hchunks _ _ hp, hchunks _ _ hp']
    exact h.apart hp hp' hne
  ids ha hk := by
    have hp := (halloc _ _).mp ha
    rw [hchunks _ _ hp, hid]
    exact h.ids hp hk
  links := by rw [hfirst, hnext]; exact h.links
  nodup := h.nodup
  carved s := by
    rw [← h.carved s]
    constructor
    · rintro ⟨i, j, k, ha, hk, rfl⟩
      have hp := (halloc _ _).mp ha
      exact ⟨i, j, k, hp, hk, by rw [hchunks _ _ hp]⟩
    · rintro ⟨i, j, k, hp, hk, rfl⟩
      exact ⟨i, j, k, (halloc _ _).mpr hp, hk, by rw [hchunks _ _ hp]⟩

/-- A block clear of the chunks of a pool is clear of those of a pool with the same chunks. -/
theorem Fresh.congr {q : MonitorPool} {chunk : Nat} (hfresh : Fresh cfg p chunk)
    (halloc : ∀ i j, Allocated cfg q i j ↔ Allocated cfg p i j)
    (hchunks : ∀ i j, Allocated cfg p i j → q.monitorChunks i j = p.monitorChunks i j) :
    Fresh cfg q chunk :=
  ⟨hfresh.1, hfresh.2.1, fun i j ha => by
    have hp := (halloc i j).mp ha
    rw [hchunks i j hp]
    exact hfresh.2.2 i j hp⟩

/-- `AllocateChunk`'s first block on a reachable pool: afterwards the current list has room, the
same chunks are allocated, and a fresh block stays fresh. -/
theorem Inv.ensureChunkList (h : Inv cfg p live free) {q : MonitorPool} {chunk : Nat}
    (hq : p.ensureChunkList cfg = some q) (hfresh : Fresh cfg p chunk) :
    Inv cfg q live free ∧ q.numChunks < q.currentChunkListCapacity ∧ Fresh cfg q chunk ∧
      q.firstFree = p.firstFree ∧ Extends cfg p q := by
  unfold MonitorPool.ensureChunkList at hq
  split_ifs at hq with hfull hcap hnext
  · -- a new list: the full current one joins the earlier lists
    cases hq
    have halloc : ∀ i j, Allocated cfg (p.startChunkList cfg (p.currentChunkListIndex + 1)) i j ↔
        Allocated cfg p i j := by
      intro i j
      simp only [Allocated, startChunkList]
      constructor
      · rintro (⟨hi, hj⟩ | ⟨-, hj⟩)
        · rcases Nat.lt_succ_iff_lt_or_eq.mp hi with hi | rfl
          · exact .inl ⟨hi, hj⟩
          · exact .inr ⟨rfl, by rw [hfull, h.capacity_eq]; exact hj⟩
        · exact absurd hj (Nat.not_lt_zero _)
      · rintro (⟨hi, hj⟩ | ⟨rfl, hj⟩)
        · exact .inl ⟨by omega, hj⟩
        · exact .inl ⟨by omega, by rw [hfull, h.capacity_eq] at hj; exact hj⟩
    have hchunks : ∀ i j, Allocated cfg p i j →
        (p.startChunkList cfg (p.currentChunkListIndex + 1)).monitorChunks i j = p.monitorChunks i j := by
      intro i j ha
      have hi : i ≠ p.currentChunkListIndex + 1 := by rcases ha with ⟨hi, -⟩ | ⟨rfl, -⟩ <;> omega
      simp only [startChunkList, if_neg hi]
    exact ⟨h.congr hnext rfl (Nat.zero_le _) halloc hchunks rfl rfl rfl,
      Config.chunkListCapacity_pos _, hfresh.congr halloc hchunks, rfl,
      fun i j ha => ⟨(halloc i j).mpr ha, hchunks i j ha⟩⟩
  · -- a reachable pool's list has room for at least one chunk
    have hpos : 0 < p.currentChunkListCapacity := by
      rw [h.capacity_eq]
      exact Config.chunkListCapacity_pos _
    exact absurd hpos (by omega)
  · cases hq
    exact ⟨h, Nat.lt_of_le_of_ne h.numChunks_le hfull, hfresh, rfl, fun _ _ ha => ⟨ha, rfl⟩⟩

@[simp] theorem carveChunk_monitorChunks (p : MonitorPool) (chunk : Nat) :
    (p.carveChunk cfg chunk).monitorChunks = p.monitorChunks := rfl

@[simp] theorem carveChunk_currentChunkListIndex (p : MonitorPool) (chunk : Nat) :
    (p.carveChunk cfg chunk).currentChunkListIndex = p.currentChunkListIndex := rfl

@[simp] theorem carveChunk_numChunks (p : MonitorPool) (chunk : Nat) :
    (p.carveChunk cfg chunk).numChunks = p.numChunks := rfl

@[simp] theorem carveChunk_currentChunkListCapacity (p : MonitorPool) (chunk : Nat) :
    (p.carveChunk cfg chunk).currentChunkListCapacity = p.currentChunkListCapacity := rfl

theorem allocated_carveChunk {q : MonitorPool} {chunk i j : Nat} :
    Allocated cfg (q.carveChunk cfg chunk) i j ↔ Allocated cfg q i j := Iff.rfl

/-- Adding a chunk allocates the next one of the current list. -/
theorem allocated_addChunk {q : MonitorPool} {chunk i j : Nat} :
    Allocated cfg (q.addChunk chunk) i j ↔
      Allocated cfg q i j ∨ i = q.currentChunkListIndex ∧ j = q.numChunks := by
  simp only [Allocated, addChunk]
  omega

theorem addChunk_monitorChunks_of_allocated {q : MonitorPool} {chunk i j : Nat}
    (ha : Allocated cfg q i j) : (q.addChunk chunk).monitorChunks i j = q.monitorChunks i j := by
  have hne : ¬(i = q.currentChunkListIndex ∧ j = q.numChunks) := by
    rcases ha with ⟨hi, -⟩ | ⟨-, hj⟩ <;> omega
  simp only [addChunk, if_neg hne]

/-- Carving a fresh chunk into a pool with room and an empty free list: the chunk's slots become
the free list, each with the id of its place. -/
theorem Inv.carve {q : MonitorPool} {chunk : Nat} (h : Inv cfg q live [])
    (hroom : q.numChunks < q.currentChunkListCapacity) (hfresh : Fresh cfg q chunk) :
    Inv cfg ((q.addChunk chunk).carveChunk cfg chunk) live (slotsOf cfg chunk) := by
  have hj : q.numChunks < cfg.maxListSize := by
    have : cfg.chunkListCapacity q.currentChunkListIndex ≤ cfg.maxListSize :=
      Config.chunkListCapacity_le h.index_lt
    rw [h.capacity_eq] at hroom
    omega
  obtain ⟨hfirst, hlinks, hids, hframe⟩ := carveChunk_spec (q.addChunk chunk) hfresh.1
    (Nat.succ_pos _) h.index_lt hj
  -- the new chunk sits at the next place of the current list, clear of the others
  have hnew : ¬Allocated cfg q q.currentChunkListIndex q.numChunks := by
    rintro (⟨hi, -⟩ | ⟨-, hj⟩) <;> omega
  have hat : (q.addChunk chunk).monitorChunks q.currentChunkListIndex q.numChunks = chunk := by
    simp [addChunk]
  have hcarved : ∀ s, Carved cfg ((q.addChunk chunk).carveChunk cfg chunk) s ↔
      Carved cfg q s ∨ s ∈ slotsOf cfg chunk := by
    intro s
    simp only [Carved, allocated_carveChunk, allocated_addChunk, carveChunk_monitorChunks]
    constructor
    · rintro ⟨i, j, k, ha | ⟨rfl, rfl⟩, hk, rfl⟩
      · exact .inl ⟨i, j, k, ha, hk, by rw [addChunk_monitorChunks_of_allocated ha]⟩
      · exact .inr (mem_slotsOf.mpr ⟨k, hk, by rw [hat]⟩)
    · rintro (⟨i, j, k, ha, hk, rfl⟩ | hs)
      · exact ⟨i, j, k, .inl ha, hk, by rw [addChunk_monitorChunks_of_allocated ha]⟩
      · obtain ⟨k, hk, rfl⟩ := mem_slotsOf.mp hs
        exact ⟨_, _, k, .inr ⟨rfl, rfl⟩, hk, by rw [hat]⟩
  refine ⟨h.index_lt, h.capacity_eq, hroom, ?_, ?_, ?_, by rw [hfirst]; exact hlinks, ?_, fun s => ?_⟩
  · intro i j ha
    rw [carveChunk_monitorChunks]
    rcases allocated_addChunk.mp (allocated_carveChunk.mp ha) with ha | ⟨rfl, rfl⟩
    · rw [addChunk_monitorChunks_of_allocated ha]
      exact h.chunk_ne_zero ha
    · rw [hat]
      exact hfresh.1
  · intro i j i' j' ha ha' hne
    simp only [carveChunk_monitorChunks]
    rcases allocated_addChunk.mp (allocated_carveChunk.mp ha) with ha | ⟨rfl, rfl⟩ <;>
      rcases allocated_addChunk.mp (allocated_carveChunk.mp ha') with ha' | ⟨rfl, rfl⟩
    · rw [addChunk_monitorChunks_of_allocated ha, addChunk_monitorChunks_of_allocated ha']
      exact h.apart ha ha' hne
    · rw [addChunk_monitorChunks_of_allocated ha, hat]
      exact (hfresh.2.2 i j ha).symm
    · rw [hat, addChunk_monitorChunks_of_allocated ha']
      exact hfresh.2.2 i' j' ha'
    · exact absurd rfl hne
  · intro i j k ha hk
    rw [carveChunk_monitorChunks]
    rcases allocated_addChunk.mp (allocated_carveChunk.mp ha) with ha | ⟨rfl, rfl⟩
    · rw [addChunk_monitorChunks_of_allocated ha,
        hframe _ (hfresh.not_mem_slotsOf ⟨i, j, k, ha, hk, rfl⟩)]
      exact h.ids ha hk
    · rw [hat, hids k hk]
      rfl
  · have hlive : live.Nodup := by simpa using h.nodup
    refine List.nodup_append.mpr ⟨nodup_slotsOf chunk, hlive, fun a ha b hb hab => ?_⟩
    subst hab
    exact hfresh.not_mem_slotsOf ((h.carved a).mpr (by simpa using hb)) ha
  · rw [hcarved, h.carved, List.mem_append, List.mem_append, List.mem_nil_iff, false_or, or_comm]

theorem Extends.trans {q r : MonitorPool} (hpq : Extends cfg p q) (hqr : Extends cfg q r) :
    Extends cfg p r := fun i j ha =>
  ⟨(hqr i j (hpq i j ha).1).1, (hqr i j (hpq i j ha).1).2.trans (hpq i j ha).2⟩

/-- Adding and carving a chunk keeps the others. -/
theorem extends_carve (q : MonitorPool) (chunk : Nat) :
    Extends cfg q ((q.addChunk chunk).carveChunk cfg chunk) := fun _ _ ha =>
  ⟨allocated_carveChunk.mpr (allocated_addChunk.mpr (.inl ha)), addChunk_monitorChunks_of_allocated ha⟩

/-- `AllocateChunk` is its first block, then the chunk added and carved; it fails on a null or
misaligned block. -/
theorem allocateChunk_eq_some {q : MonitorPool} {chunk : Nat} (hq : p.allocateChunk cfg chunk = some q) :
    ∃ q₁, p.ensureChunkList cfg = some q₁ ∧ q = (q₁.addChunk chunk).carveChunk cfg chunk := by
  unfold MonitorPool.allocateChunk at hq
  cases hens : p.ensureChunkList cfg with
  | none => simp [hens] at hq
  | some q₁ =>
    simp only [hens] at hq
    split_ifs at hq
    cases hq
    exact ⟨q₁, rfl, rfl⟩

/-- `AllocateChunk` on a reachable pool with an empty free list carves a fresh block into the new
free list and keeps the other chunks. -/
theorem Inv.allocateChunk (h : Inv cfg p live []) {chunk : Nat} {q : MonitorPool}
    (hfresh : Fresh cfg p chunk) (hq : p.allocateChunk cfg chunk = some q) :
    Inv cfg q live (slotsOf cfg chunk) ∧ Extends cfg p q := by
  obtain ⟨q₁, hens, rfl⟩ := allocateChunk_eq_some hq
  obtain ⟨h₁, hroom, hfresh₁, -, hext⟩ := h.ensureChunkList hens hfresh
  exact ⟨h₁.carve hroom hfresh₁, hext.trans (extends_carve q₁ chunk)⟩

/-- The pool the constructor builds: its first chunk carved into the free list. -/
theorem Inv.create {chunk : Nat} (hfresh : Fresh cfg empty chunk)
    (hp : create cfg chunk = some p) : Inv cfg p [] (slotsOf cfg chunk) := by
  obtain ⟨q₁, hens, rfl⟩ := allocateChunk_eq_some hp
  have hq₁ : q₁ = empty.startChunkList cfg 0 := by
    simp only [MonitorPool.ensureChunkList, empty, if_true, ne_eq, not_true_eq_false,
      if_false] at hens
    exact (Option.some.inj hens).symm
  subst hq₁
  -- no chunk is allocated yet
  have hnone : ∀ i j, ¬Allocated cfg (empty.startChunkList cfg 0) i j := by
    intro i j ha
    rcases ha with ⟨hi, -⟩ | ⟨-, hj⟩
    · exact Nat.not_lt_zero i hi
    · exact Nat.not_lt_zero j hj
  have h₀ : Inv cfg (empty.startChunkList cfg 0) [] [] :=
    ⟨show 0 < kMaxChunkLists by decide, rfl, Nat.zero_le _, fun ha => absurd ha (hnone _ _),
      fun ha => absurd ha (hnone _ _), fun ha => absurd ha (hnone _ _), .nil, List.nodup_nil,
      fun s => ⟨fun ⟨i, j, _, ha, _⟩ => absurd ha (hnone i j), fun hs => absurd hs List.not_mem_nil⟩⟩
  exact h₀.carve (Config.chunkListCapacity_pos 0)
    ⟨hfresh.1, hfresh.2.1, fun i j ha => absurd ha (hnone i j)⟩

/-- Taking the first free slot: it goes live, the rest of the free list stays. -/
theorem Inv.takeFirstFree {m : Nat} (h : Inv cfg p live (m :: free)) :
    p.takeFirstFree.2 = m ∧ Inv cfg p.takeFirstFree.1 (m :: live) free := by
  obtain ⟨hfirst, hm, hrest⟩ := Links.cons_iff.mp h.links
  have hnodup := h.nodup
  have hmfree : m ∉ free := (List.nodup_cons.mp hnodup).1 ∘ List.mem_append_left live
  have hperm : List.Perm (free ++ m :: live) ((m :: free) ++ live) := List.perm_middle
  refine ⟨hfirst, h.index_lt, h.capacity_eq, h.numChunks_le, h.chunk_ne_zero, h.apart, ?_, ?_,
    hperm.nodup_iff.mpr hnodup, fun s => (h.carved s).trans hperm.mem_iff.symm⟩
  · intro i j k ha hk
    simp only [MonitorPool.takeFirstFree, Function.update_eq_self]
    exact h.ids ha hk
  · simp only [MonitorPool.takeFirstFree, hfirst]
    exact hrest.update hmfree

/-- `ReleaseMonitorToPool` of a live monitor: it goes to the head of the free list. -/
theorem Inv.release {m : Nat} (h : Inv cfg p live free) (hm : m ∈ live) :
    Inv cfg (p.releaseMonitorToPool m) (live.erase m) (m :: free) := by
  have hperm : List.Perm ((m :: free) ++ live.erase m) (free ++ live) :=
    List.perm_middle.symm.trans ((List.perm_cons_erase hm).symm.append_left free)
  have hmfree : m ∉ free := fun hmf =>
    (List.nodup_append.mp h.nodup).2.2 m hmf m hm rfl
  have hcarved : Carved cfg p m := (h.carved m).mpr (List.mem_append_right free hm)
  refine ⟨h.index_lt, h.capacity_eq, h.numChunks_le, h.chunk_ne_zero, h.apart, ?_, ?_,
    hperm.nodup_iff.mpr h.nodup, fun s => (h.carved s).trans hperm.mem_iff.symm⟩
  · intro i j k ha hk
    simp only [releaseMonitorToPool, Function.update_eq_self]
    exact h.ids ha hk
  · refine .cons (h.carved_ne_zero hcarved) ?_
    simp only [releaseMonitorToPool, Function.update_self]
    exact h.links.update hmfree

/-- `CreateMonitorInPool` on a reachable pool, given a fresh block: the monitor it returns was
free and goes live, and the chunks stay where they were. -/
theorem Inv.createMonitorInPool (h : Inv cfg p live free) {chunk : Nat} {q : MonitorPool} {mon : Nat}
    (hfresh : Fresh cfg p chunk) (hq : p.createMonitorInPool cfg chunk = some (q, mon)) :
    (∃ free', Inv cfg q (mon :: live) free') ∧ Extends cfg p q := by
  obtain ⟨p₁, hp₁, hq⟩ := Option.map_eq_some_iff.mp hq
  -- the pool the first free slot is taken from, with its free list
  obtain ⟨free₁, h₁, hne, hext⟩ : ∃ free₁, Inv cfg p₁ live free₁ ∧ free₁ ≠ [] ∧ Extends cfg p p₁ := by
    split_ifs at hp₁ with hnull
    · have hnil : free = [] := (h.links.eq_nil_iff).mp hnull
      subst hnil
      obtain ⟨h₁, hext⟩ := h.allocateChunk hfresh hp₁
      have hslots : slotsOf cfg chunk ≠ [] := by
        simp [slotsOf, List.range_eq_nil, Nat.ne_of_gt Config.chunkCapacity_pos]
      exact ⟨_, h₁, hslots, hext⟩
    · cases hp₁
      exact ⟨free, h, fun hnil => hnull ((h.links.eq_nil_iff).mpr hnil), fun _ _ ha => ⟨ha, rfl⟩⟩
  obtain ⟨m, rest, rfl⟩ := List.exists_cons_of_ne_nil hne
  obtain ⟨hmon, h₂⟩ := h₁.takeFirstFree
  have hq₁ : q = p₁.takeFirstFree.1 := (congrArg Prod.fst hq).symm
  have hmon₁ : mon = m := (congrArg Prod.snd hq).symm.trans hmon
  subst hq₁ hmon₁
  -- taking a slot moves no chunk
  exact ⟨⟨rest, h₂⟩, hext⟩

/-- One call keeps the invariant and every chunk. -/
theorem Inv.step (h : Inv cfg p live free) {q : MonitorPool} {live' : List Nat}
    (hs : Step cfg p live q live') : (∃ free', Inv cfg q live' free') ∧ Extends cfg p q := by
  cases hs with
  | createMonitor hfresh hq => exact h.createMonitorInPool hfresh hq
  | release hm => exact ⟨⟨_, h.release hm⟩, fun _ _ ha => ⟨ha, rfl⟩⟩

/-- Every reachable pool keeps the invariant: by induction on the run. -/
theorem Inv.reach (hr : Reach cfg p live) : ∃ free, Inv cfg p live free := by
  induction hr with
  | create hfresh hp => exact ⟨_, Inv.create hfresh hp⟩
  | step _ hs ih =>
    obtain ⟨free, h⟩ := ih
    exact (h.step hs).1

/-! ### What the ids say -/

/-- A carved slot holds the id of its place. -/
theorem Inv.monitorId_of_carved (h : Inv cfg p live free) {s : Nat} (hs : Carved cfg p s) :
    ∃ i j k, Allocated cfg p i j ∧ k < cfg.chunkCapacity ∧
      s = p.monitorChunks i j + k * cfg.alignedMonitorSize ∧ p.monitorId s = cfg.slotId i j k := by
  obtain ⟨i, j, k, ha, hk, rfl⟩ := hs
  exact ⟨i, j, k, ha, hk, rfl, h.ids ha hk⟩

/-- `LookupMonitor` finds a slot from the id it holds. -/
theorem Inv.lookupMonitor (h : Inv cfg p live free) {s : Nat} (hs : Carved cfg p s) :
    p.lookupMonitor cfg (p.monitorId s) = s := by
  obtain ⟨i, j, k, ha, hk, rfl, hid⟩ := h.monitorId_of_carved hs
  obtain ⟨hi, hj⟩ := h.bounds ha
  rw [hid, lookupMonitor_slotId p hi hj hk]

/-- Every id fits the lock word's monitor field. -/
theorem Inv.monitorId_lt (h : Inv cfg p live free) {s : Nat} (hs : Carved cfg p s) :
    p.monitorId s < 2 ^ LockWord.kMonitorIdSize := by
  obtain ⟨i, j, k, ha, hk, -, hid⟩ := h.monitorId_of_carved hs
  obtain ⟨hi, hj⟩ := h.bounds ha
  rw [hid]
  exact slotId_lt hi hj hk

/-- Distinct slots hold distinct ids. -/
theorem Inv.monitorId_inj (h : Inv cfg p live free) {s s' : Nat} (hs : Carved cfg p s)
    (hs' : Carved cfg p s') (heq : p.monitorId s = p.monitorId s') : s = s' := by
  obtain ⟨i, j, k, ha, hk, rfl, hid⟩ := h.monitorId_of_carved hs
  obtain ⟨i', j', k', ha', hk', rfl, hid'⟩ := h.monitorId_of_carved hs'
  obtain ⟨hi, hj⟩ := h.bounds ha
  obtain ⟨hi', hj'⟩ := h.bounds ha'
  rw [hid, hid'] at heq
  obtain ⟨rfl, rfl, rfl⟩ := slotId_injective hi hj hk hi' hj' hk' heq
  rfl

/-- The inner loop of `ComputeMonitorIdInPool` over list `i`: all of it, but for the `break`
at `num_chunks_` in the current list. -/
theorem takeWhile_searchList (p : MonitorPool) (i : Nat) :
    (List.range (cfg.chunkListCapacity i)).takeWhile
        (fun j => !(decide (j ≥ p.numChunks) && decide (i = p.currentChunkListIndex))) =
      if i = p.currentChunkListIndex then List.range (min (cfg.chunkListCapacity i) p.numChunks)
      else List.range (cfg.chunkListCapacity i) := by
  by_cases hi : i = p.currentChunkListIndex
  · have hpred : (fun j => !(decide (j ≥ p.numChunks) && decide (i = p.currentChunkListIndex))) =
        fun j => decide (j < p.numChunks) := by
      funext j
      by_cases hj : j < p.numChunks
      · simp [hi, hj]
      · simp [hi, hj, Nat.le_of_not_lt hj]
    rw [hpred, takeWhile_range_lt, if_pos hi]
  · have hpred : (fun j => !(decide (j ≥ p.numChunks) && decide (i = p.currentChunkListIndex))) =
        fun _ => true := by
      funext j
      simp [hi]
    rw [hpred, if_neg hi, List.takeWhile_eq_self_iff.mpr fun _ _ => rfl]

/-- The chunks `ComputeMonitorIdInPool` visits are the allocated ones. -/
theorem Inv.mem_searchOrder (h : Inv cfg p live free) {i j : Nat} :
    (i, j) ∈ p.searchOrder cfg ↔ Allocated cfg p i j := by
  have hle := h.numChunks_le
  rw [h.capacity_eq] at hle
  simp only [searchOrder, takeWhile_searchList, List.mem_flatMap, List.mem_range, List.mem_map,
    Prod.mk.injEq]
  constructor
  · rintro ⟨i', hi', j', hj', rfl, rfl⟩
    split_ifs at hj' with hcur
    · exact .inr ⟨hcur, by rw [List.mem_range] at hj'; omega⟩
    · exact .inl ⟨by omega, List.mem_range.mp hj'⟩
  · rintro (⟨hi, hj⟩ | ⟨rfl, hj⟩)
    · exact ⟨i, by omega, j, by rw [if_neg (by omega)]; exact List.mem_range.mpr hj, rfl, rfl⟩
    · exact ⟨_, by omega, j, by rw [if_pos rfl, List.mem_range]; omega, rfl, rfl⟩

/-- `ComputeMonitorIdInPool` finds a slot's chunk, the only one that contains it, and computes
the id the slot holds. -/
theorem Inv.computeMonitorIdInPool (h : Inv cfg p live free) {s : Nat} (hs : Carved cfg p s) :
    p.computeMonitorIdInPool cfg s = some (p.monitorId s) := by
  obtain ⟨i, j, k, ha, hk, rfl, hid⟩ := h.monitorId_of_carved hs
  have hslot := Config.slot_lt_chunk hk
  refine findSome?_eq_of_unique (x := (i, j)) (h.mem_searchOrder.mpr ha) ?_ ?_
  · -- the slot's own chunk: the offset in it plus the chunk's place is the slot's offset
    simp only [Config.isInChunk, Nat.le_add_right, decide_true, Nat.add_sub_cancel_left, hslot,
      Bool.and_self, if_true, hid, Config.slotId, Config.slotOffset]
    congr 2
    ac_rfl
  · -- any other allocated chunk lies apart from it
    rintro ⟨i', j'⟩ hmem hne
    have ha' := h.mem_searchOrder.mp hmem
    have hapart := h.apart ha ha' (Ne.symm hne)
    have hout : cfg.isInChunk (p.monitorChunks i' j') (p.monitorChunks i j + k * cfg.alignedMonitorSize) = false := by
      simp only [Config.isInChunk, Bool.and_eq_false_iff, decide_eq_false_iff_not]
      rcases hapart with hlt | hlt <;> omega
    simp only [hout, Bool.false_eq_true, if_false]

/-- A call keeps every slot carved and the id it holds. -/
theorem Inv.step_keeps (h : Inv cfg p live free) {q : MonitorPool} {live' : List Nat}
    (hs : Step cfg p live q live') {s : Nat} (hcarved : Carved cfg p s) :
    Carved cfg q s ∧ q.monitorId s = p.monitorId s := by
  obtain ⟨⟨free', hq⟩, hext⟩ := h.step hs
  obtain ⟨i, j, k, ha, hk, rfl, hid⟩ := h.monitorId_of_carved hcarved
  obtain ⟨ha', hchunk⟩ := hext i j ha
  refine ⟨⟨i, j, k, ha', hk, by rw [hchunk]⟩, ?_⟩
  rw [hid, ← hchunk, hq.ids ha' hk]

/-- The first block of `AllocateChunk` fails only on its `CHECK_LT`: the current list full and
the last of the eight. -/
theorem Inv.ensureChunkList_isSome (h : Inv cfg p live free)
    (hroom : p.numChunks < p.currentChunkListCapacity ∨
      p.currentChunkListIndex + 1 < kMaxChunkLists) :
    ∃ q, p.ensureChunkList cfg = some q := by
  have hpos : p.currentChunkListCapacity ≠ 0 := by
    rw [h.capacity_eq]
    exact Nat.ne_of_gt (Config.chunkListCapacity_pos _)
  unfold MonitorPool.ensureChunkList
  by_cases hfull : p.numChunks = p.currentChunkListCapacity
  · have hnext : p.currentChunkListIndex + 1 < kMaxChunkLists := by omega
    rw [if_pos hfull, if_pos hpos, if_pos hnext]
    exact ⟨_, rfl⟩
  · rw [if_neg hfull]
    exact ⟨_, rfl⟩

/-- `CreateMonitorInPool` returns while the free list has a slot, the current list has room or
another list is left, given a fresh block. -/
theorem Inv.createMonitorInPool_isSome (h : Inv cfg p live free) {chunk : Nat}
    (hfresh : Fresh cfg p chunk)
    (hroom : p.firstFree ≠ 0 ∨ p.numChunks < p.currentChunkListCapacity ∨
      p.currentChunkListIndex + 1 < kMaxChunkLists) :
    ∃ q mon, p.createMonitorInPool cfg chunk = some (q, mon) := by
  unfold MonitorPool.createMonitorInPool
  by_cases hnull : p.firstFree = 0
  · obtain ⟨q₁, hq₁⟩ := h.ensureChunkList_isSome (hroom.resolve_left (not_not.mpr hnull))
    have hcheck : ¬(chunk = 0 ∨ chunk % kMonitorAlignment ≠ 0) :=
      not_or.mpr ⟨hfresh.1, not_not.mpr hfresh.2.1⟩
    rw [if_pos hnull, MonitorPool.allocateChunk, hq₁]
    simp only [if_neg hcheck, Option.map_some]
    exact ⟨_, _, rfl⟩
  · rw [if_neg hnull, Option.map_some]
    exact ⟨_, _, rfl⟩

end Invariant

/-! ### Every reachable pool -/

/-- The sizes of a debug build (`kInitialChunkStorage` of 1) on 4 KiB pages, for monitors of
1 KiB: four slots a chunk. -/
def debugConfig : Config :=
  ⟨4096, 1024, 1, by decide, by decide, by decide, by decide, by decide, by decide⟩

/-- The pool a debug build's constructor builds on a first chunk at 8192. -/
def debugPool : MonitorPool := (create debugConfig 8192).getD empty

end MonitorPool

end AndroidArt.Runtime
