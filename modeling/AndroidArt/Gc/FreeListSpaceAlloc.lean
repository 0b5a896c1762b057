/-
Module: AndroidArt.Gc.FreeListSpaceAlloc
Purpose: `Alloc` of the FreeListSpace on a state that represents a list of chunks.
Trusted boundary: none beyond the model's (AndroidArt.Gc.FreeListSpace)
Main exports: FreeListSpace.allocPages, FreeListSpace.Represents.lowerBound_eq_some_iff,
  FreeListSpace.Represents.takeFreeBlock_represents, FreeListSpace.Represents.alloc_eq_none_iff
-/
import Mathlib
import AndroidArt.Gc.FreeListSpaceLayout

namespace AndroidArt.Gc

open AndroidArt.Lib AllocationInfo

namespace FreeListSpace

/-! ## The request -/

/-- The pages `Alloc(num_bytes)` takes: `RoundUp(num_bytes, kAlignment) / kAlignment`. -/
def allocPages (numBytes : Nat) : Nat := (numBytes + kAlignment - 1) / kAlignment

theorem roundUp_eq_allocPages (numBytes : Nat) :
    roundUp numBytes kAlignment = allocPages numBytes * kAlignment := rfl

theorem allocPages_pos {numBytes : Nat} (hn : 0 < numBytes) : 0 < allocPages numBytes := by
  rw [allocPages, kAlignment_eq]
  omega

theorem allocPages_lt {numBytes capacity : Nat} (hn : numBytes ≤ capacity)
    (hcap : capacity < 2 ^ 32) : allocPages numBytes < 2 ^ 21 := by
  rw [allocPages, kAlignment_eq]
  omega

/-- `Alloc`'s probe for `k` pages: `k`, then size 0, then the temporary's address. -/
theorem allocProbe_eq {k : Nat} (hk : k < 2 ^ 32) : allocProbe (k * kAlignment) = (k, 0, 0) := by
  simp only [allocProbe, getPrevFree_setByteSize, tempInfoAddress, Prod.mk.injEq, and_true]
  refine ⟨getPrevFree_setPrevFreeBytes hk _, ?_⟩
  simpa using @alignSize_setByteSize 0 (by decide)
    (AllocationInfo.empty.setPrevFreeBytes (k * kAlignment)) false

/-- An info is not below the probe for `k` pages exactly when it follows a run of at least `k`
pages. -/
theorem lexKey_probe_le_iff (k a b c : Nat) : lexKey (k, 0, 0) ≤ lexKey (a, b, c) ↔ k ≤ a := by
  simp only [lexKey, Prod.Lex.toLex_le_toLex]
  constructor
  · rintro (h | ⟨rfl, -⟩) <;> omega
  · intro h
    rcases Nat.lt_or_eq_of_le h with h | rfl
    · exact Or.inl h
    · exact Or.inr ⟨rfl, by simp; omega⟩

namespace Represents

variable {s : FreeListSpace} {cs : List (Chunk Bool)}

/-- `lower_bound` for `k` pages finds the object after the free run of at least `k` pages that
`SortByPrevFree` puts first: the smallest run, then the smallest object, then the lowest
address. -/
theorem lowerBound_eq_some_iff (h : s.Represents cs) {k info : Nat} (hk : 0 < k) :
    s.lowerBound (k, 0, 0) = some info ↔
      ∃ c, (info, c) ∈ Chunk.placements 0 cs ∧ k ≤ c.hole ∧
        ∀ q d, (q, d) ∈ Chunk.placements 0 cs → k ≤ d.hole →
          lexKey (c.hole, c.size, info) ≤ lexKey (d.hole, d.size, q) := by
  rw [FreeListSpace.lowerBound_eq_some_iff h.sorted, h.mem_freeBlocks]
  constructor
  · rintro ⟨⟨c, hpc, -⟩, hle, hmin⟩
    rw [h.sortKey_eq hpc, lexKey_probe_le_iff] at hle
    refine ⟨c, hpc, hle, fun q d hqd hkd => ?_⟩
    have := hmin q ((h.mem_freeBlocks q).mpr ⟨d, hqd, by omega⟩)
    rw [h.sortKey_eq hpc, h.sortKey_eq hqd, lexKey_probe_le_iff] at this
    exact this hkd
  · rintro ⟨c, hpc, hkc, hmin⟩
    refine ⟨⟨c, hpc, by omega⟩, by rw [h.sortKey_eq hpc, lexKey_probe_le_iff]; exact hkc,
      fun q hq hle => ?_⟩
    obtain ⟨d, hqd, -⟩ := (h.mem_freeBlocks q).mp hq
    rw [h.sortKey_eq hqd, lexKey_probe_le_iff] at hle
    rw [h.sortKey_eq hpc, h.sortKey_eq hqd]
    exact hmin q d hqd hle

/-- `lower_bound` for `k` pages finds nothing exactly when every free run is shorter. -/
theorem lowerBound_eq_none_iff (h : s.Represents cs) {k : Nat} (hk : 0 < k) :
    s.lowerBound (k, 0, 0) = none ↔ ∀ c ∈ cs, c.hole < k := by
  rw [FreeListSpace.lowerBound_eq_none_iff]
  constructor
  · intro hnone c hc
    obtain ⟨pre, post, rfl⟩ := List.append_of_mem hc
    have hpc : (Chunk.extent pre + c.hole, c) ∈ Chunk.placements 0 (pre ++ c :: post) :=
      Chunk.mem_placements_iff.mpr ⟨pre, post, rfl, by simp⟩
    by_contra hkc
    have := hnone _ ((h.mem_freeBlocks _).mpr ⟨c, hpc, by omega⟩)
    rw [h.sortKey_eq hpc, ← not_le, lexKey_probe_le_iff] at this
    omega
  · intro hall info hinfo
    obtain ⟨c, hpc, -⟩ := (h.mem_freeBlocks info).mp hinfo
    rw [h.sortKey_eq hpc, ← not_le, lexKey_probe_le_iff]
    exact Nat.not_le.mpr (hall c (mem_of_mem_placements hpc))

/-- The objects that follow a free run, other than those of a middle stretch, lie outside its
slots. -/
theorem outside_of_mem {pre mid post : List (Chunk Bool)} (h : s.Represents (pre ++ mid ++ post))
    {x : Nat} (hx : x ∈ s.freeBlocks) (hnot : ¬FreeSlot (Chunk.extent pre) mid x) :
    x < Chunk.extent pre ∨ (Chunk.extent pre + Chunk.extent mid ≤ x ∧
      x < Chunk.extent pre + Chunk.extent mid + Chunk.extent post) := by
  have hsize := h.size_pos
  rw [h.mem_freeBlocks, List.append_assoc, freeSlot_append, freeSlot_append] at hx
  simp only [Nat.zero_add] at hx
  rcases hx with hx | hx | hx
  · exact Or.inl (by simpa using (bounds_of_freeSlot (fun c hc => hsize c (by simp [hc])) hx).2)
  · exact absurd hx hnot
  · exact Or.inr (bounds_of_freeSlot (fun c hc => hsize c (by simp [hc])) hx)

end Represents

theorem freeSlot_singleton {base slot : Nat} {c : Chunk Bool} :
    FreeSlot base [c] slot ↔ slot = base + c.hole ∧ 0 < c.hole := by
  simp [FreeSlot, and_comm]

theorem freeSlot_cons {base slot : Nat} {c : Chunk Bool} {cs : List (Chunk Bool)} :
    FreeSlot base (c :: cs) slot ↔
      (slot = base + c.hole ∧ 0 < c.hole) ∨ FreeSlot (base + c.hole + c.size) cs slot := by
  rw [show c :: cs = [c] ++ cs from rfl, freeSlot_append, freeSlot_singleton, Chunk.extent_cons,
    Chunk.extent_nil, Nat.add_zero, Nat.add_assoc]

/-! ## Alloc in a free run -/

section TakeFreeBlock

variable (s : FreeListSpace) {info g k : Nat} (hg : (s.allocationInfo info).getPrevFree = g)

include hg in
/-- The table after `Alloc` takes `k` pages of the `g`-page run before `info`: the run's rest
keeps `g - k` pages, and when that is not zero the rest gets its own free info. -/
theorem allocationInfo_takeFreeBlock (hk : k ≤ g) (hg32 : g < 2 ^ 32) (hinfo : g ≤ info) :
    (s.takeFreeBlock info (k * kAlignment)).1.allocationInfo =
      if k < g then
        Function.update (Function.update s.allocationInfo info
            ((s.allocationInfo info).setPrevFreeBytes ((g - k) * kAlignment))) (info - (g - k))
          (((s.allocationInfo (info - (g - k))).setPrevFreeBytes 0).setByteSize
            ((g - k) * kAlignment) true)
      else
        Function.update s.allocationInfo info
          ((s.allocationInfo info).setPrevFreeBytes ((g - k) * kAlignment)) := by
  have hsub : (s.allocationInfo info).getPrevFreeBytes - k * kAlignment = (g - k) * kAlignment := by
    rw [getPrevFreeBytes, hg, Nat.sub_mul]
  have hrest : ((s.allocationInfo info).setPrevFreeBytes ((g - k) * kAlignment)).getPrevFree =
      g - k := @getPrevFree_setPrevFreeBytes (g - k) (by omega) _
  have hbytes : ((s.allocationInfo info).setPrevFreeBytes ((g - k) * kAlignment)).getPrevFreeBytes =
      (g - k) * kAlignment := by rw [getPrevFreeBytes, hrest]
  unfold takeFreeBlock
  simp only [modifyInfo_self, hsub, hbytes]
  by_cases hlt : k < g
  · have hne : info - (g - k) ≠ info := by omega
    have hpos : (g - k) * kAlignment > 0 := Nat.mul_pos (by omega) kAlignment_pos
    rw [if_pos hpos, if_pos hlt]
    simp only [insertFreeBlock, modifyInfo, hsub, hrest, Function.update_self,
      Function.update_of_ne hne, Function.update_of_ne hne.symm, hbytes, Function.update_idem]
  · have hzero : ¬(g - k) * kAlignment > 0 := by simp; omega
    rw [if_neg hzero, if_neg hlt]
    simp only [modifyInfo, hsub]

include hg in
/-- The set after `Alloc` takes `k` pages of the run before `info`: `info` leaves it, and comes
back when some of the run is left. -/
theorem freeBlocks_takeFreeBlock (hk : k ≤ g) (hg32 : g < 2 ^ 32) :
    (s.takeFreeBlock info (k * kAlignment)).1.freeBlocks =
      if k < g then
        OrderedSet.insertBy (s.takeFreeBlock info (k * kAlignment)).1.freeBlocksLt info
          (s.freeBlocks.erase info)
      else s.freeBlocks.erase info := by
  have hsub : (s.allocationInfo info).getPrevFreeBytes - k * kAlignment = (g - k) * kAlignment := by
    rw [getPrevFreeBytes, hg, Nat.sub_mul]
  have hrest : ((s.allocationInfo info).setPrevFreeBytes ((g - k) * kAlignment)).getPrevFree =
      g - k := @getPrevFree_setPrevFreeBytes (g - k) (by omega) _
  unfold takeFreeBlock
  simp only [modifyInfo_self, hsub]
  by_cases hlt : k < g
  · have hpos : ((s.allocationInfo info).setPrevFreeBytes ((g - k) * kAlignment)).getPrevFreeBytes
        > 0 := by
      rw [getPrevFreeBytes, hrest]
      exact Nat.mul_pos (by omega) kAlignment_pos
    simp only [hpos, if_true, hlt]
    rfl
  · have hzero : ¬((s.allocationInfo info).setPrevFreeBytes ((g - k) * kAlignment)).getPrevFreeBytes
        > 0 := by
      rw [getPrevFreeBytes, hrest]
      simp
      omega
    simp only [hzero, if_false, hlt]
    rfl

include hg in
theorem snd_takeFreeBlock : (s.takeFreeBlock info (k * kAlignment)).2 = info - g := by
  unfold takeFreeBlock
  dsimp only
  split_ifs <;> simp [hg]

theorem fields_takeFreeBlock (info size : Nat) :
    (s.takeFreeBlock info size).1.capacity = s.capacity ∧
      (s.takeFreeBlock info size).1.freeEnd = s.freeEnd ∧
      (s.takeFreeBlock info size).1.numBytesAllocated = s.numBytesAllocated ∧
      (s.takeFreeBlock info size).1.numObjectsAllocated = s.numObjectsAllocated := by
  unfold takeFreeBlock
  dsimp only
  split_ifs <;> simp [insertFreeBlock]

end TakeFreeBlock

@[simp] theorem allocationInfo_recordAllocation (s : FreeListSpace) (newInfo size : Nat) :
    (s.recordAllocation newInfo size).2.2.allocationInfo =
      Function.update s.allocationInfo newInfo
        (((s.allocationInfo newInfo).setPrevFreeBytes 0).setByteSize size false) := by
  simp [recordAllocation, modifyInfo, Function.update_idem]

@[simp] theorem fst_recordAllocation (s : FreeListSpace) (newInfo size : Nat) :
    (s.recordAllocation newInfo size).1 = newInfo * kAlignment := rfl

@[simp] theorem size_recordAllocation (s : FreeListSpace) (newInfo size : Nat) :
    (s.recordAllocation newInfo size).2.1 = size := rfl

@[simp] theorem capacity_recordAllocation (s : FreeListSpace) (newInfo size : Nat) :
    (s.recordAllocation newInfo size).2.2.capacity = s.capacity := rfl

@[simp] theorem freeEnd_recordAllocation (s : FreeListSpace) (newInfo size : Nat) :
    (s.recordAllocation newInfo size).2.2.freeEnd = s.freeEnd := rfl

@[simp] theorem freeBlocks_recordAllocation (s : FreeListSpace) (newInfo size : Nat) :
    (s.recordAllocation newInfo size).2.2.freeBlocks = s.freeBlocks := rfl

@[simp] theorem numBytesAllocated_recordAllocation (s : FreeListSpace) (newInfo size : Nat) :
    (s.recordAllocation newInfo size).2.2.numBytesAllocated = s.numBytesAllocated + size := rfl

@[simp] theorem numObjectsAllocated_recordAllocation (s : FreeListSpace) (newInfo size : Nat) :
    (s.recordAllocation newInfo size).2.2.numObjectsAllocated = s.numObjectsAllocated + 1 := rfl

/-- The info `Alloc` writes for its object: allocated, `k` pages, no free run before it, not a
zygote object. -/
theorem chunkInfo_recordAllocation {t : Nat → AllocationInfo} {q k : Nat} (hk : k < 2 ^ 30)
    (info : AllocationInfo) :
    ChunkInfo (Function.update t q ((info.setPrevFreeBytes 0).setByteSize (k * kAlignment) false))
      q ⟨0, k, false⟩ where
  alignSize_eq := by simp [alignSize_setByteSize hk]
  isFree_eq := by simp [isFree_setByteSize hk]
  getPrevFree_eq := by simp
  isZygoteObject_eq := by simp [isZygoteObject_setByteSize hk]
  hole_alignSize h := absurd h (lt_irrefl 0)
  hole_isFree h := absurd h (lt_irrefl 0)
  hole_getPrevFree h := absurd h (lt_irrefl 0)

namespace Represents

variable {s : FreeListSpace}

/-- `Alloc` for `k` pages in the run before the object of chunk `c`: the state represents the
chunks with the new object put at the start of that run. -/
theorem takeFreeBlock_represents {pre post : List (Chunk Bool)} {c : Chunk Bool}
    (h : s.Represents (pre ++ [c] ++ post)) {k : Nat} (hk : 0 < k) (hkc : k ≤ c.hole) :
    ((s.takeFreeBlock (Chunk.extent pre + c.hole) (k * kAlignment)).1.recordAllocation
        (Chunk.extent pre) (k * kAlignment)).2.2.Represents
      (pre ++ [⟨0, k, false⟩, { c with hole := c.hole - k }] ++ post) := by
  set q := Chunk.extent pre with hq
  set p := q + c.hole with hp
  have hpc : (p, c) ∈ Chunk.placements 0 (pre ++ [c] ++ post) :=
    Chunk.mem_placements_iff.mpr ⟨pre, post, by simp, by simp [hq, hp]⟩
  have hc : ChunkInfo s.allocationInfo p c := h.chunkInfo _ hpc
  have hbound := h.lt_of_mem hpc
  have hpos := h.size_pos c (by simp)
  have hmem : p ∈ s.freeBlocks := (h.mem_freeBlocks p).mpr ⟨c, hpc, by omega⟩
  have hg := hc.getPrevFree_eq
  have htable := allocationInfo_takeFreeBlock s hg hkc (by omega) (by omega)
  have hblocks := freeBlocks_takeFreeBlock s hg hkc (by omega)
  obtain ⟨hcap, hfe, hnb, hno⟩ := fields_takeFreeBlock s p (k * kAlignment)
  set s₁ := (s.takeFreeBlock p (k * kAlignment)).1 with hs₁
  have hsub : p - (c.hole - k) = q + k := by omega
  rw [hsub] at htable
  -- the final table, slot by slot
  have hT : ∀ x, (s₁.recordAllocation q (k * kAlignment)).2.2.allocationInfo x =
      if x = q then ((s₁.allocationInfo q).setPrevFreeBytes 0).setByteSize (k * kAlignment) false
      else if x = p then (s.allocationInfo p).setPrevFreeBytes ((c.hole - k) * kAlignment)
      else if k < c.hole ∧ x = q + k then
        ((s.allocationInfo (q + k)).setPrevFreeBytes 0).setByteSize
          ((c.hole - k) * kAlignment) true
      else s.allocationInfo x := by
    intro x
    rw [allocationInfo_recordAllocation, htable]
    grind [Function.update_apply]
  have hnodup := h.nodup
  -- the objects other than `p` that follow a free run keep their infos
  have hkeep : ∀ x ∈ s.freeBlocks.erase p,
      (s₁.recordAllocation q (k * kAlignment)).2.2.allocationInfo x = s.allocationInfo x ∧
        s₁.allocationInfo x = s.allocationInfo x := by
    intro x hx
    rw [hnodup.mem_erase_iff] at hx
    have hout := h.outside_of_mem hx.2 (by
      rw [freeSlot_singleton]
      exact fun h' => hx.1 h'.1)
    simp only [Chunk.extent_cons, Chunk.extent_nil] at hout
    refine ⟨by rw [hT]; split_ifs <;> first | rfl | omega, ?_⟩
    have hxq : x ≠ q + k := by omega
    rw [htable]
    split_ifs <;> simp [hxq, hx.1]
  refine h.splice (by simp [hcap]) (by simp [hfe]; omega) (Or.inr (by simp; omega))
    (by simp [hpos]; omega) (fun x hx => ?_) ?_ ?_ (fun x => ?_) (by simp [hnb]; ring)
    (by simp [hno])
  · -- outside the chunk the table is as it was
    simp only [Chunk.extent_cons, Chunk.extent_nil] at hx
    rw [hT]
    split_ifs <;> first | rfl | omega
  · -- the new object, then the object of `c` after what is left of the run
    have hk30 : k < 2 ^ 30 := by omega
    have hplace : Chunk.placements (Chunk.extent pre)
        [⟨0, k, false⟩, { c with hole := c.hole - k }] =
        [(q, ⟨0, k, false⟩), (p, { c with hole := c.hole - k })] := by
      simp only [Chunk.placements_cons, Chunk.placements_nil, hq, hp, Nat.add_zero,
        List.cons.injEq, Prod.mk.injEq, and_true, true_and]
      omega
    rw [hplace]
    intro pc hpc
    simp only [List.mem_cons, List.not_mem_nil, or_false] at hpc
    rcases hpc with rfl | rfl
    · refine (@chunkInfo_recordAllocation s₁.allocationInfo q k hk30 (s₁.allocationInfo q)).frame
        ?_ (fun h0 => absurd h0 (lt_irrefl 0))
      rw [hT, if_pos rfl, Function.update_self]
    · -- the object of `c`, after what is left of the run
      refine hc.rehole (by omega) (by rw [hT, if_neg (by omega), if_pos rfl])
        fun _ => ⟨(s.allocationInfo (q + k)).setPrevFreeBytes 0,
          getPrevFree_setPrevFreeBytes_zero _, ?_⟩
      rw [hsub, hT, if_neg (by omega), if_neg (by omega), if_pos ⟨by omega, rfl⟩]
  · -- the set: what it held without `p`, and `p` again when some of the run is left
    simp only [freeBlocks_recordAllocation, hblocks]
    have herase : (s.freeBlocks.erase p).Pairwise fun a b => s₁.freeBlocksLt a b = true :=
      pairwise_freeBlocksLt_of_sortKey (h.sorted.sublist (List.erase_sublist ..))
        fun x hx => sortKey_congr (hkeep x hx).2
    have hfinal : ∀ l : List Nat, (∀ x ∈ l, x ≠ q) →
        l.Pairwise (fun a b => s₁.freeBlocksLt a b = true) →
        l.Pairwise fun a b => (s₁.recordAllocation q (k * kAlignment)).2.2.freeBlocksLt a b = true :=
      fun l hl hpw => pairwise_freeBlocksLt_of_sortKey hpw fun x hx => sortKey_congr (by
        rw [allocationInfo_recordAllocation, Function.update_of_ne (hl x hx)])
    have hne : ∀ x ∈ s.freeBlocks.erase p, x ≠ q := by
      intro x hx hxq
      have := (hnodup.mem_erase_iff.mp hx).2
      obtain ⟨d, hqd, hd⟩ := (h.mem_freeBlocks x).mp this
      subst hxq
      have := h.outside_of_mem this (by
        rw [freeSlot_singleton]; intro h'; omega)
      simp at this
      omega
    split_ifs
    · refine hfinal _ (fun x hx => ?_) (OrderedSet.pairwise_insertBy herase)
      rcases OrderedSet.mem_insertBy hx with rfl | hx
      · omega
      · exact hne x hx
    · exact hfinal _ hne herase
  · -- membership: the objects after a run, with `p` when some of its run is left
    rw [freeBlocks_recordAllocation, hblocks, freeSlot_singleton, freeSlot_cons, freeSlot_singleton]
    simp only [Nat.add_zero, lt_irrefl, and_false, false_or,
      show Chunk.extent pre + k + (c.hole - k) = p by omega]
    split_ifs with hlt
    · rw [mem_insertBy_freeBlocksLt _ (fun hp' => (hnodup.mem_erase_iff.mp hp').1 rfl),
        hnodup.mem_erase_iff]
      grind
    · rw [hnodup.mem_erase_iff]
      grind

/-- `Alloc` for `k` pages at the start of the end region: the state represents the chunks with
the new object appended. -/
theorem allocEnd_represents {cs : List (Chunk Bool)} (h : s.Represents cs) {k : Nat} (hk : 0 < k)
    (hend : k * kAlignment ≤ s.freeEnd) :
    ({ s with freeEnd := s.freeEnd - k * kAlignment }.recordAllocation (Chunk.extent cs)
      (k * kAlignment)).2.2.Represents (cs ++ [(⟨0, k, false⟩ : Chunk Bool)]) := by
  have h' : s.Represents (cs ++ [] ++ []) := by simpa using h
  have hfe := h.freeEnd_add
  have hcap := h.capacity_lt
  have hk30 : k < 2 ^ 30 := by rw [kAlignment_eq] at hend hfe; omega
  -- the objects after a free run lie below the end region
  have hbelow : ∀ x ∈ s.freeBlocks, x < Chunk.extent cs := fun x hx => by
    simpa using (bounds_of_freeSlot h.size_pos ((h.mem_freeBlocks x).mp hx)).2
  set s' := ({ s with freeEnd := s.freeEnd - k * kAlignment }.recordAllocation (Chunk.extent cs)
      (k * kAlignment)).2.2 with hs'
  have hkeep : ∀ x ∈ s.freeBlocks, s'.sortKey x = s.sortKey x := fun x hx =>
    sortKey_congr (by
      rw [hs', allocationInfo_recordAllocation, Function.update_of_ne (hbelow x hx).ne])
  have hrep : s'.Represents (cs ++ [⟨0, k, false⟩] ++ []) := by
    refine h'.splice (by simp [hs']) (by simp [hs']; omega) (Or.inl rfl) (by simp [hk])
      (fun x hx => ?_) ?_ ?_ (fun x => ?_) (by simp [hs']) (by simp [hs'])
    · -- only the slot of the new object is written
      rw [hs', allocationInfo_recordAllocation, Function.update_of_ne (by simp at hx; omega)]
    · simp only [Chunk.placements_cons, Chunk.placements_nil, Nat.add_zero, List.mem_singleton]
      rintro pc rfl
      rw [hs', allocationInfo_recordAllocation]
      exact chunkInfo_recordAllocation hk30 _
    · exact pairwise_freeBlocksLt_of_sortKey h.sorted hkeep
    · simp only [hs', freeBlocks_recordAllocation, not_freeSlot_nil, not_false_eq_true, and_true,
        freeSlot_singleton, lt_irrefl, and_false, or_false]
  simpa using hrep

/-- `Alloc` returns `nullptr` exactly when no free run and not the end region has the pages it
asks for. -/
theorem alloc_eq_none_iff {cs : List (Chunk Bool)} (h : s.Represents cs) {numBytes : Nat}
    (hn : 0 < numBytes) (hcap : numBytes ≤ s.capacity) :
    s.alloc numBytes = none ↔
      (∀ c ∈ cs, c.hole < allocPages numBytes) ∧ s.freeEnd < allocPages numBytes * kAlignment := by
  have hk := allocPages_pos hn
  have hk32 : allocPages numBytes < 2 ^ 32 :=
    lt_trans (allocPages_lt hcap h.capacity_lt) (by decide)
  simp only [alloc, roundUp_eq_allocPages, allocProbe_eq hk32]
  cases hlb : s.lowerBound (allocPages numBytes, 0, 0) with
  | some info =>
    -- a free run fits
    obtain ⟨c, hpc, hkc, -⟩ := (h.lowerBound_eq_some_iff hk).mp hlb
    simp only [reduceCtorEq, false_iff, not_and, not_lt]
    intro hall
    exact absurd (hall c (mem_of_mem_placements hpc)) (by omega)
  | none =>
    rw [h.lowerBound_eq_none_iff hk] at hlb
    by_cases hend : s.freeEnd ≥ allocPages numBytes * kAlignment
    · simp [hend]
    · simp only [hend, if_false, true_iff]
      exact ⟨hlb, by omega⟩

/-- What `Alloc` returns on a represented state: `RoundUp(num_bytes, kAlignment)` bytes, and
either the start of the free run `SortByPrevFree` puts first among those of at least that many
pages, with the state holding the chunks with the new object at the start of that run, or, when
no free run is long enough, the start of the end region, with the new object appended. -/
theorem alloc_eq_some {cs : List (Chunk Bool)} (h : s.Represents cs) {numBytes : Nat}
    (hn : 0 < numBytes) (hcap : numBytes ≤ s.capacity) {obj size : Nat} {s' : FreeListSpace}
    (ha : s.alloc numBytes = some (obj, size, s')) :
    size = allocPages numBytes * kAlignment ∧
      ((∃ pre c post, cs = pre ++ c :: post ∧ allocPages numBytes ≤ c.hole ∧
          (∀ q d, (q, d) ∈ Chunk.placements 0 cs → allocPages numBytes ≤ d.hole →
            lexKey (c.hole, c.size, Chunk.extent pre + c.hole) ≤ lexKey (d.hole, d.size, q)) ∧
          obj = Chunk.extent pre * kAlignment ∧
          s'.Represents (Chunk.fillAt cs pre.length (allocPages numBytes) false)) ∨
        ((∀ c ∈ cs, c.hole < allocPages numBytes) ∧ obj = Chunk.extent cs * kAlignment ∧
          s'.Represents (cs ++ [⟨0, allocPages numBytes, false⟩]))) := by
  have hk := allocPages_pos hn
  have hk32 : allocPages numBytes < 2 ^ 32 :=
    lt_trans (allocPages_lt hcap h.capacity_lt) (by decide)
  simp only [alloc, roundUp_eq_allocPages, allocProbe_eq hk32] at ha
  cases hlb : s.lowerBound (allocPages numBytes, 0, 0) with
  | some info =>
    -- the best-fitting free run
    rw [hlb] at ha
    obtain ⟨c, hpc, hkc, hmin⟩ := (h.lowerBound_eq_some_iff hk).mp hlb
    obtain ⟨pre, post, rfl, rfl⟩ := Chunk.mem_placements_iff.mp hpc
    have h' : s.Represents (pre ++ [c] ++ post) := by simpa using h
    have hc : ChunkInfo s.allocationInfo (0 + Chunk.extent pre + c.hole) c := h.chunkInfo _ hpc
    have hbound := h.lt_of_mem hpc
    rw [Nat.zero_add] at hc hmin
    rw [Nat.zero_add] at hbound
    have hslot := @snd_takeFreeBlock s _ _ (allocPages numBytes) hc.getPrevFree_eq
    simp only [Option.some.injEq, Prod.ext_iff, fst_recordAllocation, size_recordAllocation,
      Nat.zero_add] at ha
    obtain ⟨hobj, hsize, hs'⟩ := ha
    rw [hslot, show Chunk.extent pre + c.hole - c.hole = Chunk.extent pre by omega] at hobj hs'
    refine ⟨hsize.symm, Or.inl ⟨pre, c, post, rfl, hkc, hmin, by simp [← hobj], ?_⟩⟩
    rw [Chunk.fillAt_append, ← hs']
    simpa using h'.takeFreeBlock_represents hk hkc
  | none =>
    -- the start of the end region
    rw [hlb] at ha
    simp only [ge_iff_le] at ha
    split_ifs at ha with hend
    simp only [Option.some.injEq, Prod.ext_iff, fst_recordAllocation, size_recordAllocation] at ha
    have hslot : getSlotIndexForAddress (s.capacity - s.freeEnd) = Chunk.extent cs := by
      rw [← endInfo, h.endInfo_eq]
    rw [hslot] at ha
    obtain ⟨hobj, hsize, hs'⟩ := ha
    refine ⟨hsize.symm, Or.inr ⟨(h.lowerBound_eq_none_iff hk).mp hlb, by simp [← hobj], ?_⟩⟩
    rw [← hs']
    exact h.allocEnd_represents hk hend

end Represents

end FreeListSpace

end AndroidArt.Gc
