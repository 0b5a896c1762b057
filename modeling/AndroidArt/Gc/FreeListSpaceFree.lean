/-
Module: AndroidArt.Gc.FreeListSpaceFree
Purpose: `Free` of the FreeListSpace on a state that represents a list of chunks.
Trusted boundary: none beyond the model's (AndroidArt.Gc.FreeListSpace)
Main exports: FreeListSpace.Represents.mem_freeBlocks_iff,
  FreeListSpace.Represents.coalescePrev_mark, FreeListSpace.Represents.free_last,
  FreeListSpace.Represents.free_next
-/
import Mathlib
import AndroidArt.Gc.FreeListSpaceAlloc

namespace AndroidArt.Gc

open AndroidArt.Lib AllocationInfo

namespace FreeListSpace

@[simp] theorem getSlotIndexForAddress_mul (slot : Nat) :
    getSlotIndexForAddress (slot * kAlignment) = slot :=
  Nat.mul_div_cancel _ kAlignment_pos

/-! ## The two ends of `Free` -/

section FreeSteps

variable {s s₂ s₃ : FreeListSpace} {p n info next size size' : Nat}
  (hbyte : (s.allocationInfo p).byteSize = n * kAlignment)
  (hal : ((s.modifyInfo p (·.setByteSize (n * kAlignment) true)).allocationInfo p).alignSize = n)
  (hprev : (s.modifyInfo p (·.setByteSize (n * kAlignment) true)).coalescePrev p (n * kAlignment) =
    some (s₂, info, size))
include hbyte hal hprev

/-- `Free` of an object whose next info is the start of the end region: the merged run joins
the end region. -/
theorem free_eq_of_end (hend : (p + n) * kAlignment = s.capacity - s.freeEnd) :
    s.free (p * kAlignment) = some (n * kAlignment,
      { s₂ with freeEnd := s₂.freeEnd + size, numObjectsAllocated := s₂.numObjectsAllocated - 1
                numBytesAllocated := s₂.numBytesAllocated - n * kAlignment }) := by
  simp only [free, getSlotIndexForAddress_mul, hbyte, hal, hprev, capacity_modifyInfo, freeEnd_modifyInfo,
    getAllocationAddressForSlot, hend, ge_iff_le, le_refl, if_true, Option.bind_eq_bind,
    Option.bind_some, Option.pure_def]

/-- `Free` of an object whose next info is below the end region: the merged run, with what
`coalesceNext` adds, comes before the info `coalesceNext` returns, which enters the set. -/
theorem free_eq_of_next (hlt : (p + n) * kAlignment < s.capacity - s.freeEnd)
    (hnext : s₂.coalesceNext (p + n) size = some (s₃, next, size')) :
    ∃ s', s.free (p * kAlignment) = some (n * kAlignment, s') ∧
      s'.allocationInfo = ((s₃.modifyInfo next (·.setPrevFreeBytes size')).modifyInfo info
        (·.setByteSize size' true)).allocationInfo ∧
      s'.freeBlocks = OrderedSet.insertBy (s₃.modifyInfo next (·.setPrevFreeBytes size')).freeBlocksLt
        next s₃.freeBlocks ∧
      s'.capacity = s₃.capacity ∧ s'.freeEnd = s₃.freeEnd ∧
      s'.numBytesAllocated = s₃.numBytesAllocated - n * kAlignment ∧
      s'.numObjectsAllocated = s₃.numObjectsAllocated - 1 := by
  refine ⟨{ ((s₃.modifyInfo next (·.setPrevFreeBytes size')).insertFreeBlock next).modifyInfo info
      (·.setByteSize size' true) with
    numObjectsAllocated := s₃.numObjectsAllocated - 1
    numBytesAllocated := s₃.numBytesAllocated - n * kAlignment }, ?_, rfl, rfl, rfl, rfl, rfl, rfl⟩
  simp only [free, getSlotIndexForAddress_mul, hbyte, hal, hprev, capacity_modifyInfo,
    freeEnd_modifyInfo, getAllocationAddressForSlot, ge_iff_le, hlt.not_ge, if_false, hnext,
    Option.bind_eq_bind, Option.bind_some, Option.pure_def]
  rfl

end FreeSteps

namespace Represents

variable {s : FreeListSpace} {cs : List (Chunk Bool)}

/-- An object is in the set exactly when a free run comes before it. -/
theorem mem_freeBlocks_iff (h : s.Represents cs) {p : Nat} {c : Chunk Bool}
    (hpc : (p, c) ∈ Chunk.placements 0 cs) : p ∈ s.freeBlocks ↔ 0 < c.hole := by
  rw [h.mem_freeBlocks]
  constructor
  · rintro ⟨d, hpd, hd⟩
    -- the object at `p` is that of `c`
    rwa [Chunk.eq_of_mem_placements hpc hpd (h.size_pos c (mem_of_mem_placements hpc))
      (h.size_pos d (mem_of_mem_placements hpd))]
  · exact fun hc => ⟨c, hpc, hc⟩

/-- Each object's pages are among those `num_bytes_allocated_` counts. -/
theorem size_le_numBytesAllocated (h : s.Represents cs) {c : Chunk Bool} (hc : c ∈ cs) :
    c.size * kAlignment ≤ s.numBytesAllocated := by
  rw [h.numBytesAllocated_eq]
  exact Nat.mul_le_mul_right _ (List.le_sum_of_mem (List.mem_map_of_mem hc))

section Mark

variable (h : s.Represents cs) {p : Nat} {c : Chunk Bool} (hpc : (p, c) ∈ Chunk.placements 0 cs)
include h hpc

/-- Marking the object at `p` free changes no key the set's order reads. -/
theorem sortKey_mark (x : Nat) :
    (s.modifyInfo p (·.setByteSize (c.size * kAlignment) true)).sortKey x = s.sortKey x := by
  by_cases hx : x = p
  · subst hx
    have hc := h.chunkInfo _ hpc
    have hbound := h.lt_of_mem hpc
    simp only [sortKey, modifyInfo_self, getPrevFree_setByteSize,
      alignSize_setByteSize (show c.size < 2 ^ 30 by omega), hc.alignSize_eq]
  · exact sortKey_congr (modifyInfo_of_ne s hx _)

theorem byteSize_eq : (s.allocationInfo p).byteSize = c.size * kAlignment := by
  rw [byteSize, (h.chunkInfo _ hpc).alignSize_eq]

theorem alignSize_mark :
    ((s.modifyInfo p (·.setByteSize (c.size * kAlignment) true)).allocationInfo p).alignSize =
      c.size := by
  have hbound := h.lt_of_mem hpc
  rw [modifyInfo_self, alignSize_setByteSize (by omega)]

theorem freeBlocksLt_mark :
    (s.modifyInfo p (·.setByteSize (c.size * kAlignment) true)).freeBlocksLt = s.freeBlocksLt := by
  funext a b
  simp only [freeBlocksLt, h.sortKey_mark hpc]

/-- `Free`'s merge with the run before the object at `p`: the merged run starts at the run's
first slot, and `p` leaves the set. -/
theorem coalescePrev_mark :
    (s.modifyInfo p (·.setByteSize (c.size * kAlignment) true)).coalescePrev p
        (c.size * kAlignment) =
      some ({ s.modifyInfo p (·.setByteSize (c.size * kAlignment) true) with
          freeBlocks := s.freeBlocks.erase p }, p - c.hole,
        c.size * kAlignment + c.hole * kAlignment) := by
  have hc := h.chunkInfo _ hpc
  refine coalescePrev_eq ?_ (by simp [hc.getPrevFree_eq]) ?_ _
  · rw [freeBlocks_modifyInfo, h.freeBlocksLt_mark hpc]
    exact h.sorted
  · rw [freeBlocks_modifyInfo]
    exact h.mem_freeBlocks_iff hpc

end Mark

/-- `Free` of the last object: it and the free run before it join the end region. -/
theorem free_last {pre : List (Chunk Bool)} {c : Chunk Bool} (h : s.Represents (pre ++ [c])) :
    ∃ s', s.free ((Chunk.extent pre + c.hole) * kAlignment) = some (c.size * kAlignment, s') ∧
      s'.Represents pre := by
  set p := Chunk.extent pre + c.hole with hp
  have hpc : (p, c) ∈ Chunk.placements 0 (pre ++ [c]) :=
    Chunk.mem_placements_iff.mpr ⟨pre, [], rfl, by simp [hp]⟩
  have hfe := h.freeEnd_add
  -- the info after the object is the start of the end region
  have hend : (p + c.size) * kAlignment = s.capacity - s.freeEnd := by
    simp only [Chunk.extent_append, Chunk.extent_cons, Chunk.extent_nil] at hfe
    rw [kAlignment_eq] at hfe ⊢
    omega
  refine ⟨_, free_eq_of_end (h.byteSize_eq hpc) (h.alignSize_mark hpc)
    (h.coalescePrev_mark hpc) hend, ?_⟩
  have h' : s.Represents (pre ++ [c] ++ []) := by simpa using h
  have hnodup := h.nodup
  have hmemp := h.mem_freeBlocks_iff hpc
  rw [← List.append_nil pre, ← List.append_nil (pre ++ [])]
  refine h'.splice rfl (by simp; ring) (Or.inl rfl) (by simp)
    (fun x hx => by dsimp only; exact modifyInfo_of_ne s (show x ≠ p by simp at hx; omega) _)
    (by simp)
    (pairwise_freeBlocksLt_of_sortKey (h.sorted.sublist (List.erase_sublist ..))
      fun x _ => h.sortKey_mark hpc x) (fun slot => ?_) ?_ ?_
  · -- the set loses the freed object
    rw [hnodup.mem_erase_iff, freeSlot_singleton]
    simp only [not_freeSlot_nil, or_false]
    by_cases hs : slot = p
    · subst hs
      exact ⟨fun h1 => absurd rfl h1.1, fun h1 => absurd ⟨hp, hmemp.mp h1.1⟩ h1.2⟩
    · simp [hs, ← hp]
  · have := h.size_le_numBytesAllocated (show c ∈ pre ++ [c] by simp)
    simp only [numBytesAllocated_modifyInfo, List.map_cons, List.map_nil, List.sum_cons,
      List.sum_nil, Nat.add_zero, Nat.zero_mul]
    omega
  · have := h.numObjectsAllocated_eq
    simp only [numObjectsAllocated_modifyInfo, List.length_append, List.length_cons,
      List.length_nil] at this ⊢
    omega

/-- `Free` of an object with another after it: it and the free runs before and after it become
one free run before the next object. -/
theorem free_next {pre post : List (Chunk Bool)} {c d : Chunk Bool}
    (h : s.Represents (pre ++ c :: d :: post)) :
    ∃ s', s.free ((Chunk.extent pre + c.hole) * kAlignment) = some (c.size * kAlignment, s') ∧
      s'.Represents (pre ++ { d with hole := c.hole + c.size + d.hole } :: post) := by
  set p := Chunk.extent pre + c.hole with hp
  set q := p + c.size + d.hole with hq
  have hpc : (p, c) ∈ Chunk.placements 0 (pre ++ c :: d :: post) :=
    Chunk.mem_placements_iff.mpr ⟨pre, d :: post, rfl, by simp [hp]⟩
  have hqd : (q, d) ∈ Chunk.placements 0 (pre ++ c :: d :: post) :=
    Chunk.mem_placements_iff.mpr ⟨pre ++ [c], post, by simp, by simp [hq, hp]; omega⟩
  have hc : ChunkInfo s.allocationInfo p c := h.chunkInfo _ hpc
  have hd : ChunkInfo s.allocationInfo q d := h.chunkInfo _ hqd
  have hbound := h.lt_of_mem hqd
  have hcpos := h.size_pos c (by simp)
  have hdpos := h.size_pos d (by simp)
  have hfe := h.freeEnd_add
  have hnodup := h.nodup
  -- the info after the object is below the end region
  have hlt : (p + c.size) * kAlignment < s.capacity - s.freeEnd := by
    simp only [Chunk.extent_append, Chunk.extent_cons] at hfe
    rw [kAlignment_eq] at hfe ⊢
    omega
  -- the state after the merge with the run before the object
  set s₂ : FreeListSpace := { s.modifyInfo p (·.setByteSize (c.size * kAlignment) true) with
    freeBlocks := s.freeBlocks.erase p } with hs₂
  have ht₂ : ∀ x, x ≠ p → s₂.allocationInfo x = s.allocationInfo x := fun x hx => by
    rw [hs₂]
    dsimp only
    exact modifyInfo_of_ne s hx _
  -- the merge with what follows: the free run before the next object, if there is one
  have hcn := @coalesceNext_eq s₂ (pairwise_freeBlocksLt_of_sortKey
      (h.sorted.sublist (List.erase_sublist ..)) fun x _ => h.sortKey_mark hpc x) (p + c.size)
    d.hole
    (by
      rw [ht₂ _ (by omega)]
      rcases Nat.eq_zero_or_pos d.hole with h0 | h0
      · rw [show p + c.size = q by omega, hd.isFree_eq, h0]
        rfl
      · rw [show p + c.size = q - d.hole by omega, hd.hole_isFree h0, decide_eq_true h0])
    (fun h0 => by
      rw [ht₂ _ (by omega), show p + c.size = q - d.hole by omega, hd.hole_alignSize h0])
    (by rw [ht₂ _ (by omega), hd.getPrevFree_eq])
    (by
      rw [hs₂, hnodup.mem_erase_iff, ← h.mem_freeBlocks_iff hqd]
      exact and_iff_right (by omega))
    (c.size * kAlignment + c.hole * kAlignment)
  obtain ⟨F, hfree, hFt, hFb, hFc, hFe, hFnb, hFno⟩ :=
    free_eq_of_next (h.byteSize_eq hpc) (h.alignSize_mark hpc) (h.coalescePrev_mark hpc) hlt hcn
  refine ⟨F, hfree, ?_⟩
  have hb₂ : s₂.freeBlocks = s.freeBlocks.erase p := rfl
  dsimp only at hFb
  rw [← hq, hb₂] at hFb
  set T := c.size * kAlignment + c.hole * kAlignment + d.hole * kAlignment with hT
  have hTeq : T = (c.hole + c.size + d.hole) * kAlignment := by rw [hT]; ring
  have hT32 : c.hole + c.size + d.hole < 2 ^ 30 := by
    simp only [Chunk.extent_append, Chunk.extent_cons] at hbound
    omega
  -- the table after `Free`: the merged run's first info, the next object's info, the rest
  have hFo : ∀ x, x ≠ p - c.hole → x ≠ q → x ≠ p → F.allocationInfo x = s.allocationInfo x := by
    intro x ha hq' hp'
    rw [hFt, modifyInfo_of_ne _ ha, modifyInfo_of_ne _ hq']
    exact ht₂ x hp'
  have hFq : F.allocationInfo q = (s.allocationInfo q).setPrevFreeBytes T := by
    rw [hFt, modifyInfo_of_ne _ (by omega), modifyInfo_self]
    exact congrArg (·.setPrevFreeBytes T) (ht₂ q (by omega))
  have hFa : F.allocationInfo (p - c.hole) =
      (s₂.allocationInfo (p - c.hole)).setByteSize T true := by
    rw [hFt, modifyInfo_self, modifyInfo_of_ne _ (by omega)]
  have hprev0 : (s₂.allocationInfo (p - c.hole)).getPrevFree = 0 := by
    rcases Nat.eq_zero_or_pos c.hole with h0 | h0
    · -- no run before the object: the merged run starts at the object itself
      rw [h0, Nat.sub_zero, hs₂]
      dsimp only
      rw [modifyInfo_self, getPrevFree_setByteSize, hc.getPrevFree_eq, h0]
    · rw [ht₂ _ (by omega), hc.hole_getPrevFree h0]
  have h' : s.Represents (pre ++ [c, d] ++ post) := by simpa using h
  have hmemp := h.mem_freeBlocks_iff hpc
  have hmemq := h.mem_freeBlocks_iff hqd
  -- the set before the insert: the old one without the two objects
  have hmemL : ∀ y, y ∈ (s.freeBlocks.erase p).erase q ↔ y ≠ q ∧ y ≠ p ∧ y ∈ s.freeBlocks := by
    intro y
    rw [(hnodup.erase p).mem_erase_iff, hnodup.mem_erase_iff]
  have houtL : ∀ y ∈ (s.freeBlocks.erase p).erase q,
      y < Chunk.extent pre ∨ Chunk.extent pre + Chunk.extent [c, d] ≤ y := by
    intro y hy
    obtain ⟨hyq, hyp, hy⟩ := (hmemL y).mp hy
    have := h'.outside_of_mem hy (by
      rw [freeSlot_cons, freeSlot_singleton]
      omega)
    omega
  rw [show pre ++ { d with hole := c.hole + c.size + d.hole } :: post =
    pre ++ [{ d with hole := c.hole + c.size + d.hole }] ++ post by simp]
  have hFe' : F.freeEnd = s.freeEnd := hFe
  have hFnb' : F.numBytesAllocated = s.numBytesAllocated - c.size * kAlignment := hFnb
  have hFno' : F.numObjectsAllocated = s.numObjectsAllocated - 1 := hFno
  refine h'.splice hFc (by rw [hFe']; simp only [Chunk.extent_cons, Chunk.extent_nil]; ring) (Or.inr (by simp; omega)) (by simp [hdpos])
    (fun x hx => ?_) ?_ ?_ (fun slot => ?_) ?_ ?_
  · -- outside the two chunks the table is as it was
    simp only [Chunk.extent_cons, Chunk.extent_nil] at hx
    exact hFo x (by omega) (by omega) (by omega)
  · -- the next object, after the merged run
    have hplace : Chunk.placements (Chunk.extent pre) [{ d with hole := c.hole + c.size + d.hole }] =
        [(q, { d with hole := c.hole + c.size + d.hole })] := by
      simp only [Chunk.placements_cons, Chunk.placements_nil, List.cons.injEq, Prod.mk.injEq,
        and_true]
      omega
    rw [hplace]
    intro pc hpc'
    rw [List.mem_singleton] at hpc'
    subst hpc'
    have hhole : q - (c.hole + c.size + d.hole) = p - c.hole := by omega
    refine hd.rehole hT32 (by rw [hFq, hTeq]) fun _ => ⟨_, hprev0, ?_⟩
    rw [hhole, hFa, hTeq]
  · -- the set is sorted: the insert keeps it so, and the last write moves no key
    rw [hFb]
    refine pairwise_freeBlocksLt_of_sortKey (OrderedSet.pairwise_insertBy
      (pairwise_freeBlocksLt_of_sortKey
        (h.sorted.sublist ((List.erase_sublist ..).trans (List.erase_sublist ..)))
        fun y hy => sortKey_congr ?_)) fun y hy => sortKey_congr ?_
    · obtain ⟨hyq, hyp, -⟩ := (hmemL y).mp hy
      rw [modifyInfo_of_ne _ hyq]
      exact ht₂ y hyp
    · have hya : y ≠ p - c.hole := by
        rcases OrderedSet.mem_insertBy hy with rfl | hy
        · omega
        · have := houtL y hy
          simp only [Chunk.extent_cons, Chunk.extent_nil] at this
          omega
      rw [hFt, modifyInfo_of_ne _ hya]
  · -- the set gains the next object and loses the freed one
    have hqL : q ∉ (s.freeBlocks.erase p).erase q := fun hq' => ((hmemL q).mp hq').1 rfl
    rw [hFb, mem_insertBy_freeBlocksLt _ hqL, hmemL, freeSlot_cons, freeSlot_singleton,
      freeSlot_singleton]
    dsimp only
    rw [← hp, ← hq, show Chunk.extent pre + (c.hole + c.size + d.hole) = q by omega]
    -- the freed object was in the set only when a run came before it
    have : p < q := by omega
    grind
  · have := h.size_le_numBytesAllocated (show c ∈ pre ++ c :: d :: post by simp)
    rw [hFnb']
    simp only [List.map_cons, List.map_nil, List.sum_cons, List.sum_nil, Nat.add_zero]
    rw [kAlignment_eq] at this ⊢
    omega
  · have := h.numObjectsAllocated_eq
    rw [hFno']
    simp only [List.length_append, List.length_cons, List.length_nil] at this ⊢
    omega

/-- `Free` of a live object returns its size and ends in a state that represents the chunks
with that chunk given back. -/
theorem free_eq {pre post : List (Chunk Bool)} {c : Chunk Bool}
    (h : s.Represents (pre ++ c :: post)) :
    ∃ s', s.free ((Chunk.extent pre + c.hole) * kAlignment) = some (c.size * kAlignment, s') ∧
      s'.Represents (Chunk.releaseAt (pre ++ c :: post) pre.length) := by
  cases post with
  | nil =>
    rw [Chunk.releaseAt_append_singleton]
    exact free_last h
  | cons d post =>
    rw [Chunk.releaseAt_append_cons]
    exact free_next h

end Represents

end FreeListSpace

end AndroidArt.Gc
