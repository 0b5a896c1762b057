/-
Module: AndroidArt.Gc.FreeListSpaceLayout
Purpose: The allocation info table and the free-block set of a FreeListSpace read as a list of
  chunks (AndroidArt.Lib.ChunkLayout): each live large object with the free run before it, laid
  out from page 0, and after them the end region.
Trusted boundary: none beyond the model's (AndroidArt.Gc.FreeListSpace)
Main exports: FreeListSpace.ChunkInfo, FreeListSpace.Represents, FreeListSpace.FreeSlot,
  FreeListSpace.Represents.splice
-/
import Mathlib
import AndroidArt.Lib.ChunkLayout
import AndroidArt.Gc.FreeListSpace

namespace AndroidArt.Gc

open AndroidArt.Lib AllocationInfo

namespace FreeListSpace

theorem kAlignment_eq : kAlignment = 4096 := rfl

/-- What the table holds for a chunk whose object starts at slot `p`: the object's info
(allocated, its size in pages, the pages of the free run before it, its zygote flag) and, when
the chunk has a hole, the info of the free run at the run's first slot. -/
structure ChunkInfo (t : Nat → AllocationInfo) (p : Nat) (c : Chunk Bool) : Prop where
  alignSize_eq : (t p).alignSize = c.size
  isFree_eq : (t p).isFree = false
  getPrevFree_eq : (t p).getPrevFree = c.hole
  isZygoteObject_eq : (t p).isZygoteObject = c.tag
  hole_alignSize : 0 < c.hole → (t (p - c.hole)).alignSize = c.hole
  hole_isFree : 0 < c.hole → (t (p - c.hole)).isFree = true
  hole_getPrevFree : 0 < c.hole → (t (p - c.hole)).getPrevFree = 0

/-- The object at `slot` follows a free run, in the chunks laid out from `base`. -/
def FreeSlot (base : Nat) (cs : List (Chunk Bool)) (slot : Nat) : Prop :=
  ∃ c, (slot, c) ∈ Chunk.placements base cs ∧ 0 < c.hole

/-- `s` holds the chunks `cs` laid out from slot 0, with the end region after them. -/
structure Represents (s : FreeListSpace) (cs : List (Chunk Bool)) : Prop where
  /-- The space is mapped in the low 4 GiB. -/
  capacity_lt : s.capacity < 2 ^ 32
  /-- The chunks and then the end region tile the space. -/
  freeEnd_add : s.freeEnd + Chunk.extent cs * kAlignment = s.capacity
  size_pos : ∀ c ∈ cs, 0 < c.size
  chunkInfo : ∀ pc ∈ Chunk.placements 0 cs, ChunkInfo s.allocationInfo pc.1 pc.2
  /-- `free_blocks_` is in `SortByPrevFree` order on the current table. -/
  sorted : s.freeBlocks.Pairwise fun a b => s.freeBlocksLt a b = true
  /-- `free_blocks_` holds exactly the objects that follow a free run. -/
  mem_freeBlocks : ∀ slot, slot ∈ s.freeBlocks ↔ FreeSlot 0 cs slot
  numBytesAllocated_eq : s.numBytesAllocated = (cs.map Chunk.size).sum * kAlignment
  numObjectsAllocated_eq : s.numObjectsAllocated = cs.length

/-! ## Reading a represented state -/

/-- A chunk's infos survive writes to slots other than its own two. -/
theorem ChunkInfo.frame {t t' : Nat → AllocationInfo} {p : Nat} {c : Chunk Bool}
    (h : ChunkInfo t p c) (hp : t' p = t p)
    (hhole : 0 < c.hole → t' (p - c.hole) = t (p - c.hole)) : ChunkInfo t' p c where
  alignSize_eq := hp ▸ h.alignSize_eq
  isFree_eq := hp ▸ h.isFree_eq
  getPrevFree_eq := hp ▸ h.getPrevFree_eq
  isZygoteObject_eq := hp ▸ h.isZygoteObject_eq
  hole_alignSize hc := (hhole hc) ▸ h.hole_alignSize hc
  hole_isFree hc := (hhole hc) ▸ h.hole_isFree hc
  hole_getPrevFree hc := (hhole hc) ▸ h.hole_getPrevFree hc

/-- A chunk given a hole of `h` pages: its object's info records the new run, and the run's
first info is free, `h` pages long and follows no run. -/
theorem ChunkInfo.rehole {t t' : Nat → AllocationInfo} {p h : Nat} {c : Chunk Bool}
    (hc : ChunkInfo t p c) (hh : h < 2 ^ 30)
    (hp : t' p = (t p).setPrevFreeBytes (h * kAlignment))
    (hstart : 0 < h → ∃ x : AllocationInfo, x.getPrevFree = 0 ∧
      t' (p - h) = x.setByteSize (h * kAlignment) true) :
    ChunkInfo t' p { c with hole := h } where
  alignSize_eq := by rw [hp, alignSize_setPrevFreeBytes, hc.alignSize_eq]
  isFree_eq := by rw [hp, isFree_setPrevFreeBytes, hc.isFree_eq]
  getPrevFree_eq := by rw [hp, getPrevFree_setPrevFreeBytes (by omega)]
  isZygoteObject_eq := by rw [hp, isZygoteObject_setPrevFreeBytes, hc.isZygoteObject_eq]
  hole_alignSize hpos := by
    obtain ⟨x, -, hx⟩ := hstart hpos
    rw [hx, alignSize_setByteSize hh]
  hole_isFree hpos := by
    obtain ⟨x, -, hx⟩ := hstart hpos
    rw [hx, isFree_setByteSize hh]
  hole_getPrevFree hpos := by
    obtain ⟨x, hx0, hx⟩ := hstart hpos
    rw [hx, getPrevFree_setByteSize, hx0]

namespace Represents

variable {s : FreeListSpace} {cs : List (Chunk Bool)}

theorem extent_lt (h : s.Represents cs) : Chunk.extent cs < 2 ^ 20 := by
  have := h.freeEnd_add
  have := h.capacity_lt
  rw [kAlignment_eq] at *
  omega

/-- Every placed chunk ends inside the chunks' extent, which is below `2^20` pages. -/
theorem lt_of_mem {p : Nat} {c : Chunk Bool} (h : s.Represents cs)
    (hpc : (p, c) ∈ Chunk.placements 0 cs) :
    c.hole ≤ p ∧ p + c.size ≤ Chunk.extent cs ∧ Chunk.extent cs < 2 ^ 20 := by
  have hb := Chunk.bounds_of_mem_placements hpc
  exact ⟨by omega, by omega, h.extent_lt⟩

theorem nodup (h : s.Represents cs) : s.freeBlocks.Nodup :=
  h.sorted.imp fun {a b} hab heq => by
    subst heq
    simp [OrderedSet.lt_irrefl_bool s.freeBlocksLt] at hab

/-- The key `SortByPrevFree` reads of an object is its hole, its size and its slot. -/
theorem sortKey_eq {p : Nat} {c : Chunk Bool} (h : s.Represents cs)
    (hpc : (p, c) ∈ Chunk.placements 0 cs) : s.sortKey p = (c.hole, c.size, p) := by
  have hc := h.chunkInfo _ hpc
  simp only [sortKey, hc.getPrevFree_eq, hc.alignSize_eq]

theorem endInfo_eq (h : s.Represents cs) : s.endInfo = Chunk.extent cs := by
  have := h.freeEnd_add
  rw [endInfo, getSlotIndexForAddress, show s.capacity - s.freeEnd = Chunk.extent cs * kAlignment
    by omega, Nat.mul_div_cancel _ kAlignment_pos]

end Represents

/-! ## Replacing the chunks between two others

Every operation rewrites the chunks of one stretch of the list and the table slots of that
stretch only; `Represents.splice` carries the rest of the list over. -/

section Splice

variable {pre mid mid' post : List (Chunk Bool)}

theorem freeSlot_append {base : Nat} {cs ds : List (Chunk Bool)} {slot : Nat} :
    FreeSlot base (cs ++ ds) slot ↔
      FreeSlot base cs slot ∨ FreeSlot (base + Chunk.extent cs) ds slot := by
  simp only [FreeSlot, Chunk.placements_append, List.mem_append, or_and_right, exists_or]

@[simp] theorem not_freeSlot_nil (base slot : Nat) : ¬FreeSlot base [] slot :=
  fun ⟨_, hx, _⟩ => by simp at hx

theorem mem_of_mem_placements {base p : Nat} {c : Chunk Bool} {cs : List (Chunk Bool)}
    (h : (p, c) ∈ Chunk.placements base cs) : c ∈ cs := by
  obtain ⟨pre, post, rfl, -⟩ := Chunk.mem_placements_iff.mp h
  exact List.mem_append_right _ List.mem_cons_self

/-- A slot of an object in `cs` lies in `[base, base + extent cs)`. -/
theorem bounds_of_freeSlot {base : Nat} {cs : List (Chunk Bool)} {slot : Nat}
    (hsize : ∀ c ∈ cs, 0 < c.size) (h : FreeSlot base cs slot) :
    base ≤ slot ∧ slot < base + Chunk.extent cs := by
  obtain ⟨c, hpc, -⟩ := h
  have hb := Chunk.bounds_of_mem_placements hpc
  have := hsize c (mem_of_mem_placements hpc)
  omega

/-- The objects following a free run in the spliced list: those of `pre` and `post`, and those
of the new middle. -/
theorem freeSlot_splice_iff (hsize : ∀ c ∈ pre ++ mid ++ post, 0 < c.size)
    (hpost : post = [] ∨ Chunk.extent mid' = Chunk.extent mid) (slot : Nat) :
    FreeSlot 0 (pre ++ mid' ++ post) slot ↔
      (FreeSlot 0 (pre ++ mid ++ post) slot ∧ ¬FreeSlot (Chunk.extent pre) mid slot) ∨
        FreeSlot (Chunk.extent pre) mid' slot := by
  have hpre : ∀ c ∈ pre, 0 < c.size := fun c hc => hsize c (by simp [hc])
  have hmid : ∀ c ∈ mid, 0 < c.size := fun c hc => hsize c (by simp [hc])
  -- the slots of `pre`, of the middle and of `post` lie apart
  have hpm : FreeSlot 0 pre slot → ¬FreeSlot (Chunk.extent pre) mid slot := fun hp hm => by
    have := bounds_of_freeSlot hpre hp
    have := bounds_of_freeSlot hmid hm
    omega
  have hqm : FreeSlot (Chunk.extent pre + Chunk.extent mid) post slot →
      ¬FreeSlot (Chunk.extent pre) mid slot := fun ⟨_, hpc, _⟩ hm => by
    have := (Chunk.bounds_of_mem_placements hpc).1
    have := bounds_of_freeSlot hmid hm
    omega
  simp only [List.append_assoc, freeSlot_append, Nat.zero_add]
  rcases hpost with rfl | hext
  · simp only [not_freeSlot_nil, or_false]
    tauto
  · rw [hext]
    tauto

/-- The chunks of `pre` and `post` keep their infos when the table changes only in the slots
`[extent pre, extent pre + extent mid)` of the middle or past the last chunk, and new chunks of
the same extent replace the middle (or nothing follows it). -/
theorem chunkInfo_splice {t t' : Nat → AllocationInfo}
    (hsize : ∀ c ∈ pre ++ mid ++ post, 0 < c.size)
    (hold : ∀ pc ∈ Chunk.placements 0 (pre ++ mid ++ post), ChunkInfo t pc.1 pc.2)
    (hagree : ∀ x, x < Chunk.extent pre ∨ (Chunk.extent pre + Chunk.extent mid ≤ x ∧
      x < Chunk.extent pre + Chunk.extent mid + Chunk.extent post) → t' x = t x)
    (hpost : post = [] ∨ Chunk.extent mid' = Chunk.extent mid)
    (hmid : ∀ pc ∈ Chunk.placements (Chunk.extent pre) mid', ChunkInfo t' pc.1 pc.2) :
    ∀ pc ∈ Chunk.placements 0 (pre ++ mid' ++ post), ChunkInfo t' pc.1 pc.2 := by
  simp only [List.append_assoc, Chunk.placements_append, Nat.zero_add, List.mem_append] at hold ⊢
  rintro ⟨p, c⟩ (hpc | hpc | hpc)
  · -- a chunk of `pre` lies below the middle
    have hb := Chunk.bounds_of_mem_placements hpc
    have hc := hsize c (by simp [mem_of_mem_placements hpc])
    simp only [Nat.zero_add] at hb
    exact (hold _ (Or.inl hpc)).frame (hagree _ (Or.inl (by omega)))
      fun _ => hagree _ (Or.inl (by dsimp only; omega))
  · exact hmid _ hpc
  · -- a chunk of `post` lies above the middle, where it was before
    rcases hpost with rfl | hext
    · simp at hpc
    · rw [hext] at hpc
      have hb := Chunk.bounds_of_mem_placements hpc
      have hc := hsize c (by simp [mem_of_mem_placements hpc])
      exact (hold _ (Or.inr (Or.inr hpc))).frame (hagree _ (Or.inr (by dsimp only; omega)))
        fun _ => hagree _ (Or.inr (by dsimp only; omega))

/-- A represented state, rewritten in the slots of a middle stretch of its chunks: it represents
the list with the new middle when the new middle's infos, the end region, the set and the
counters are those of the new list. -/
theorem Represents.splice {s s' : FreeListSpace} (h : s.Represents (pre ++ mid ++ post))
    (hcap : s'.capacity = s.capacity)
    (hfreeEnd : s'.freeEnd + Chunk.extent mid' * kAlignment =
      s.freeEnd + Chunk.extent mid * kAlignment)
    (hpost : post = [] ∨ Chunk.extent mid' = Chunk.extent mid)
    (hsize : ∀ c ∈ mid', 0 < c.size)
    (hagree : ∀ x, x < Chunk.extent pre ∨ (Chunk.extent pre + Chunk.extent mid ≤ x ∧
      x < Chunk.extent pre + Chunk.extent mid + Chunk.extent post) →
      s'.allocationInfo x = s.allocationInfo x)
    (hmid : ∀ pc ∈ Chunk.placements (Chunk.extent pre) mid', ChunkInfo s'.allocationInfo pc.1 pc.2)
    (hsorted : s'.freeBlocks.Pairwise fun a b => s'.freeBlocksLt a b = true)
    (hmem : ∀ slot, slot ∈ s'.freeBlocks ↔
      (slot ∈ s.freeBlocks ∧ ¬FreeSlot (Chunk.extent pre) mid slot) ∨
        FreeSlot (Chunk.extent pre) mid' slot)
    (hbytes : s'.numBytesAllocated + (mid.map Chunk.size).sum * kAlignment =
      s.numBytesAllocated + (mid'.map Chunk.size).sum * kAlignment)
    (hobjects : s'.numObjectsAllocated + mid.length = s.numObjectsAllocated + mid'.length) :
    s'.Represents (pre ++ mid' ++ post) where
  capacity_lt := hcap ▸ h.capacity_lt
  freeEnd_add := by
    have := h.freeEnd_add
    simp only [List.append_assoc, Chunk.extent_append] at this ⊢
    rw [hcap, ← this]
    simp only [Nat.add_mul] at hfreeEnd ⊢
    omega
  size_pos c hc := by
    simp only [List.append_assoc, List.mem_append] at hc
    rcases hc with hc | hc | hc
    · exact h.size_pos c (by simp [hc])
    · exact hsize c hc
    · exact h.size_pos c (by simp [hc])
  chunkInfo := chunkInfo_splice h.size_pos h.chunkInfo hagree hpost hmid
  sorted := hsorted
  mem_freeBlocks slot := by
    rw [hmem, freeSlot_splice_iff h.size_pos hpost, h.mem_freeBlocks]
  numBytesAllocated_eq := by
    have := h.numBytesAllocated_eq
    simp only [List.append_assoc, List.map_append, List.sum_append, Nat.add_mul] at this ⊢
    omega
  numObjectsAllocated_eq := by
    have := h.numObjectsAllocated_eq
    simp only [List.append_assoc, List.length_append] at this ⊢
    omega

end Splice

/-! ## Walk -/

/-- The callback calls for the objects of chunks laid out from `base`: each object's bytes,
then the null call. -/
def chunkCalls (base : Nat) (cs : List (Chunk Bool)) : List WalkCall :=
  (Chunk.placements base cs).flatMap fun pc =>
    [some (pc.1 * kAlignment, pc.1 * kAlignment + pc.2.size * kAlignment,
      pc.2.size * kAlignment), none]

/-- From the first slot of a stretch of chunks, `Walk`'s loop passes the hole's info (free, so
no call) and the object's, then goes on after the chunk; given fuel for every info it stops
where the chunks end. -/
theorem walkLoop_eq {t : Nat → AllocationInfo} {endInfo : Nat} (cs : List (Chunk Bool))
    (base fuel : Nat) (hend : base + Chunk.extent cs = endInfo) (hsize : ∀ c ∈ cs, 0 < c.size)
    (hinfo : ∀ pc ∈ Chunk.placements base cs, ChunkInfo t pc.1 pc.2)
    (hfuel : Chunk.extent cs < fuel) :
    walkLoop t endInfo fuel base = some (endInfo, chunkCalls base cs) := by
  induction cs generalizing base fuel with
  | nil =>
    obtain ⟨fuel, rfl⟩ : ∃ f, fuel = f + 1 := ⟨fuel - 1, by simp at hfuel; omega⟩
    simp only [Chunk.extent_nil, Nat.add_zero] at hend
    simp [walkLoop, hend, chunkCalls]
  | cons c cs ih =>
    have hc := hinfo _ List.mem_cons_self
    have hpos := hsize c List.mem_cons_self
    simp only [Chunk.extent_cons] at hend hfuel
    -- the object's own info: one call, then on to the next chunk
    have hobject : ∀ f, c.size + Chunk.extent cs < f →
        walkLoop t endInfo f (base + c.hole) = some (endInfo, chunkCalls base (c :: cs)) := by
      intro f hf
      obtain ⟨f, rfl⟩ : ∃ g, f = g + 1 := ⟨f - 1, by omega⟩
      have hrest := ih (base + c.hole + c.size) f (by omega)
        (fun d hd => hsize d (List.mem_cons_of_mem _ hd))
        (fun pc hpc => hinfo pc (by simp [hpc])) (by omega)
      rw [walkLoop, if_pos (by omega), hc.isFree_eq, hc.alignSize_eq, hrest]
      simp [chunkCalls, byteSize, hc.alignSize_eq, getAllocationAddressForSlot]
    by_cases hhole : 0 < c.hole
    · -- the free run's info first: no call
      obtain ⟨f, rfl⟩ : ∃ f, fuel = f + 1 := ⟨fuel - 1, by omega⟩
      have hfree := hc.hole_isFree hhole
      have hsz := hc.hole_alignSize hhole
      rw [Nat.add_sub_cancel] at hfree hsz
      rw [walkLoop, if_pos (by omega), hfree, hsz]
      simpa using hobject f (by omega)
    · simpa [show c.hole = 0 by omega] using hobject fuel (by omega)

/-- `Walk` on a represented state reports every object, in address order, with its size. -/
theorem Represents.walk_eq {s : FreeListSpace} {cs : List (Chunk Bool)} (h : s.Represents cs) :
    s.walk = some (chunkCalls 0 cs) := by
  rw [walk, walkLoop_eq cs 0 _ (by rw [h.endInfo_eq]; simp) h.size_pos h.chunkInfo
    (by rw [h.endInfo_eq]; omega)]
  simp

/-! ## The zygote flag -/

/-- The loop of `SetAllLargeObjectsAsZygoteObjects` over a stretch of chunks ends, having set
the zygote flag of each object and left every other info as it was. -/
theorem setZygoteLoop_eq {endInfo : Nat} (cs : List (Chunk Bool)) (base fuel : Nat)
    (t : Nat → AllocationInfo) (hend : base + Chunk.extent cs = endInfo)
    (hsize : ∀ c ∈ cs, 0 < c.size) (hinfo : ∀ pc ∈ Chunk.placements base cs, ChunkInfo t pc.1 pc.2)
    (hfuel : Chunk.extent cs < fuel) :
    ∃ t', setZygoteLoop endInfo fuel base t = some t' ∧
      (∀ x, (t' x).getPrevFree = (t x).getPrevFree ∧ (t' x).alignSize = (t x).alignSize ∧
        (t' x).isFree = (t x).isFree) ∧
      (∀ x, (x < base ∨ endInfo ≤ x) → t' x = t x) ∧
      ∀ pc ∈ Chunk.placements base cs, (t' pc.1).isZygoteObject = true := by
  induction cs generalizing base fuel t with
  | nil =>
    obtain ⟨fuel, rfl⟩ : ∃ f, fuel = f + 1 := ⟨fuel - 1, by simp at hfuel; omega⟩
    simp only [Chunk.extent_nil, Nat.add_zero] at hend
    exact ⟨t, by simp [setZygoteLoop, hend], fun _ => ⟨rfl, rfl, rfl⟩, fun _ _ => rfl, by simp⟩
  | cons c cs ih =>
    have hc := hinfo _ List.mem_cons_self
    have hpos := hsize c List.mem_cons_self
    simp only [Chunk.extent_cons] at hend hfuel
    -- from the object's info: its flag is set, then the loop goes on after the chunk
    have hobject : ∀ f, c.size + Chunk.extent cs < f →
        ∃ t', setZygoteLoop endInfo f (base + c.hole) t = some t' ∧
          (∀ x, (t' x).getPrevFree = (t x).getPrevFree ∧ (t' x).alignSize = (t x).alignSize ∧
            (t' x).isFree = (t x).isFree) ∧
          (∀ x, (x < base + c.hole ∨ endInfo ≤ x) → t' x = t x) ∧
          ∀ pc ∈ Chunk.placements base (c :: cs), (t' pc.1).isZygoteObject = true := by
      intro f hf
      obtain ⟨f, rfl⟩ : ∃ g, f = g + 1 := ⟨f - 1, by omega⟩
      have hrest := ih (base + c.hole + c.size) f
        (Function.update t (base + c.hole) (t (base + c.hole)).setZygoteObject) (by omega)
        (fun d hd => hsize d (List.mem_cons_of_mem _ hd))
        (fun pc hpc => by
          have hb := (Chunk.bounds_of_mem_placements hpc).1
          exact (hinfo pc (by simp [hpc])).frame (Function.update_of_ne (by omega) _ _)
            fun _ => Function.update_of_ne (by omega) _ _)
        (by omega)
      obtain ⟨t', hloop, hany, hout, hzyg⟩ := hrest
      refine ⟨t', ?_, fun x => ?_, fun x hx => ?_, ?_⟩
      · rw [setZygoteLoop, if_pos (by omega)]
        simp only [hc.isFree_eq, Bool.not_false, if_true, Function.update_self,
          alignSize_setZygoteObject, hc.alignSize_eq]
        exact hloop
      · -- the flag moves no key
        by_cases hxp : x = base + c.hole
        · simpa [hxp] using hany x
        · simpa [Function.update_of_ne hxp] using hany x
      · rw [hout x (by omega), Function.update_of_ne (by omega)]
      · intro pc hpc
        simp only [Chunk.placements_cons, List.mem_cons] at hpc
        rcases hpc with rfl | hpc
        · rw [hout _ (by omega), Function.update_self, isZygoteObject_setZygoteObject]
        · exact hzyg pc hpc
    by_cases hhole : 0 < c.hole
    · -- the free run's info first: it is skipped
      obtain ⟨f, rfl⟩ : ∃ f, fuel = f + 1 := ⟨fuel - 1, by omega⟩
      obtain ⟨t', hloop, hany, hout, hzyg⟩ := hobject f (by omega)
      refine ⟨t', ?_, hany, fun x hx => hout x (by omega), hzyg⟩
      have hfree := hc.hole_isFree hhole
      have hsz := hc.hole_alignSize hhole
      rw [Nat.add_sub_cancel] at hfree hsz
      rw [setZygoteLoop, if_pos (by omega)]
      simp only [hfree, Bool.not_true, Bool.false_eq_true, if_false, hsz]
      exact hloop
    · have h0 : c.hole = 0 := by omega
      obtain ⟨t', hloop, hany, hout, hzyg⟩ := hobject fuel (by omega)
      exact ⟨t', by simpa [h0] using hloop, hany, fun x hx => hout x (by omega), hzyg⟩

/-- Tagging every chunk: holes and sizes stay, so the placements do. -/
theorem placements_map_tag (base : Nat) (cs : List (Chunk Bool)) (b : Bool) :
    Chunk.placements base (cs.map fun c => { c with tag := b }) =
      (Chunk.placements base cs).map fun pc => (pc.1, { pc.2 with tag := b }) := by
  induction cs generalizing base with
  | nil => rfl
  | cons c cs ih => simp [ih]

theorem extent_map_tag (cs : List (Chunk Bool)) (b : Bool) :
    Chunk.extent (cs.map fun c => { c with tag := b }) = Chunk.extent cs := by
  induction cs with
  | nil => rfl
  | cons c cs ih => simp [ih]

/-- `SetAllLargeObjectsAsZygoteObjects` on a represented state ends, and represents the same
chunks with every object a zygote object. -/
theorem Represents.setAllLargeObjectsAsZygoteObjects_eq {s : FreeListSpace}
    {cs : List (Chunk Bool)} (h : s.Represents cs) :
    ∃ s', s.setAllLargeObjectsAsZygoteObjects = some s' ∧
      s'.Represents (cs.map fun c => { c with tag := true }) ∧
      s'.freeBlocks = s.freeBlocks ∧ s'.freeEnd = s.freeEnd := by
  obtain ⟨t', hloop, hkey, -, hzyg⟩ := @setZygoteLoop_eq s.endInfo cs 0 (s.endInfo + 1)
    s.allocationInfo (by rw [h.endInfo_eq]; simp) h.size_pos h.chunkInfo (by rw [h.endInfo_eq]; omega)
  refine ⟨{ s with allocationInfo := t' }, by simp [setAllLargeObjectsAsZygoteObjects, hloop],
    ?_, rfl, rfl⟩
  refine ⟨h.capacity_lt, by simpa [extent_map_tag] using h.freeEnd_add, ?_, ?_, ?_, ?_, ?_, ?_⟩
  · intro c hc
    obtain ⟨d, hd, rfl⟩ := List.mem_map.mp hc
    exact h.size_pos d hd
  · rw [placements_map_tag]
    rintro _ hpc'
    obtain ⟨⟨p, c⟩, hpc, rfl⟩ := List.mem_map.mp hpc'
    have hc := h.chunkInfo _ hpc
    exact { alignSize_eq := (hkey p).2.1.trans hc.alignSize_eq
            isFree_eq := (hkey p).2.2.trans hc.isFree_eq
            getPrevFree_eq := (hkey p).1.trans hc.getPrevFree_eq
            isZygoteObject_eq := hzyg (p, c) hpc
            hole_alignSize := fun hh => (hkey _).2.1.trans (hc.hole_alignSize hh)
            hole_isFree := fun hh => (hkey _).2.2.trans (hc.hole_isFree hh)
            hole_getPrevFree := fun hh => (hkey _).1.trans (hc.hole_getPrevFree hh) }
  · refine pairwise_freeBlocksLt_of_sortKey h.sorted fun x _ => ?_
    simp [sortKey, (hkey x).1, (hkey x).2.1]
  · intro slot
    rw [h.mem_freeBlocks]
    simp only [FreeSlot, placements_map_tag, List.mem_map, Prod.mk.injEq]
    constructor
    · rintro ⟨c, hpc, hhole⟩
      exact ⟨_, ⟨(slot, c), hpc, rfl, rfl⟩, hhole⟩
    · rintro ⟨_, ⟨⟨p, c⟩, hpc, rfl, rfl⟩, hhole⟩
      exact ⟨c, hpc, hhole⟩
  · simpa [Function.comp_def] using h.numBytesAllocated_eq
  · simpa using h.numObjectsAllocated_eq

/-! ## Create -/

/-- A space created with a capacity of whole pages in the low 4 GiB holds no chunk. -/
theorem represents_create {capacity : Nat} {s : FreeListSpace} (hcap : capacity < 2 ^ 32)
    (h : create capacity = some s) : s.Represents [] := by
  unfold create at h
  split at h
  · obtain rfl := Option.some.inj h
    refine ⟨hcap, by simp, by simp, by simp, List.Pairwise.nil, ?_, by simp, by simp⟩
    intro slot
    simp [FreeSlot]
  · cases h

end FreeListSpace

end AndroidArt.Gc
