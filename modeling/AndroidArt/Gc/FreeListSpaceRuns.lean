/-
Module: AndroidArt.Gc.FreeListSpaceRuns
Purpose: The FreeListSpace over whole runs. A client creates the space and then calls `Alloc`,
  `Free` on an object it holds, and `SetAllLargeObjectsAsZygoteObjects`, in any order;
  `Reachable` relates each state it reaches to the objects it holds.
Trusted boundary: none beyond the model's (AndroidArt.Gc.FreeListSpace)
Main exports: FreeListSpace.LiveObject, FreeListSpace.liveObjects, FreeListSpace.Reachable,
  FreeListSpace.Reachable.represents
-/
import Mathlib
import AndroidArt.Gc.FreeListSpaceFree

namespace AndroidArt.Gc

open AndroidArt.Lib AllocationInfo

namespace FreeListSpace

/-- A large object a client holds: its address (from `Begin()`), the bytes `Alloc` reported
for it, and its zygote flag. -/
structure LiveObject where
  obj : Nat
  size : Nat
  zygote : Bool
deriving DecidableEq, Repr

/-- A chunk's object as the client sees it: its page and pages turned into bytes. -/
def LiveObject.ofChunk (o : Nat × Nat × Bool) : LiveObject :=
  ⟨o.1 * kAlignment, o.2.1 * kAlignment, o.2.2⟩

/-- The objects of a chunk list, in address order. -/
def liveObjects (cs : List (Chunk Bool)) : List LiveObject :=
  (Chunk.objects 0 cs).map LiveObject.ofChunk

/-- The states a client reaches from `Create`, with the objects it holds: those `Alloc`
returned, with the bytes it reported and no zygote flag, not given to `Free` since, and flagged
by each `SetAllLargeObjectsAsZygoteObjects`.  `Alloc` asks for at least one byte and at most the
space's capacity; the space is mapped in the low 4 GiB, as `Create` asks of `MapAnonymous`. -/
inductive Reachable : FreeListSpace → List LiveObject → Prop
  | create {capacity : Nat} {s : FreeListSpace} (hcap : capacity < 2 ^ 32)
      (h : FreeListSpace.create capacity = some s) : Reachable s []
  | alloc {s s' : FreeListSpace} {live : List LiveObject} {numBytes obj size : Nat}
      (h : Reachable s live) (hn : 0 < numBytes) (hle : numBytes ≤ s.capacity)
      (ha : s.alloc numBytes = some (obj, size, s')) : Reachable s' (⟨obj, size, false⟩ :: live)
  | free {s s' : FreeListSpace} {live : List LiveObject} {o : LiveObject} {freed : Nat}
      (h : Reachable s live) (ho : o ∈ live) (hf : s.free o.obj = some (freed, s')) :
      Reachable s' (live.erase o)
  | setZygote {s s' : FreeListSpace} {live : List LiveObject}
      (h : Reachable s live) (hz : s.setAllLargeObjectsAsZygoteObjects = some s') :
      Reachable s' (live.map fun o => { o with zygote := true })

/-! ## The held objects of a chunk list under each operation -/

/-- `Alloc` in a free run adds the new object and moves no other. -/
theorem liveObjects_fillAt {pre post : List (Chunk Bool)} {c : Chunk Bool} {k : Nat}
    (hk : k ≤ c.hole) :
    (liveObjects (Chunk.fillAt (pre ++ c :: post) pre.length k false)).Perm
      (⟨Chunk.extent pre * kAlignment, k * kAlignment, false⟩ :: liveObjects (pre ++ c :: post)) := by
  rw [liveObjects, liveObjects, Chunk.objects_fillAt _ _ _ _ _ hk, Chunk.objects_append]
  simp only [List.map_append, List.map_cons, Nat.zero_add]
  exact List.perm_middle

/-- `Alloc` at the end region adds the new object after the others. -/
theorem liveObjects_append_new (cs : List (Chunk Bool)) (k : Nat) :
    (liveObjects (cs ++ [⟨0, k, false⟩])).Perm
      (⟨Chunk.extent cs * kAlignment, k * kAlignment, false⟩ :: liveObjects cs) := by
  rw [liveObjects, liveObjects, Chunk.objects_append]
  simp only [List.map_append, Chunk.objects_cons, Chunk.objects_nil, List.map_cons, List.map_nil,
    Nat.zero_add, Nat.add_zero]
  exact List.perm_append_singleton _ _

theorem bounds_of_mem_objects {base : Nat} {cs : List (Chunk Bool)} {o : Nat × Nat × Bool}
    (h : o ∈ Chunk.objects base cs) : base ≤ o.1 ∧ o.1 + o.2.1 ≤ base + Chunk.extent cs := by
  obtain ⟨c, hpc, ho⟩ := Chunk.mem_objects_iff.mp h
  have := Chunk.bounds_of_mem_placements hpc
  rw [ho]
  dsimp only
  omega

/-- `Free` of a chunk's object removes that object and no other. -/
theorem liveObjects_releaseAt {pre post : List (Chunk Bool)} {c : Chunk Bool} (hc : 0 < c.size) :
    liveObjects (Chunk.releaseAt (pre ++ c :: post) pre.length) =
      (liveObjects (pre ++ c :: post)).erase
        ⟨(Chunk.extent pre + c.hole) * kAlignment, c.size * kAlignment, c.tag⟩ := by
  rw [liveObjects, liveObjects, Chunk.objects_releaseAt, Chunk.objects_append,
    Chunk.objects_cons]
  simp only [List.map_append, List.map_cons, Nat.zero_add]
  -- the objects before the chunk end where its hole starts, so none is the freed one
  have hnot : (⟨(Chunk.extent pre + c.hole) * kAlignment, c.size * kAlignment, c.tag⟩ :
      LiveObject) ∉ (Chunk.objects 0 pre).map LiveObject.ofChunk := by
    intro hmem
    obtain ⟨o, ho, heq⟩ := List.mem_map.mp hmem
    have hb := bounds_of_mem_objects ho
    simp only [LiveObject.ofChunk, LiveObject.mk.injEq] at heq
    have h1 := Nat.eq_of_mul_eq_mul_right kAlignment_pos heq.1
    have h2 := Nat.eq_of_mul_eq_mul_right kAlignment_pos heq.2.1
    omega
  rw [List.erase_append_right _ hnot, show LiveObject.ofChunk (Chunk.extent pre + c.hole, c.size, c.tag)
    = ⟨(Chunk.extent pre + c.hole) * kAlignment, c.size * kAlignment, c.tag⟩ from rfl,
    List.erase_cons_head]

/-- Tagging every chunk flags every object. -/
theorem liveObjects_map_tag (cs : List (Chunk Bool)) :
    liveObjects (cs.map fun c => { c with tag := true }) =
      (liveObjects cs).map fun o => { o with zygote := true } := by
  simp [liveObjects, Chunk.objects_map_tag, LiveObject.ofChunk]

/-- The objects of a chunk list, each with its chunk: a held object is the object of some
chunk, at the page after that chunk's hole. -/
theorem exists_chunk_of_mem_liveObjects {cs : List (Chunk Bool)} {o : LiveObject}
    (ho : o ∈ liveObjects cs) :
    ∃ pre c post, cs = pre ++ c :: post ∧
      o = ⟨(Chunk.extent pre + c.hole) * kAlignment, c.size * kAlignment, c.tag⟩ := by
  obtain ⟨x, hx, rfl⟩ := List.mem_map.mp ho
  obtain ⟨c, hpc, hxc⟩ := Chunk.mem_objects_iff.mp hx
  obtain ⟨pre, post, rfl, hp⟩ := Chunk.mem_placements_iff.mp hpc
  exact ⟨pre, c, post, rfl, by simp only [LiveObject.ofChunk, hp, hxc, Nat.zero_add]⟩

/-- The objects of a chunk list come in address order, each ending before the next starts. -/
theorem liveObjects_pairwise (cs : List (Chunk Bool)) :
    (liveObjects cs).Pairwise fun a b => a.obj + a.size ≤ b.obj := by
  rw [liveObjects, List.pairwise_map]
  refine (Chunk.objects_pairwise 0 cs).imp fun {a b} hab => ?_
  simp only [LiveObject.ofChunk, ← Nat.add_mul]
  exact Nat.mul_le_mul_right _ hab

/-- The bytes of the objects of a chunk list are its chunks' pages. -/
theorem sum_size_liveObjects (cs : List (Chunk Bool)) :
    ((liveObjects cs).map LiveObject.size).sum = (cs.map Chunk.size).sum * kAlignment := by
  have hmap : (liveObjects cs).map LiveObject.size = (cs.map Chunk.size).map (· * kAlignment) := by
    rw [liveObjects, List.map_map, ← Chunk.map_size_objects 0 cs, List.map_map]
    rfl
  rw [hmap, List.sum_map_mul_right, List.map_id']

theorem length_liveObjects (cs : List (Chunk Bool)) : (liveObjects cs).length = cs.length := by
  simp [liveObjects, Chunk.objects]

/-- `Alloc` changes no capacity. -/
theorem capacity_alloc {s s' : FreeListSpace} {numBytes obj size : Nat}
    (ha : s.alloc numBytes = some (obj, size, s')) : s'.capacity = s.capacity := by
  simp only [alloc] at ha
  cases hlb : s.lowerBound (allocProbe (roundUp numBytes kAlignment)) with
  | some info =>
    rw [hlb] at ha
    obtain rfl := congrArg (·.2.2) (Option.some.inj ha)
    exact (fields_takeFreeBlock s _ _).1
  | none =>
    rw [hlb] at ha
    split_ifs at ha
    obtain rfl := congrArg (·.2.2) (Option.some.inj ha)
    rfl

theorem chunkCalls_eq_liveObjects (cs : List (Chunk Bool)) :
    chunkCalls 0 cs = (liveObjects cs).flatMap fun o => [some (o.obj, o.obj + o.size, o.size), none] := by
  simp [chunkCalls, liveObjects, Chunk.objects, List.flatMap_map, LiveObject.ofChunk]

namespace Represents

variable {s : FreeListSpace} {cs : List (Chunk Bool)}

/-- The objects of a represented state are page aligned, of whole pages, and inside the
space. -/
theorem bounds_of_mem_liveObjects (h : s.Represents cs) {o : LiveObject}
    (ho : o ∈ liveObjects cs) :
    o.obj % kAlignment = 0 ∧ 0 < o.size ∧ o.size % kAlignment = 0 ∧ o.obj + o.size ≤ s.capacity := by
  obtain ⟨pre, c, post, rfl, rfl⟩ := exists_chunk_of_mem_liveObjects ho
  have hpos := h.size_pos c (by simp)
  have hfe := h.freeEnd_add
  simp only [Chunk.extent_append, Chunk.extent_cons] at hfe
  refine ⟨Nat.mul_mod_left _ _, Nat.mul_pos hpos kAlignment_pos, Nat.mul_mod_left _ _, ?_⟩
  rw [kAlignment_eq] at hfe ⊢
  dsimp only
  omega

/-- `Alloc` on a represented state: it reports `RoundUp(num_bytes, kAlignment)` bytes, and the
state after represents a chunk list whose objects are the old ones and the new one. -/
theorem alloc_step (h : s.Represents cs) {numBytes obj size : Nat} {s' : FreeListSpace}
    (hn : 0 < numBytes) (hle : numBytes ≤ s.capacity) (ha : s.alloc numBytes = some (obj, size, s')) :
    size = allocPages numBytes * kAlignment ∧ ∃ cs', s'.Represents cs' ∧
      (liveObjects cs').Perm (⟨obj, size, false⟩ :: liveObjects cs) := by
  obtain ⟨hsize, hfill | hend⟩ := h.alloc_eq_some hn hle ha
  · -- in the free run `lower_bound` found
    obtain ⟨pre, c, post, rfl, hkc, -, hobj, hrep'⟩ := hfill
    refine ⟨hsize, _, hrep', ?_⟩
    rw [hobj, hsize]
    exact liveObjects_fillAt hkc
  · -- at the start of the end region
    obtain ⟨-, hobj, hrep'⟩ := hend
    refine ⟨hsize, _, hrep', ?_⟩
    rw [hobj, hsize]
    exact liveObjects_append_new _ _

/-- `AllocationSize` and `IsZygoteLargeObject` of an object of a represented state read back
its bytes and its zygote flag. -/
theorem read_of_mem_liveObjects (h : s.Represents cs) {o : LiveObject} (ho : o ∈ liveObjects cs) :
    s.allocationSize o.obj = o.size ∧ s.isZygoteLargeObject o.obj = o.zygote := by
  obtain ⟨pre, c, post, rfl, rfl⟩ := exists_chunk_of_mem_liveObjects ho
  have hpc : (Chunk.extent pre + c.hole, c) ∈ Chunk.placements 0 (pre ++ c :: post) :=
    Chunk.mem_placements_iff.mpr ⟨pre, post, rfl, by simp⟩
  have hc : ChunkInfo s.allocationInfo (Chunk.extent pre + c.hole) c := h.chunkInfo _ hpc
  simp [allocationSize, isZygoteLargeObject, byteSize, hc.alignSize_eq, hc.isZygoteObject_eq]

/-- `Alloc` on a represented state: the new object is page aligned, inside the space, of
`RoundUp(num_bytes, kAlignment)` bytes, and overlaps none of the state's objects. -/
theorem alloc_disjoint (h : s.Represents cs) {numBytes obj size : Nat} {s' : FreeListSpace}
    (hn : 0 < numBytes) (hle : numBytes ≤ s.capacity) (ha : s.alloc numBytes = some (obj, size, s')) :
    size = roundUp numBytes kAlignment ∧ obj % kAlignment = 0 ∧ obj + size ≤ s.capacity ∧
      ∀ o ∈ liveObjects cs, obj + size ≤ o.obj ∨ o.obj + o.size ≤ obj := by
  obtain ⟨hsize, cs', hrep', hperm'⟩ := h.alloc_step hn hle ha
  have hnew := hrep'.bounds_of_mem_liveObjects (hperm'.symm.subset List.mem_cons_self)
  -- the new object and the old ones are distinct objects of the new list
  have hpair : (⟨obj, size, false⟩ :: liveObjects cs).Pairwise fun a b : LiveObject =>
      a.obj + a.size ≤ b.obj ∨ b.obj + b.size ≤ a.obj :=
    hperm'.pairwise ((liveObjects_pairwise cs').imp Or.inl) fun hab => hab.symm
  refine ⟨hsize, hnew.1, ?_, (List.pairwise_cons.mp hpair).1⟩
  rw [← capacity_alloc ha]
  exact hnew.2.2.2

/-- A page-aligned run of `k` pages inside the space that overlaps no object of a represented
state lies in one free run or in the end region. -/
theorem exists_room_of_window (h : s.Represents cs) {a k : Nat} (ha : a % kAlignment = 0)
    (hbound : a + k * kAlignment ≤ s.capacity)
    (hfree : ∀ o ∈ liveObjects cs, a + k * kAlignment ≤ o.obj ∨ o.obj + o.size ≤ a) :
    (∃ c ∈ cs, k ≤ c.hole) ∨ k * kAlignment ≤ s.freeEnd := by
  obtain ⟨p, rfl⟩ : ∃ p, a = p * kAlignment :=
    ⟨a / kAlignment, (Nat.div_mul_cancel (Nat.dvd_of_mod_eq_zero ha)).symm⟩
  have hfe := h.freeEnd_add
  -- in pages: the run ends before the end of the end region
  have htail : p + k - Chunk.extent cs ≤ s.freeEnd / kAlignment := by
    rw [Nat.le_div_iff_mul_le kAlignment_pos, Nat.sub_mul, Nat.add_mul]
    omega
  have hroom := @Chunk.fits_of_window Bool cs 0 p k (s.freeEnd / kAlignment) (Nat.zero_le _)
    (by omega) fun q c hpc => by
      have hmem : (⟨q * kAlignment, c.size * kAlignment, c.tag⟩ : LiveObject) ∈ liveObjects cs :=
        List.mem_map.mpr ⟨(q, c.size, c.tag), Chunk.mem_objects_iff.mpr ⟨c, hpc, rfl⟩, rfl⟩
      have := hfree _ hmem
      dsimp only at this
      rw [kAlignment_eq] at this
      omega
  exact hroom.imp_right fun hk => (Nat.le_div_iff_mul_le kAlignment_pos).mp hk

end Represents

/-! ## The run invariant -/

/-- Every reachable state represents a chunk list whose objects are the ones the client holds. -/
theorem Reachable.represents {s : FreeListSpace} {live : List LiveObject} (h : Reachable s live) :
    ∃ cs, s.Represents cs ∧ live.Perm (liveObjects cs) := by
  induction h with
  | create hcap hs => exact ⟨[], represents_create hcap hs, by simp [liveObjects]⟩
  | alloc _ hn hle ha ih =>
    obtain ⟨cs, hrep, hperm⟩ := ih
    obtain ⟨-, cs', hrep', hperm'⟩ := hrep.alloc_step hn hle ha
    exact ⟨cs', hrep', (hperm.cons _).trans hperm'.symm⟩
  | free _ ho hf ih =>
    obtain ⟨cs, hrep, hperm⟩ := ih
    obtain ⟨pre, c, post, rfl, rfl⟩ := exists_chunk_of_mem_liveObjects (hperm.subset ho)
    obtain ⟨s'', hfree, hrep''⟩ := hrep.free_eq
    rw [hfree, Option.some.injEq, Prod.mk.injEq] at hf
    obtain ⟨-, rfl⟩ := hf
    refine ⟨_, hrep'', ?_⟩
    rw [liveObjects_releaseAt (hrep.size_pos c (by simp))]
    exact hperm.erase _
  | setZygote _ hz ih =>
    obtain ⟨cs, hrep, hperm⟩ := ih
    obtain ⟨s'', hz', hrep', -⟩ := hrep.setAllLargeObjectsAsZygoteObjects_eq
    rw [hz] at hz'
    obtain rfl := Option.some.inj hz'
    exact ⟨_, hrep', by rw [liveObjects_map_tag]; exact hperm.map _⟩

/-- The space `Create` makes for four pages, and the one a first `Alloc(100)` leaves there. -/
def fourPages : FreeListSpace := (FreeListSpace.create 16384).get rfl

def afterAlloc100 : FreeListSpace := (fourPages.alloc 100 |>.get rfl).2.2

/-- The object that `Alloc(100)` returns: the first page. -/
def firstObject : LiveObject := ⟨0, 4096, false⟩

namespace Reachable

variable {s : FreeListSpace} {live : List LiveObject}

/-- `Free` of an object a client holds succeeds, returns the bytes `Alloc` reported for it, and
the client then holds the others. -/
theorem free_step (h : Reachable s live) {o : LiveObject} (ho : o ∈ live) :
    ∃ s', s.free o.obj = some (o.size, s') ∧ Reachable s' (live.erase o) := by
  obtain ⟨cs, hrep, hperm⟩ := h.represents
  obtain ⟨pre, c, post, rfl, hoc⟩ := exists_chunk_of_mem_liveObjects (hperm.subset ho)
  obtain ⟨s', hfree, -⟩ := hrep.free_eq
  rw [hoc] at ho ⊢
  exact ⟨s', hfree, .free h ho hfree⟩

theorem reachable_alloc_100 : Reachable afterAlloc100 [firstObject] :=
  @Reachable.alloc _ _ _ 100 0 4096
    (@Reachable.create 16384 _ (by decide) (Option.some_get rfl).symm) (by decide) (by decide)
    (Option.some_get rfl).symm

/-- `num_bytes_allocated_` is the total of the bytes `Alloc` reported for the objects a client
holds, and `num_objects_allocated_` their number. -/
theorem counters_eq (h : Reachable s live) :
    s.numBytesAllocated = (live.map LiveObject.size).sum ∧ s.numObjectsAllocated = live.length := by
  obtain ⟨cs, hrep, hperm⟩ := h.represents
  rw [hrep.numBytesAllocated_eq, hrep.numObjectsAllocated_eq, (hperm.map _).sum_eq,
    sum_size_liveObjects, hperm.length_eq, length_liveObjects]
  exact ⟨rfl, rfl⟩

theorem counters_eq_alloc :
    Reachable afterAlloc100 [firstObject] ∧
      afterAlloc100.numBytesAllocated = 4096 ∧
      afterAlloc100.numObjectsAllocated = 1 :=
  ⟨reachable_alloc_100, counters_eq reachable_alloc_100⟩

/-- `Free` of an object a client holds never fails its `CHECK` and returns the bytes `Alloc`
reported for the object. -/
theorem free_eq_size (h : Reachable s live) {o : LiveObject} (ho : o ∈ live) :
    ∃ s', s.free o.obj = some (o.size, s') := by
  obtain ⟨s', hfree, -⟩ := h.free_step ho
  exact ⟨s', hfree⟩

theorem free_eq_size_alloc :
    Reachable afterAlloc100 [firstObject] ∧
      ∃ s', afterAlloc100.free 0 = some (4096, s') :=
  ⟨reachable_alloc_100, by
    simpa only [firstObject] using
      free_eq_size reachable_alloc_100 (List.mem_singleton_self firstObject)⟩

/-- `AllocationSize` of an object a client holds returns the bytes `Alloc` reported for it, and
`IsZygoteLargeObject` whether a `SetAllLargeObjectsAsZygoteObjects` came after its `Alloc`. -/
theorem allocationSize_eq_live (h : Reachable s live) {o : LiveObject} (ho : o ∈ live) :
    s.allocationSize o.obj = o.size ∧ s.isZygoteLargeObject o.obj = o.zygote := by
  obtain ⟨cs, hrep, hperm⟩ := h.represents
  exact hrep.read_of_mem_liveObjects (hperm.subset ho)

theorem allocationSize_eq_live_alloc :
    Reachable afterAlloc100 [firstObject] ∧
      afterAlloc100.allocationSize 0 = 4096 ∧
      afterAlloc100.isZygoteLargeObject 0 = false :=
  ⟨reachable_alloc_100, by
    simpa only [firstObject] using
      allocationSize_eq_live reachable_alloc_100 (List.mem_singleton_self firstObject)⟩

/-- `Alloc` on a reachable state reports `RoundUp(num_bytes, kAlignment)` bytes at a page-aligned
address inside the space, and the new object overlaps no object the client holds. -/
theorem alloc_fresh (h : Reachable s live) {numBytes obj size : Nat} {s' : FreeListSpace}
    (hn : 0 < numBytes) (hle : numBytes ≤ s.capacity) (ha : s.alloc numBytes = some (obj, size, s')) :
    size = roundUp numBytes kAlignment ∧ obj % kAlignment = 0 ∧ obj + size ≤ s.capacity ∧
      ∀ o ∈ live, obj + size ≤ o.obj ∨ o.obj + o.size ≤ obj := by
  obtain ⟨cs, hrep, hperm⟩ := h.represents
  obtain ⟨hsize, halign, hbound, hdis⟩ := hrep.alloc_disjoint hn hle ha
  exact ⟨hsize, halign, hbound, fun o ho => hdis o (hperm.subset ho)⟩

/-- A second `Alloc`, of 5000 bytes, takes two pages after the first object. -/
theorem alloc_fresh_second :
    Reachable afterAlloc100 [firstObject] ∧
      afterAlloc100.alloc 5000 = some (4096, 8192, (afterAlloc100.alloc 5000 |>.get rfl).2.2) ∧
      8192 = roundUp 5000 kAlignment ∧ 4096 % kAlignment = 0 ∧ 4096 + 8192 ≤ 16384 ∧
      ∀ o ∈ [firstObject], 4096 + 8192 ≤ o.obj ∨ o.obj + o.size ≤ 4096 :=
  ⟨reachable_alloc_100, (Option.some_get rfl).symm,
    alloc_fresh reachable_alloc_100 (by decide) (by decide) (Option.some_get rfl).symm⟩

/-- `Alloc` returns `nullptr` exactly when there is no room: every page-aligned run of
`RoundUp(num_bytes, kAlignment)` bytes inside the space overlaps an object a client holds. -/
theorem alloc_eq_none_iff_no_room (h : Reachable s live) {numBytes : Nat} (hn : 0 < numBytes)
    (hle : numBytes ≤ s.capacity) :
    s.alloc numBytes = none ↔ ∀ a, a % kAlignment = 0 → a + roundUp numBytes kAlignment ≤ s.capacity →
      ∃ o ∈ live, a < o.obj + o.size ∧ o.obj < a + roundUp numBytes kAlignment := by
  obtain ⟨cs, hrep, hperm⟩ := h.represents
  constructor
  · -- no free run and not the end region has the pages, so no free window has them
    intro hnone a ha hbound
    obtain ⟨hholes, hend⟩ := (hrep.alloc_eq_none_iff hn hle).mp hnone
    rw [roundUp_eq_allocPages] at hbound ⊢
    by_contra hno
    simp only [not_exists, not_and, not_lt] at hno
    rcases hrep.exists_room_of_window ha hbound fun o ho => by
        have := hno o (hperm.symm.subset ho)
        omega with ⟨c, hc, hk⟩ | hk
    · exact absurd (hholes c hc) (by omega)
    · omega
  · -- an object `Alloc` returned would be such a window
    intro hroom
    by_contra hsome
    obtain ⟨⟨obj, size, s'⟩, ha⟩ := Option.ne_none_iff_exists'.mp hsome
    obtain ⟨rfl, halign, hbound, hdis⟩ := hrep.alloc_disjoint hn hle ha
    obtain ⟨o, ho, h1, h2⟩ := hroom obj halign hbound
    rcases hdis o (hperm.subset ho) with h3 | h3 <;> omega

/-- Three pages are left after the first object, so an `Alloc` of four pages gets `nullptr`. -/
theorem alloc_eq_none_iff_no_room_full :
    Reachable afterAlloc100 [firstObject] ∧ 0 < 16384 ∧ 16384 ≤ afterAlloc100.capacity ∧
      (afterAlloc100.alloc 16384 = none ↔ ∀ a, a % kAlignment = 0 →
        a + roundUp 16384 kAlignment ≤ afterAlloc100.capacity →
        ∃ o ∈ [firstObject], a < o.obj + o.size ∧ o.obj < a + roundUp 16384 kAlignment) :=
  ⟨reachable_alloc_100, by decide, by decide,
    alloc_eq_none_iff_no_room reachable_alloc_100 (by decide) (by decide)⟩

/-- `SetAllLargeObjectsAsZygoteObjects` on a reachable state ends; afterwards every object a
client holds is a zygote object of the same size, and the free runs and the end region are as
they were. -/
theorem setAllLargeObjectsAsZygoteObjects_live (h : Reachable s live) :
    ∃ s', s.setAllLargeObjectsAsZygoteObjects = some s' ∧ s'.freeBlocks = s.freeBlocks ∧
      s'.freeEnd = s.freeEnd ∧
      ∀ o ∈ live, s'.allocationSize o.obj = o.size ∧ s'.isZygoteLargeObject o.obj = true := by
  obtain ⟨cs, hrep, hperm⟩ := h.represents
  obtain ⟨s', hz, hrep', hb, he⟩ := hrep.setAllLargeObjectsAsZygoteObjects_eq
  refine ⟨s', hz, hb, he, fun o ho => ?_⟩
  have hmem : { o with zygote := true } ∈ liveObjects (cs.map fun c => { c with tag := true }) := by
    rw [liveObjects_map_tag]
    exact List.mem_map_of_mem (hperm.subset ho)
  exact hrep'.read_of_mem_liveObjects hmem

theorem setAllLargeObjectsAsZygoteObjects_live_alloc :
    Reachable afterAlloc100 [firstObject] ∧
      ∃ s', afterAlloc100.setAllLargeObjectsAsZygoteObjects = some s' ∧
        s'.freeBlocks = afterAlloc100.freeBlocks ∧ s'.freeEnd = afterAlloc100.freeEnd ∧
        ∀ o ∈ [firstObject], s'.allocationSize o.obj = o.size ∧ s'.isZygoteLargeObject o.obj = true :=
  ⟨reachable_alloc_100, setAllLargeObjectsAsZygoteObjects_live reachable_alloc_100⟩

end Reachable

end FreeListSpace

end AndroidArt.Gc
