/-
Module: AndroidArt.Base.ArenaAllocator
Purpose: libartbase/base/arena_allocator.{h,cc} without a memory tool: the bump pointer `ptr_` in
  the current arena `[begin_, end_)`, `Alloc`, `AllocAlign16`, `Realloc` and `AllocFromNewArena`,
  over an `ArenaPool` given as a function of its state and the requested size.
Trusted boundary: addresses are natural numbers and `uintptr_t` arithmetic is taken modulo 2^64;
  `ArenaAllocatorStats` records nothing the allocator reads and the bytes of the arenas are not
  modelled. `kArenaDefaultSize` is the one of a build without precise tracking.
Main exports: Arena, ArenaAllocator, alloc, allocAlign16
-/
import AndroidArt.Base.BitMemoryRegion

namespace AndroidArt.Base

/-- `ArenaAllocator::kAlignment`, the alignment of every allocation. -/
def kAlignment : Nat := 8

/-- `arena_allocator::kArenaDefaultSize`. -/
def kArenaDefaultSize : Nat := 128 * 1024

/-- An `Arena`: its memory, its size, and how much of it the allocator used. -/
structure Arena where
  memory : Nat
  size : Nat
  bytesAllocated : Nat
deriving DecidableEq, Repr

/-- An `ArenaAllocator`: its pool, the current arena `[begin_, end_)` with the bump pointer
`ptr_`, and the chain of its arenas from `arena_head_`. -/
structure ArenaAllocator (σ : Type) where
  pool : σ
  begin_ : Nat
  end_ : Nat
  ptr_ : Nat
  arenaHead : List Arena

namespace ArenaAllocator

variable {σ : Type} (allocArena : σ → Nat → Arena × σ)

/-- `UpdateBytesAllocated()`: the chain with the head's bytes as far as the bump pointer. -/
def updateBytesAllocated (s : ArenaAllocator σ) : List Arena :=
  match s.arenaHead with
  | [] => []
  | head :: rest => { head with bytesAllocated := s.ptr_ - s.begin_ } :: rest

/-- `AllocFromNewArena(bytes)`: an arena of at least `kArenaDefaultSize` from the pool, whose
start is returned; the allocator moves to it unless the current arena has more room left. -/
def allocFromNewArena (s : ArenaAllocator σ) (bytes : Nat) : Nat × ArenaAllocator σ :=
  let (newArena, pool) := allocArena s.pool (max kArenaDefaultSize bytes)
  if s.end_ - s.ptr_ > newArena.size - bytes then
    -- the old arena keeps serving; the new one goes second in the chain
    let used := { newArena with bytesAllocated := bytes }
    (newArena.memory,
      { s with
        pool
        arenaHead := match s.arenaHead with
          | [] => [used]
          | head :: rest => head :: used :: rest })
  else
    (newArena.memory,
      { pool
        begin_ := newArena.memory
        ptr_ := newArena.memory + bytes
        end_ := newArena.memory + newArena.size
        arenaHead := newArena :: s.updateBytesAllocated })

/-- `Alloc(bytes)`: `bytes` rounded up to `kAlignment`, from the current arena if it fits. -/
def alloc (s : ArenaAllocator σ) (bytes : Nat) : Nat × ArenaAllocator σ :=
  let bytes := roundUp bytes kAlignment
  if bytes > s.end_ - s.ptr_ then allocFromNewArena allocArena s bytes
  else (s.ptr_, { s with ptr_ := s.ptr_ + bytes })

/-- The padding `AllocAlign16` computes, `((ptr_ + 15) & 15) - ptr_` in `uintptr_t`: the
subtraction wraps through the `2 ^ 64` in front. -/
def align16Padding (ptr : Nat) : Nat :=
  2 ^ 64 + ((ptr + 15) % 2 ^ 64 &&& 15) - ptr

/-- `AllocAlign16(bytes)`. -/
def allocAlign16 (s : ArenaAllocator σ) (bytes : Nat) : Nat × ArenaAllocator σ :=
  let padding := align16Padding s.ptr_ % 2 ^ 64
  if (padding + bytes) % 2 ^ 64 > s.end_ - s.ptr_ then allocFromNewArena allocArena s bytes
  else (s.ptr_ + padding, { s with ptr_ := s.ptr_ + padding + bytes })

/-- `Realloc(ptr, ptr_size, new_size)`: the block grows in place when it ends at the bump pointer
and the arena has the room, and is allocated anew otherwise (the copy of its bytes is not
modelled). -/
def realloc (s : ArenaAllocator σ) (ptr ptrSize newSize : Nat) : Nat × ArenaAllocator σ :=
  let alignedPtrSize := roundUp ptrSize kAlignment
  let sizeDelta := roundUp newSize kAlignment - alignedPtrSize
  if ptr + alignedPtrSize = s.ptr_ ∧ s.end_ - s.ptr_ ≥ sizeDelta then
    (ptr, { s with ptr_ := s.ptr_ + sizeDelta })
  else alloc allocArena s newSize

/-- The calls of the allocator. -/
inductive Call where
  | alloc (bytes : Nat)
  | allocAlign16 (bytes : Nat)
  | realloc (ptr ptrSize newSize : Nat)

/-- One call; its result is dropped. -/
def step (s : ArenaAllocator σ) : Call → ArenaAllocator σ
  | .alloc bytes => (alloc allocArena s bytes).2
  | .allocAlign16 bytes => (allocAlign16 allocArena s bytes).2
  | .realloc ptr ptrSize newSize => (realloc allocArena s ptr ptrSize newSize).2

/-- A sequence of calls. -/
def run (s : ArenaAllocator σ) (calls : List Call) : ArenaAllocator σ :=
  calls.foldl (step allocArena) s

/-! ### Every `AllocAlign16` takes an arena -/

/-- Every `AllocFromNewArena` puts one more arena in the chain. -/
theorem length_allocFromNewArena (s : ArenaAllocator σ) (bytes : Nat) :
    (allocFromNewArena allocArena s bytes).2.arenaHead.length = s.arenaHead.length + 1 := by
  unfold allocFromNewArena
  generalize allocArena s.pool (max kArenaDefaultSize bytes) = taken
  obtain ⟨newArena, pool⟩ := taken
  dsimp only
  split_ifs
  · cases s.arenaHead <;> rfl
  · simp only [List.length_cons, updateBytesAllocated]
    cases s.arenaHead <;> rfl

/-- From a pointer above `bytes + 15`, the padding wraps to `2^64 - ptr_ + ((ptr_ + 15) & 15)`,
and with it `padding + bytes` stays above any room an arena below `2^64` can have. -/
theorem allocAlign16_eq_allocFromNewArena (s : ArenaAllocator σ) (bytes : Nat)
    (hptr : bytes + 15 < s.ptr_) (hend : s.ptr_ ≤ s.end_) (hfits : s.end_ < 2 ^ 64) :
    allocAlign16 allocArena s bytes = allocFromNewArena allocArena s bytes := by
  have hlow : (s.ptr_ + 15) % 2 ^ 64 &&& 15 ≤ 15 := Nat.and_le_right
  have hpadding : align16Padding s.ptr_ % 2 ^ 64 =
      2 ^ 64 + ((s.ptr_ + 15) % 2 ^ 64 &&& 15) - s.ptr_ := by
    rw [align16Padding]
    exact Nat.mod_eq_of_lt (by omega)
  -- `padding + bytes` does not wrap back: `bytes + 15` is below the pointer
  have hsum : (align16Padding s.ptr_ % 2 ^ 64 + bytes) % 2 ^ 64 =
      2 ^ 64 + ((s.ptr_ + 15) % 2 ^ 64 &&& 15) - s.ptr_ + bytes := by
    rw [hpadding]
    exact Nat.mod_eq_of_lt (by omega)
  simp only [allocAlign16]
  rw [if_pos (by rw [hsum]; omega)]

/-- What the pool hands out for the request of `AllocFromNewArena(bytes)`: an arena of at least
the requested size, above `bytes + 15` and ending below `2^64`. -/
def PoolAbove (bytes : Nat) : Prop :=
  ∀ p, let a := (allocArena p (max kArenaDefaultSize bytes)).1
    bytes + 15 < a.memory ∧ max kArenaDefaultSize bytes ≤ a.size ∧ a.memory + a.size < 2 ^ 64

/-- The allocator's pointer lies above `bytes + 15` in an arena that ends below `2^64`. -/
def PointerAbove (bytes : Nat) (s : ArenaAllocator σ) : Prop :=
  bytes + 15 < s.ptr_ ∧ s.ptr_ ≤ s.end_ ∧ s.end_ < 2 ^ 64

variable {allocArena}

/-- `AllocFromNewArena` keeps the pointer above `bytes + 15`: it stays, or moves `bytes` into a
new arena that lies above. -/
theorem pointerAbove_allocFromNewArena {bytes : Nat} (hpool : PoolAbove allocArena bytes)
    {s : ArenaAllocator σ} (hs : PointerAbove bytes s) :
    PointerAbove bytes (allocFromNewArena allocArena s bytes).2 := by
  obtain ⟨hmem, hsize, hend⟩ := hpool s.pool
  have hbytes : bytes ≤ max kArenaDefaultSize bytes := le_max_right _ _
  unfold allocFromNewArena
  generalize htaken : allocArena s.pool (max kArenaDefaultSize bytes) = taken at hmem hsize hend
  obtain ⟨newArena, pool⟩ := taken
  dsimp only at hmem hsize hend ⊢
  split_ifs
  · exact hs
  · simp only [PointerAbove]
    exact ⟨by omega, by omega, hend⟩

/-- A run of `AllocAlign16(bytes)` calls from a pointer above `bytes + 15`, over a pool whose
arenas lie above it too, takes one new arena from the pool per call, whatever room the current
arena has.  The induction is on the calls, with `PointerAbove` as the invariant. -/
theorem allocAlign16_run_takes_arena_per_call {bytes : Nat} (hpool : PoolAbove allocArena bytes)
    (k : Nat) : ∀ (s : ArenaAllocator σ), PointerAbove bytes s →
      (run allocArena s (List.replicate k (.allocAlign16 bytes))).arenaHead.length =
        s.arenaHead.length + k := by
  induction k with
  | zero => intro s _; rfl
  | succ k ih =>
    intro s hs
    have hstep := allocAlign16_eq_allocFromNewArena allocArena s bytes hs.1 hs.2.1 hs.2.2
    -- the first call is an `AllocFromNewArena`, and the rest run from there
    have hfirst : step allocArena s (.allocAlign16 bytes) =
        (allocFromNewArena allocArena s bytes).2 := by
      rw [step, hstep]
    have hrun : run allocArena s (List.replicate (k + 1) (.allocAlign16 bytes)) =
        run allocArena (step allocArena s (.allocAlign16 bytes))
          (List.replicate k (.allocAlign16 bytes)) := by
      rw [List.replicate_succ, run, run, List.foldl_cons]
    rw [hrun, hfirst, ih _ (pointerAbove_allocFromNewArena hpool hs), length_allocFromNewArena]
    omega

end ArenaAllocator

/-- A pool that hands out arenas of 128 KiB one MiB apart from `0x40000` on, and an allocator
with 128 KiB left in its arena at `0x10010`: each of three `AllocAlign16(16)` calls takes an arena
from the pool, although the first arena had room for all of them. -/
theorem allocAlign16_takes_three_arenas :
    let allocArena : Nat → Nat → Arena × Nat :=
      fun k n => (⟨0x40000 + k % 2 ^ 20 * 2 ^ 20, max n (2 ^ 17), 0⟩, k + 1)
    let s : ArenaAllocator Nat := ⟨0, 0x10000, 0x30000, 0x10010, [⟨0x10000, 0x20000, 0⟩]⟩
    3 * (16 + 15) ≤ s.end_ - s.ptr_ ∧
      (ArenaAllocator.run allocArena s (List.replicate 3 (.allocAlign16 16))).arenaHead.length =
        4 := by
  intro allocArena s
  have hpool : ArenaAllocator.PoolAbove allocArena 16 := by
    intro k
    have hk : k % 2 ^ 20 < 2 ^ 20 := Nat.mod_lt _ (by decide)
    simp only [allocArena, kArenaDefaultSize]
    refine ⟨by omega, le_rfl, ?_⟩
    have : k % 2 ^ 20 * 2 ^ 20 ≤ (2 ^ 20 - 1) * 2 ^ 20 := Nat.mul_le_mul_right _ (by omega)
    omega
  exact ⟨by decide,
    ArenaAllocator.allocAlign16_run_takes_arena_per_call hpool 3 s ⟨by decide, by decide, by decide⟩⟩

end AndroidArt.Base
