/-
Module: AndroidArt.Lib.ChunkLayout
Purpose: A region laid out from a base position as a list of chunks, each preceded by a hole of
  free positions: the shape the heap of a boundary-tag allocator has when it coalesces every free
  run, since a chunk stands between any two holes.
Trusted boundary: none
Main exports: Chunk, Chunk.extent, Chunk.placements, Chunk.fillAt
-/
import Mathlib

namespace AndroidArt.Lib

/-- A chunk of a laid-out region: `hole` free positions, then `size` positions of its own, which
carry `tag`. -/
structure Chunk (α : Type*) where
  hole : Nat
  size : Nat
  tag : α
deriving DecidableEq, Repr

namespace Chunk

variable {α : Type*}

/-- The positions a list of chunks spans: every hole and every chunk. -/
def extent : List (Chunk α) → Nat
  | [] => 0
  | c :: cs => c.hole + c.size + extent cs

/-- Each chunk with the position it starts at, the chunks being laid out from `base`. -/
def placements : Nat → List (Chunk α) → List (Nat × Chunk α)
  | _, [] => []
  | base, c :: cs => (base + c.hole, c) :: placements (base + c.hole + c.size) cs

/-- A chunk `⟨0, size, tag⟩` put at the start of the hole before chunk `i`, which keeps what is
left of its hole. -/
def fillAt : List (Chunk α) → Nat → Nat → α → List (Chunk α)
  | [], _, _, _ => []
  | c :: cs, 0, size, tag => ⟨0, size, tag⟩ :: { c with hole := c.hole - size } :: cs
  | c :: cs, i + 1, size, tag => c :: fillAt cs i size tag

/-- Chunk `i` given back: it and its hole join the hole of the next chunk, or the free tail
after the list when it is the last. -/
def releaseAt : List (Chunk α) → Nat → List (Chunk α)
  | [], _ => []
  | [_], 0 => []
  | c :: d :: cs, 0 => { d with hole := c.hole + c.size + d.hole } :: cs
  | c :: cs, i + 1 => c :: releaseAt cs i

@[simp] theorem extent_nil : extent ([] : List (Chunk α)) = 0 := rfl

@[simp] theorem extent_cons (c : Chunk α) (cs : List (Chunk α)) :
    extent (c :: cs) = c.hole + c.size + extent cs := rfl

@[simp] theorem extent_append (cs ds : List (Chunk α)) :
    extent (cs ++ ds) = extent cs + extent ds := by
  induction cs with
  | nil => simp
  | cons c cs ih =>
    rw [List.cons_append, extent_cons, extent_cons, ih]
    omega

@[simp] theorem placements_nil (base : Nat) : placements base ([] : List (Chunk α)) = [] := rfl

@[simp] theorem placements_cons (base : Nat) (c : Chunk α) (cs : List (Chunk α)) :
    placements base (c :: cs) = (base + c.hole, c) :: placements (base + c.hole + c.size) cs :=
  rfl

theorem placements_append (base : Nat) (cs ds : List (Chunk α)) :
    placements base (cs ++ ds) = placements base cs ++ placements (base + extent cs) ds := by
  induction cs generalizing base with
  | nil => simp
  | cons c cs ih =>
    rw [List.cons_append, placements_cons, ih, placements_cons, List.cons_append, extent_cons]
    congr 3
    omega

@[simp] theorem length_placements (base : Nat) (cs : List (Chunk α)) :
    (placements base cs).length = cs.length := by
  induction cs generalizing base with
  | nil => rfl
  | cons c cs ih => simp [ih]

/-- A placed chunk splits the list around it, and starts after the extent of what precedes it
and its own hole. -/
theorem mem_placements_iff {base p : Nat} {c : Chunk α} {cs : List (Chunk α)} :
    (p, c) ∈ placements base cs ↔
      ∃ pre post, cs = pre ++ c :: post ∧ p = base + extent pre + c.hole := by
  induction cs generalizing base with
  | nil => simp
  | cons d cs ih =>
    rw [placements_cons, List.mem_cons, Prod.mk.injEq, ih]
    constructor
    · rintro (⟨rfl, rfl⟩ | ⟨pre, post, rfl, rfl⟩)
      · exact ⟨[], cs, rfl, by simp⟩
      · exact ⟨d :: pre, post, rfl, by simp; omega⟩
    · rintro ⟨pre, post, hcs, rfl⟩
      cases pre with
      | nil =>
        obtain ⟨rfl, rfl⟩ := List.cons_eq_cons.mp hcs
        exact Or.inl ⟨by simp, rfl⟩
      | cons e pre =>
        obtain ⟨rfl, rfl⟩ := List.cons_eq_cons.mp hcs
        exact Or.inr ⟨pre, post, rfl, by simp; omega⟩

/-- Every placed chunk, hole included, lies inside the region the list spans. -/
theorem bounds_of_mem_placements {base p : Nat} {c : Chunk α} {cs : List (Chunk α)}
    (h : (p, c) ∈ placements base cs) : base + c.hole ≤ p ∧ p + c.size ≤ base + extent cs := by
  obtain ⟨pre, post, rfl, rfl⟩ := mem_placements_iff.mp h
  simp only [extent_append, extent_cons]
  omega

/-- Placed chunks come in order: each one, with the hole of the next, ends before the next
starts. -/
theorem placements_pairwise (base : Nat) (cs : List (Chunk α)) :
    (placements base cs).Pairwise fun a b => a.1 + a.2.size + b.2.hole ≤ b.1 := by
  induction cs generalizing base with
  | nil => simp
  | cons c cs ih =>
    rw [placements_cons, List.pairwise_cons]
    refine ⟨fun b hb => ?_, ih _⟩
    exact (bounds_of_mem_placements hb).1

/-- Two different placements of one list do not overlap. -/
theorem disjoint_of_mem_placements {base : Nat} {cs : List (Chunk α)} {a b : Nat × Chunk α}
    (ha : a ∈ placements base cs) (hb : b ∈ placements base cs) (hab : a ≠ b) :
    a.1 + a.2.size ≤ b.1 ∨ b.1 + b.2.size ≤ a.1 := by
  let R : Nat × Chunk α → Nat × Chunk α → Prop := fun a b =>
    a.1 + a.2.size ≤ b.1 ∨ b.1 + b.2.size ≤ a.1
  have hpair : (placements base cs).Pairwise R :=
    (placements_pairwise base cs).imp fun h => Or.inl (by omega)
  have : Std.Symm R := ⟨fun _ _ h => h.symm⟩
  exact hpair.forall ha hb hab

/-- A position starts at most one chunk of positive size. -/
theorem eq_of_mem_placements {base p : Nat} {c d : Chunk α} {cs : List (Chunk α)}
    (hc : (p, c) ∈ placements base cs) (hd : (p, d) ∈ placements base cs) (hc0 : 0 < c.size)
    (hd0 : 0 < d.size) : c = d := by
  by_contra hne
  have hdis := disjoint_of_mem_placements hc hd fun heq => hne (Prod.mk.inj heq).2
  dsimp only at hdis
  omega

/-- The chunks themselves, without their holes: each one's start, size and tag. -/
def objects (base : Nat) (cs : List (Chunk α)) : List (Nat × Nat × α) :=
  (placements base cs).map fun pc => (pc.1, pc.2.size, pc.2.tag)

@[simp] theorem objects_nil (base : Nat) : objects base ([] : List (Chunk α)) = [] := rfl

@[simp] theorem objects_cons (base : Nat) (c : Chunk α) (cs : List (Chunk α)) :
    objects base (c :: cs) = (base + c.hole, c.size, c.tag) :: objects (base + c.hole + c.size) cs :=
  rfl

theorem objects_append (base : Nat) (cs ds : List (Chunk α)) :
    objects base (cs ++ ds) = objects base cs ++ objects (base + extent cs) ds := by
  simp [objects, placements_append]

theorem mem_objects_iff {base : Nat} {o : Nat × Nat × α} {cs : List (Chunk α)} :
    o ∈ objects base cs ↔ ∃ c, (o.1, c) ∈ placements base cs ∧ o.2 = (c.size, c.tag) := by
  simp only [objects, List.mem_map, Prod.exists]
  constructor
  · rintro ⟨p, c, hpc, rfl⟩
    exact ⟨c, hpc, rfl⟩
  · rintro ⟨c, hpc, h⟩
    exact ⟨o.1, c, hpc, by rw [← h]⟩

/-- The sizes of the chunks, wherever they are laid out from. -/
theorem map_size_objects (base : Nat) (cs : List (Chunk α)) :
    (objects base cs).map (·.2.1) = cs.map Chunk.size := by
  induction cs generalizing base with
  | nil => rfl
  | cons c cs ih => simp [ih]

/-- Chunks of positive size come in strictly increasing order of their starts, each ending
before the next starts. -/
theorem objects_pairwise (base : Nat) (cs : List (Chunk α)) :
    (objects base cs).Pairwise fun a b => a.1 + a.2.1 ≤ b.1 := by
  rw [objects, List.pairwise_map]
  exact (placements_pairwise base cs).imp fun h => by dsimp only; omega

theorem fillAt_append (pre post : List (Chunk α)) (c : Chunk α) (size : Nat) (tag : α) :
    fillAt (pre ++ c :: post) pre.length size tag =
      pre ++ ⟨0, size, tag⟩ :: { c with hole := c.hole - size } :: post := by
  induction pre with
  | nil => rfl
  | cons d pre ih => simp [fillAt, ih]

theorem releaseAt_append_singleton (pre : List (Chunk α)) (c : Chunk α) :
    releaseAt (pre ++ [c]) pre.length = pre := by
  induction pre with
  | nil => rfl
  | cons d pre ih => simp [releaseAt, ih]

theorem releaseAt_append_cons (pre post : List (Chunk α)) (c d : Chunk α) :
    releaseAt (pre ++ c :: d :: post) pre.length =
      pre ++ { d with hole := c.hole + c.size + d.hole } :: post := by
  induction pre with
  | nil => rfl
  | cons e pre ih => simp [releaseAt, ih]

/-- Putting a chunk at the start of a hole adds its object and moves no other. -/
theorem objects_fillAt (base : Nat) (pre post : List (Chunk α)) (c : Chunk α) {size : Nat}
    (tag : α) (hsize : size ≤ c.hole) :
    objects base (fillAt (pre ++ c :: post) pre.length size tag) =
      objects base pre ++ (base + extent pre, size, tag) :: objects (base + extent pre) (c :: post) := by
  rw [fillAt_append, objects_append, objects_cons, objects_cons, objects_cons]
  -- what is left of the hole ends where the hole ended
  have hend : base + extent pre + 0 + size + (c.hole - size) = base + extent pre + c.hole := by
    omega
  simp only [Nat.add_zero] at hend ⊢
  rw [hend]

/-- Giving a chunk back removes its object and moves no other. -/
theorem objects_releaseAt (base : Nat) (pre post : List (Chunk α)) (c : Chunk α) :
    objects base (releaseAt (pre ++ c :: post) pre.length) =
      objects base pre ++ objects (base + extent pre + c.hole + c.size) post := by
  cases post with
  | nil => rw [releaseAt_append_singleton, objects_nil, List.append_nil]
  | cons d post =>
    rw [releaseAt_append_cons, objects_append, objects_cons, objects_cons]
    -- the next chunk starts where it did, after the longer hole
    have hstart : base + extent pre + (c.hole + c.size + d.hole) =
        base + extent pre + c.hole + c.size + d.hole := by omega
    rw [hstart]

/-- Retagging every chunk moves nothing. -/
theorem objects_map_tag (base : Nat) (cs : List (Chunk α)) (b : α) :
    objects base (cs.map fun c => { c with tag := b }) = (objects base cs).map fun o => (o.1, o.2.1, b) := by
  induction cs generalizing base with
  | nil => rfl
  | cons c cs ih => simp [ih]

/-- A run `[p, p + k)` of positions from `base` to the end of a free tail of `tail` positions
after the list that meets no placed chunk lies in a hole, or in the tail: a layout with no hole
and no tail of `k` positions has no `k` free positions in a row. -/
theorem fits_of_window {cs : List (Chunk α)} {base p k tail : Nat} (hp : base ≤ p)
    (hend : p + k ≤ base + extent cs + tail)
    (hfree : ∀ q c, (q, c) ∈ placements base cs → p + k ≤ q ∨ q + c.size ≤ p) :
    (∃ c ∈ cs, k ≤ c.hole) ∨ k ≤ tail := by
  induction cs generalizing base with
  | nil =>
    right
    simp only [extent_nil] at hend
    omega
  | cons c cs ih =>
    rcases hfree _ _ (List.mem_cons_self ..) with hbefore | hafter
    · -- the run ends before the first chunk, so inside its hole
      exact Or.inl ⟨c, List.mem_cons_self .., by omega⟩
    · have hrest := @ih (base + c.hole + c.size) (by omega)
        (by simp only [extent_cons] at hend; omega)
        (fun q d hd => hfree q d (List.mem_cons_of_mem _ hd))
      exact hrest.imp_left fun ⟨d, hd, hk⟩ => ⟨d, List.mem_cons_of_mem _ hd, hk⟩

end Chunk

end AndroidArt.Lib
