/-
Module: AndroidArt.Optimizing.LiveInterval
Purpose: The range list of `LiveInterval` (compiler/optimizing/ssa_liveness_analysis.h) and the
  operations that edit it: `AddRange`, `AddLoopRange`, `SetFrom`, and `SplitAt` with the
  safepoint list it cuts and the sibling chain it extends; and the queries `Covers`, `CoversSlow`
  and `FirstIntersectionWith`, with the search cache `range_search_start_` that `Covers` moves
  and `SplitAt` repairs.
Trusted boundary: positions are `size_t` values below `kNoLifetime`; the intervals are distinct
  objects, named by the number the allocator gives each. The `DCHECK`s are not evaluated.
Main exports: LiveInterval, LiveInterval.addRange, LiveInterval.addLoopRange,
  LiveInterval.setFrom
-/
import Mathlib
import AndroidArt.Lib.SpanList

namespace AndroidArt.Optimizing

open AndroidArt.Lib

/-- `LiveRange`: the positions `[start_, end_)`; its `next_` is the order of the list. -/
abbrev LiveRange := Span

/-- `LiveRange::IsBefore(other)`. -/
def LiveRange.isBefore (range other : LiveRange) : Bool := decide (range.stop ≤ other.start)

/-- `kNoLifetime`, `static_cast<size_t>(-1)`. -/
def kNoLifetime : Nat := 2 ^ 64 - 1

/-- The fields of `LiveInterval` that its range and safepoint operations read and write. -/
structure LiveInterval where
  /-- The ranges from `first_range_` on. -/
  ranges : List LiveRange
  /-- `last_range_`. -/
  lastRange : Nat
  /-- `range_search_start_`. -/
  rangeSearchStart : Nat
  /-- The positions of the safepoints from `first_safepoint_` to `last_safepoint_`. -/
  safepoints : List Nat
  /-- `parent_`. -/
  parent : Nat
  /-- `next_sibling_`, with null as `none`. -/
  nextSibling : Option Nat
deriving DecidableEq, Repr

namespace LiveInterval

/-! ### Building the range list -/

/-- `AddRange(start, end)`. -/
def addRange (i : LiveInterval) (start stop : Nat) : LiveInterval :=
  match i.ranges with
  | [] => { i with ranges := [⟨start, stop⟩], lastRange := 0, rangeSearchStart := 0 }
  | first :: rest =>
    if first.start = stop then
      -- there is a use in the following block
      { i with ranges := { first with start := start } :: rest }
    else if first.start = start ∧ first.stop = stop then i
    else
      -- a lifetime hole: a new first range; `last_range_` keeps its node, one place further on
      { i with ranges := ⟨start, stop⟩ :: first :: rest, lastRange := i.lastRange + 1,
               rangeSearchStart := 0 }

/-- `AddLoopRange(start, end)`.  Its loop walks past the ranges that end before `end`; the last
of them, `last_in_loop`, is null when there is none. -/
def addLoopRange (i : LiveInterval) (start stop : Nat) : Option LiveInterval :=
  let inLoop := i.ranges.takeWhile fun range => decide (range.stop < stop)
  match i.ranges.dropWhile fun range => decide (range.stop < stop) with
  | [] =>
    -- uses are only in the loop
    some { i with ranges := [⟨start, stop⟩], lastRange := 0, rangeSearchStart := 0 }
  | afterLoop :: rest =>
    if afterLoop.start ≤ stop then
      -- there are uses after the loop
      some { i with ranges := { afterLoop with start := start } :: rest,
                    lastRange := i.lastRange - inLoop.length, rangeSearchStart := 0 }
    else if inLoop = [] then none
    else
      -- the use after the loop is after a lifetime hole: `last_in_loop` becomes the loop
      some { i with ranges := ⟨start, stop⟩ :: afterLoop :: rest,
                    lastRange := i.lastRange - (inLoop.length - 1), rangeSearchStart := 0 }

/-- `SetFrom(from)`. -/
def setFrom (i : LiveInterval) (position : Nat) : LiveInterval :=
  match i.ranges with
  | [] =>
    -- an instruction without uses
    { i with ranges := [⟨position, position + 2⟩], lastRange := 0, rangeSearchStart := 0 }
  | first :: rest => { i with ranges := { first with start := position } :: rest }

/-! ### Splitting -/

/-- `FindSafepointJustBefore(position)`: the index of the safepoint before the first one at or
after `position`, or of `last_safepoint_` when there is none; `none` for null. -/
def findSafepointJustBefore (safepoints : List Nat) (position : Nat) : Option Nat :=
  loop safepoints 0 none
where
  /-- The loop from the safepoint at `index`, with `previous` the one before it. -/
  loop : List Nat → Nat → Option Nat → Option Nat
    | [], _, _ => if safepoints = [] then none else some (safepoints.length - 1)
    | safepoint :: rest, index, previous =>
      if safepoint ≥ position then previous else loop rest (index + 1) (some index)

/-- The safepoints `SplitAt(position)` keeps, and those it gives the new interval. -/
def splitSafepoints (safepoints : List Nat) (position : Nat) : List Nat × List Nat :=
  match findSafepointJustBefore safepoints position with
  | none => ([], safepoints)
  | some newLast =>
    -- `last_safepoint_ != new_last_safepoint`
    if newLast + 1 ≠ safepoints.length then
      (safepoints.take (newLast + 1), safepoints.drop (newLast + 1))
    else (safepoints, [])

/-- `range_search_start_ != nullptr && range_search_start_->GetEnd() >= current->GetEnd()`. -/
def searchStartAtOrAfter (i : LiveInterval) (current : LiveRange) : Bool :=
  match i.ranges[i.rangeSearchStart]? with
  | some range => decide (current.stop ≤ range.stop)
  | none => false

/-- `SplitAt(position)`, the new interval being the object numbered `newId`: the interval after
the split, and the new interval, null when the interval dies before `position`. -/
def splitAt (i : LiveInterval) (position newId : Nat) :
    Option (LiveInterval × Option LiveInterval) := do
  -- `GetEnd()` reads `last_range_`
  let lastRange ← i.ranges[i.lastRange]?
  if lastRange.stop ≤ position then return (i, none)
  let (kept, moved) := splitSafepoints i.safepoints position
  -- the loop moves past the ranges that end at or before `position`
  let previousRanges := i.ranges.takeWhile fun range => decide (range.stop ≤ position)
  match i.ranges.dropWhile fun range => decide (range.stop ≤ position) with
  | [] => none
  | current :: rest =>
    let searchStart :=
      if i.searchStartAtOrAfter current then previousRanges.length else i.rangeSearchStart
    if position ≤ current.start then
      -- `position` is in a lifetime hole: `previous->next_` is cut
      if previousRanges = [] then none
      else
        return ({ i with ranges := previousRanges, lastRange := previousRanges.length - 1,
                         rangeSearchStart := searchStart, safepoints := kept,
                         nextSibling := some newId },
                some { ranges := current :: rest, lastRange := i.lastRange - previousRanges.length,
                       rangeSearchStart := 0, safepoints := moved, parent := i.parent,
                       nextSibling := i.nextSibling })
    else
      -- `current` covers `position`: a new last range ends at `position`, and `current` now
      -- starts there
      return ({ i with ranges := previousRanges ++ [⟨current.start, position⟩],
                       lastRange := previousRanges.length, rangeSearchStart := searchStart,
                       safepoints := kept, nextSibling := some newId },
              some { ranges := { current with start := position } :: rest,
                     lastRange := i.lastRange - previousRanges.length, rangeSearchStart := 0,
                     safepoints := moved, parent := i.parent, nextSibling := i.nextSibling })

/-! ### Queries -/

/-- `FindRangeAtOrAfter(position, search_start)`: the index of the first range from
`search_start` on that ends after `position`. -/
def findRangeAtOrAfter (ranges : List LiveRange) (position searchStart : Nat) : Nat :=
  searchStart +
    ((ranges.drop searchStart).takeWhile fun range => decide (range.stop ≤ position)).length

/-- `candidate != nullptr && candidate->GetStart() <= position`. -/
def coversAt (ranges : List LiveRange) (candidate position : Nat) : Bool :=
  match ranges[candidate]? with
  | some range => decide (range.start ≤ position)
  | none => false

/-- `Covers(position)`, which moves the search cache to the range it found. -/
def covers (i : LiveInterval) (position : Nat) : Bool × LiveInterval :=
  let candidate := findRangeAtOrAfter i.ranges position i.rangeSearchStart
  (coversAt i.ranges candidate position, { i with rangeSearchStart := candidate })

/-- `CoversSlow(position)`. -/
def coversSlow (i : LiveInterval) (position : Nat) : Bool :=
  coversAt i.ranges (findRangeAtOrAfter i.ranges position 0) position

/-- The do-while loop of `FirstIntersectionWith` over this interval's ranges from `my_range` on
and `current`'s from `other_range` on. -/
def firstIntersectionLoop : List LiveRange → List LiveRange → Nat
  | myRange :: myRest, otherRange :: otherRest =>
    if myRange.isBefore otherRange then firstIntersectionLoop myRest (otherRange :: otherRest)
    else if otherRange.isBefore myRange then
      firstIntersectionLoop (myRange :: myRest) otherRest
    else max myRange.start otherRange.start
  -- a `GetNext()` that is null
  | _, _ => kNoLifetime
termination_by myRanges otherRanges => myRanges.length + otherRanges.length

/-- `FirstIntersectionWith(current)`; `none` when `current` has no range to dereference. -/
def firstIntersectionWith (i current : LiveInterval) : Option Nat :=
  match current.ranges with
  | [] => none
  | otherRange :: otherRest =>
    let myRange := findRangeAtOrAfter i.ranges otherRange.start i.rangeSearchStart
    -- a null `my_range` leaves nothing to walk
    some (firstIntersectionLoop (i.ranges.drop myRange) (otherRange :: otherRest))

/-! ### The invariant and the preconditions -/

/-- The range list is sorted, its ranges non-empty and apart, and `last_range_` is its last
node, null for an empty list. -/
structure WellFormed (i : LiveInterval) : Prop where
  ranges : SpanList.WellFormed i.ranges
  lastRange : i.lastRange = i.ranges.length - 1

/-- `AddSafepoint` appends at positions that do not decrease. -/
def SafepointsSorted (i : LiveInterval) : Prop := i.safepoints.Pairwise (· ≤ ·)

/-- `AddRange(start, end)` for a non-empty range that ends at or before the interval starts. -/
def AddRangePre (i : LiveInterval) (start stop : Nat) : Prop :=
  start < stop ∧ ∀ first ∈ i.ranges.head?, stop ≤ first.start

/-- `AddLoopRange(start, end)` for a non-empty range that starts at or before the interval and
reaches its start. -/
def AddLoopRangePre (i : LiveInterval) (start stop : Nat) : Prop :=
  start < stop ∧ ∃ first ∈ i.ranges.head?, start ≤ first.start ∧ first.start ≤ stop

/-- `SetFrom(from)` before the end of the first range. -/
def SetFromPre (i : LiveInterval) (position : Nat) : Prop :=
  ∀ first ∈ i.ranges.head?, position < first.stop

/-- `SplitAt(position)` after the start of the interval. -/
def SplitAtPre (i : LiveInterval) (position : Nat) : Prop :=
  ∃ first ∈ i.ranges.head?, first.start < position

/-- The search cache points at or before the end of the list, and every range before it ends at
or before `position`, the last position `Covers` was asked about. -/
def CacheOk (i : LiveInterval) (position : Nat) : Prop :=
  i.rangeSearchStart ≤ i.ranges.length ∧
    ∀ range ∈ i.ranges.take i.rangeSearchStart, range.stop ≤ position

/-! ### Adding ranges -/

section Adding

open SpanList

variable {i : LiveInterval}

/-- `AddRange` keeps the invariant and adds exactly `[start, end)` to the covered positions. -/
theorem addRange_spec {start stop : Nat} (h : i.WellFormed) (hpre : i.AddRangePre start stop) :
    (i.addRange start stop).WellFormed ∧
      ∀ x, Covered (i.addRange start stop).ranges x ↔ Covered i.ranges x ∨ (start ≤ x ∧ x < stop) := by
  obtain ⟨hrange, hbefore⟩ := hpre
  obtain ⟨hwf, hlast⟩ := h
  rcases hr : i.ranges with _ | ⟨first, rest⟩
  · refine ⟨⟨?_, by simp [addRange, hr]⟩, fun x => ?_⟩
    · simpa [addRange, hr] using wellFormed_cons.mpr ⟨hrange, by simp, wellFormed_nil⟩
    · simp [addRange, hr, Span.Contains]
  · have hwf' : SpanList.WellFormed (first :: rest) := hr ▸ hwf
    rw [hr] at hlast hbefore
    have hfirst : stop ≤ first.start := hbefore first rfl
    have hpos := hwf'.start_lt_stop List.mem_cons_self
    by_cases hmerge : first.start = stop
    · -- the first range is stretched down to `start`
      simp only [addRange, hr, if_pos hmerge]
      refine ⟨⟨hwf'.setStart (by omega), by simpa using hlast⟩, fun x => ?_⟩
      rw [covered_setStart (by omega) (by omega), hmerge, or_comm]
    · have hsame : ¬ (first.start = start ∧ first.stop = stop) := fun hsame => by omega
      simp only [addRange, hr, if_neg hmerge, if_neg hsame]
      refine ⟨⟨wellFormed_cons.mpr ⟨hrange, fun b hb => ?_, hwf'⟩, ?_⟩, fun x => ?_⟩
      · cases hb
        show stop < first.start
        omega
      · simp only [List.length_cons] at hlast ⊢
        omega
      · rw [covered_cons, or_comm]
        rfl

/-- The ranges `AddLoopRange(start, end)` walks past all lie in `[start, end)` when `start` is at
or before the interval's start. -/
theorem covered_inLoop {start stop x : Nat} (h : SpanList.WellFormed i.ranges)
    (hstart : ∀ first ∈ i.ranges.head?, start ≤ first.start)
    (covered : Covered (i.ranges.takeWhile fun range => decide (range.stop < stop)) x) :
    start ≤ x ∧ x < stop := by
  obtain ⟨range, member, inside⟩ := covered
  have hstop : range.stop < stop :=
    of_decide_eq_true (List.mem_takeWhile_imp (p := fun range : Span => range.stop < stop) member)
  rcases hr : i.ranges with _ | ⟨first, rest⟩
  · rw [hr] at member
    cases member
  · rw [hr] at h hstart member
    have hfirst := h.start_le_of_mem (List.takeWhile_sublist _ |>.subset member)
    have hstart' := hstart first rfl
    exact ⟨by have := inside.1; omega, by have := inside.2; omega⟩

/-- `AddLoopRange` keeps the invariant and adds exactly `[start, end)` to the covered positions,
when `[start, end)` reaches the start of the interval. -/
theorem addLoopRange_spec {start stop : Nat} (h : i.WellFormed) (hpre : i.AddLoopRangePre start stop) :
    ∃ i', i.addLoopRange start stop = some i' ∧ i'.WellFormed ∧
      ∀ x, Covered i'.ranges x ↔ Covered i.ranges x ∨ (start ≤ x ∧ x < stop) := by
  obtain ⟨hrange, first, hfirst, hstartFirst, hfirstStop⟩ := hpre
  obtain ⟨hwf, hlast⟩ := h
  have hstart : ∀ first ∈ i.ranges.head?, start ≤ first.start := fun first' hfirst' => by
    rw [hfirst] at hfirst'
    cases hfirst'
    exact hstartFirst
  have hinLoop : ∀ x, Covered (i.ranges.takeWhile fun range => decide (range.stop < stop)) x →
      start ≤ x ∧ x < stop := fun _ => covered_inLoop hwf hstart
  have hsplit := List.takeWhile_append_dropWhile (p := fun range : Span => decide (range.stop < stop))
    (l := i.ranges)
  set inLoop := i.ranges.takeWhile fun range => decide (range.stop < stop) with hinLoopDef
  have hlength := congrArg List.length hsplit
  rw [List.length_append] at hlength
  rcases hafter : i.ranges.dropWhile (fun range => decide (range.stop < stop)) with _ | ⟨afterLoop, rest⟩
  · -- uses are only in the loop
    simp only [addLoopRange, hafter, Option.some.injEq, exists_eq_left']
    refine ⟨⟨?_, rfl⟩, fun x => ?_⟩
    · exact wellFormed_cons.mpr ⟨hrange, by simp, wellFormed_nil⟩
    · rw [hafter, List.append_nil] at hsplit
      rw [covered_cons, ← hsplit]
      constructor
      · rintro (inside | covered)
        · exact .inr inside
        · exact absurd covered (not_covered_nil x)
      · rintro (covered | inside)
        · exact .inl (hinLoop x covered)
        · exact .inl inside
  · have hsuffix : SpanList.WellFormed (afterLoop :: rest) := hafter ▸ hwf.dropWhile _
    have hafterStop : stop ≤ afterLoop.stop := by
      have hnot := List.head_dropWhile_not (fun range : Span => decide (range.stop < stop))
        (l := i.ranges) (by rw [hafter]; simp)
      simp only [hafter, List.head_cons, decide_eq_false_iff_not] at hnot
      omega
    have hafterStart : start ≤ afterLoop.start := by
      rcases hr : i.ranges with _ | ⟨first', rest'⟩
      · rw [hr] at hafter
        cases hafter
      · rw [hr] at hwf hstart hafter
        have hmem : afterLoop ∈ first' :: rest' := (List.dropWhile_sublist _).subset (by rw [hafter]; simp)
        exact Nat.le_trans (hstart first' rfl) (hwf.start_le_of_mem hmem)
    have hafterPos := hsuffix.start_lt_stop List.mem_cons_self
    rw [hafter] at hsplit hlength
    rw [List.length_cons] at hlength
    by_cases hafterLoop : afterLoop.start ≤ stop
    · -- there are uses after the loop: `after_loop` is stretched down to `start`
      simp only [addLoopRange, hafter, if_pos hafterLoop, Option.some.injEq, exists_eq_left',
        ← hinLoopDef]
      refine ⟨⟨?_, ?_⟩, fun x => ?_⟩
      · exact hsuffix.setStart (by omega)
      · simp only [List.length_cons]
        omega
      · rw [covered_setStart (by omega) hafterStart, ← hsplit, covered_append]
        constructor
        · rintro (⟨hlow, hhigh⟩ | covered)
          · exact .inr ⟨hlow, by omega⟩
          · exact .inl (.inr covered)
        · rintro ((covered | covered) | ⟨hlow, hhigh⟩)
          · have hin := hinLoop x covered
            by_cases hx : x < afterLoop.start
            · exact .inl ⟨hin.1, hx⟩
            · exact .inr (covered_cons.mpr (.inl ⟨by omega, by omega⟩))
          · exact .inr covered
          · by_cases hx : x < afterLoop.start
            · exact .inl ⟨hlow, hx⟩
            · exact .inr (covered_cons.mpr (.inl ⟨by omega, by omega⟩))
    · -- a lifetime hole after the loop: some range ends inside the loop
      have hinLoopNonempty : inLoop ≠ [] := by
        intro hnil
        rw [hnil, List.nil_append] at hsplit
        simp only [← hsplit, List.head?_cons, Option.mem_def, Option.some.injEq] at hfirst
        rw [hfirst] at hafterLoop
        exact hafterLoop hfirstStop
      have hk := List.length_pos_of_ne_nil hinLoopNonempty
      simp only [addLoopRange, hafter, if_neg hafterLoop, ← hinLoopDef, if_neg hinLoopNonempty,
        Option.some.injEq, exists_eq_left']
      refine ⟨⟨?_, ?_⟩, fun x => ?_⟩
      · exact wellFormed_cons.mpr ⟨hrange, fun b hb => by cases hb; show stop < afterLoop.start; omega,
          hsuffix⟩
      · simp only [List.length_cons]
        omega
      · rw [covered_cons, ← hsplit, covered_append]
        constructor
        · rintro (inside | covered)
          · exact .inr inside
          · exact .inl (.inr covered)
        · rintro ((covered | covered) | inside)
          · exact .inl (hinLoop x covered)
          · exact .inr covered
          · exact .inl inside

/-- `SetFrom` keeps the invariant when it moves the start of the first range below its end. -/
theorem setFrom_wellFormed {position : Nat} (h : i.WellFormed) (hpre : i.SetFromPre position) :
    (i.setFrom position).WellFormed := by
  obtain ⟨hwf, hlast⟩ := h
  rcases hr : i.ranges with _ | ⟨first, rest⟩
  · refine ⟨?_, by simp [setFrom, hr]⟩
    simpa [setFrom, hr] using
      wellFormed_cons.mpr ⟨(by show position < position + 2; omega), by simp, wellFormed_nil⟩
  · have hbelow : position < first.stop := hpre first (by rw [hr]; rfl)
    rw [hr] at hwf hlast
    simp only [setFrom, hr]
    exact ⟨hwf.setStart hbelow, by simpa using hlast⟩

/-- The interval `[10, 20)`. -/
def oneRange : LiveInterval := ⟨[⟨10, 20⟩], 0, 0, [], 0, none⟩

/-- `AddLoopRange(2, 5)` starts at or before `[10, 20)` but ends before it: the loop walks past no
range, and the hole branch dereferences the null `last_in_loop`.  `SetFrom(25)`, past the end of
the first range, leaves the empty range `[25, 20)`. -/
theorem oneRange_addLoopRange_faults_setFrom_malformed :
    oneRange.WellFormed ∧ (∀ first ∈ oneRange.ranges.head?, 2 ≤ first.start) ∧
      oneRange.addLoopRange 2 5 = none ∧ ¬ (oneRange.setFrom 25).WellFormed := by
  refine ⟨⟨by decide, rfl⟩, by decide, rfl, fun h => ?_⟩
  have := h.ranges.start_lt_stop List.mem_cons_self
  exact absurd this (by decide)

end Adding

/-! ### Splitting -/

section Splitting

open SpanList

/-- From the safepoint at `index` on, the loop of `FindSafepointJustBefore` stops behind the
safepoints before `position` at the front of the list. -/
theorem findSafepointJustBefore_loop (safepoints : List Nat) (position : Nat) :
    ∀ (rest : List Nat) (index : Nat), safepoints.drop index = rest → index ≤ safepoints.length →
      findSafepointJustBefore.loop safepoints position rest index
          (if index = 0 then none else some (index - 1)) =
        if index + (rest.takeWhile fun safepoint => decide (safepoint < position)).length = 0
        then none
        else some (index + (rest.takeWhile fun safepoint => decide (safepoint < position)).length - 1)
  | [], index, hrest, hindex => by
    -- past the end: `last_safepoint_`, which is null only for an empty list
    have hlen : index = safepoints.length := by
      have := List.length_drop (l := safepoints) (i := index)
      rw [hrest, List.length_nil] at this
      omega
    simp only [findSafepointJustBefore.loop, List.takeWhile_nil, List.length_nil, Nat.add_zero,
      hlen, List.length_eq_zero_iff]
  | safepoint :: rest, index, hrest, hindex => by
    have hnext : safepoints.drop (index + 1) = rest := by
      rw [← List.drop_drop, hrest, List.drop_one, List.tail_cons]
    have hlt : index < safepoints.length := by
      by_contra hge
      rw [List.drop_eq_nil_of_le (by omega)] at hrest
      cases hrest
    by_cases hat : safepoint ≥ position
    · -- the first safepoint at or after `position`: the previous one
      simp only [findSafepointJustBefore.loop, if_pos hat, List.takeWhile_cons,
        if_neg (show ¬ decide (safepoint < position) = true by simpa using hat), List.length_nil,
        Nat.add_zero]
    · have ih := findSafepointJustBefore_loop safepoints position rest (index + 1) hnext (by omega)
      rw [if_neg (by omega), Nat.add_sub_cancel] at ih
      simp only [findSafepointJustBefore.loop, if_neg hat, ih, List.takeWhile_cons,
        if_pos (show decide (safepoint < position) = true by simpa using hat), List.length_cons]
      rw [if_neg (by omega), if_neg (by omega), Nat.add_assoc, Nat.add_comm 1]

/-- `SplitAt` keeps the safepoints before the first one at or after `position`, and moves the
rest. -/
theorem splitSafepoints_eq (safepoints : List Nat) (position : Nat) :
    splitSafepoints safepoints position =
      (safepoints.takeWhile fun safepoint => decide (safepoint < position),
        safepoints.dropWhile fun safepoint => decide (safepoint < position)) := by
  have hloop := findSafepointJustBefore_loop safepoints position safepoints 0 rfl (Nat.zero_le _)
  rw [if_pos rfl, Nat.zero_add] at hloop
  have hfind : findSafepointJustBefore safepoints position = _ := hloop
  set k := (safepoints.takeWhile fun safepoint => decide (safepoint < position)).length with hk
  have htake := take_length_takeWhile (fun safepoint => decide (safepoint < position)) safepoints
  have hdrop := drop_length_takeWhile (fun safepoint => decide (safepoint < position)) safepoints
  rw [← hk] at htake hdrop
  have hkle : k ≤ safepoints.length := (List.takeWhile_sublist _).length_le
  unfold splitSafepoints
  rw [hfind]
  by_cases hzero : k = 0
  · -- no safepoint before `position`: all of them move
    rw [if_pos hzero]
    rw [hzero, List.take_zero] at htake
    rw [hzero, List.drop_zero] at hdrop
    rw [← htake, ← hdrop]
  · rw [if_neg hzero]
    dsimp only
    rw [Nat.sub_add_cancel (Nat.pos_of_ne_zero hzero)]
    by_cases hall : k = safepoints.length
    · -- every safepoint is before `position`: none moves
      rw [if_neg (by omega), ← htake, ← hdrop, hall, List.take_length, List.drop_length]
    · rw [if_pos hall, htake, hdrop]

/-- In a sorted list, what is left after the elements below `position` is at or after it. -/
theorem le_of_mem_dropWhile_lt {safepoints : List Nat} (hsorted : safepoints.Pairwise (· ≤ ·))
    {position safepoint : Nat}
    (member : safepoint ∈ safepoints.dropWhile fun safepoint => decide (safepoint < position)) :
    position ≤ safepoint := by
  induction safepoints with
  | nil => cases member
  | cons first rest ih =>
    rw [List.pairwise_cons] at hsorted
    by_cases hfirst : first < position
    · rw [List.dropWhile_cons_of_pos (by simpa using hfirst)] at member
      exact ih hsorted.2 member
    · rw [List.dropWhile_cons_of_neg (by simpa using hfirst)] at member
      rcases List.mem_cons.mp member with rfl | later
      · omega
      · have := hsorted.1 safepoint later
        omega

variable {i : LiveInterval} {position newId : Nat}

/-- The search cache `SplitAt` leaves this interval: when it pointed at `current` or later, the
end of the ranges before `current`, else where it was.  Either way it points no further than
`current`, and the ranges before it still end before the last query. -/
theorem searchStart_split {prev rest : List LiveRange} {current : LiveRange} {last : Nat}
    (hsplit : prev ++ current :: rest = i.ranges) (hprev : ∀ range ∈ prev, range.stop ≤ position)
    (hcurrent : position < current.stop) (hwfCurrent : SpanList.WellFormed (current :: rest))
    (hcache : i.CacheOk last) (hlast : last ≤ position) :
    (if i.searchStartAtOrAfter current then prev.length else i.rangeSearchStart) ≤ prev.length ∧
      ∀ range ∈ i.ranges.take
          (if i.searchStartAtOrAfter current then prev.length else i.rangeSearchStart),
        range.stop ≤ last := by
  obtain ⟨hcacheLength, hcacheStops⟩ := hcache
  have hprevTake : i.ranges.take prev.length = prev := by
    rw [← hsplit, List.take_left]
  -- a range at or after `current` ends no earlier than `current`
  have hlater : ∀ range ∈ current :: rest, current.stop ≤ range.stop := by
    intro range member
    rcases List.mem_cons.mp member with rfl | later
    · exact Nat.le_refl _
    · have := hwfCurrent.stop_lt_start later
      have := hwfCurrent.start_lt_stop member
      omega
  unfold searchStartAtOrAfter
  rcases hc : i.ranges[i.rangeSearchStart]? with _ | range
  · -- a null cache: every range ended before the last query, `current` included
    have hnull : i.rangeSearchStart = i.ranges.length := by
      have := List.getElem?_eq_none_iff.mp hc
      omega
    have hcurrentMem : current ∈ i.ranges.take i.rangeSearchStart := by
      rw [hnull, List.take_length, ← hsplit]
      simp
    have := hcacheStops current hcurrentMem
    omega
  · have hrange : range ∈ i.ranges := List.mem_of_getElem? hc
    by_cases hat : current.stop ≤ range.stop
    · -- the cache pointed into the new interval: it moves back to `current`'s place
      simp only [hat, decide_true, if_true]
      refine ⟨Nat.le_refl _, fun r member => hcacheStops r ?_⟩
      have hle : prev.length ≤ i.rangeSearchStart := by
        by_contra hge
        have hlt : i.rangeSearchStart < prev.length := Nat.lt_of_not_le hge
        have hin : range ∈ prev := by
          rw [← hprevTake]
          exact List.mem_of_getElem? (by rw [List.getElem?_take, if_pos hlt]; exact hc)
        have := hprev range hin
        omega
      rw [hprevTake] at member
      rw [← hprevTake] at member
      have htake := List.take_take (i := prev.length) (j := i.rangeSearchStart) (l := i.ranges)
      rw [Nat.min_eq_left hle] at htake
      rw [← htake] at member
      exact List.mem_of_mem_take member
    · -- the cache points before `current` and stays
      simp only [hat, decide_false]
      have hbefore : i.rangeSearchStart < prev.length := by
        by_contra hge
        have hin : range ∈ current :: rest := by
          have hget : (prev ++ current :: rest)[i.rangeSearchStart]? = some range := by rw [hsplit]; exact hc
          rw [List.getElem?_append_right (by omega)] at hget
          exact List.mem_of_getElem? hget
        exact hat (hlater range hin)
      exact ⟨Nat.le_of_lt hbefore, hcacheStops⟩

/-- What `SplitAt(position)` gives a well-formed interval that starts before `position`: itself
and no sibling when it dies at or before `position`; otherwise the part before `position` and a
sibling with the rest, right behind it in the sibling chain. -/
structure SplitResult (i : LiveInterval) (position newId : Nat) (i' n : LiveInterval) : Prop where
  wellFormed : i'.WellFormed
  wellFormed_sibling : n.WellFormed
  covered : ∀ x, Covered i'.ranges x ↔ Covered i.ranges x ∧ x < position
  covered_sibling : ∀ x, Covered n.ranges x ↔ Covered i.ranges x ∧ position ≤ x
  nextSibling : i'.nextSibling = some newId
  nextSibling_sibling : n.nextSibling = i.nextSibling
  parent : i'.parent = i.parent
  parent_sibling : n.parent = i.parent
  safepoints : i'.safepoints = i.safepoints.takeWhile fun safepoint => decide (safepoint < position)
  safepoints_sibling :
    n.safepoints = i.safepoints.dropWhile fun safepoint => decide (safepoint < position)
  cacheOk : ∀ last, i.CacheOk last → last ≤ position → i'.CacheOk last
  rangeSearchStart_sibling : n.rangeSearchStart = 0

theorem splitAt_spec (h : i.WellFormed) (hpre : i.SplitAtPre position) :
    ∃ i' sibling, i.splitAt position newId = some (i', sibling) ∧
      (sibling = none → i' = i ∧ ∀ x, Covered i.ranges x → x < position) ∧
      ∀ n, sibling = some n → SplitResult i position newId i' n := by
  obtain ⟨hwf, hlast⟩ := h
  obtain ⟨first, hfirst, hfirstStart⟩ := hpre
  have hne : i.ranges ≠ [] := fun hnil => by rw [hnil] at hfirst; cases hfirst
  obtain ⟨last, hlastMem⟩ : ∃ last, i.ranges.getLast? = some last :=
    Option.isSome_iff_exists.mp (List.getLast?_isSome.mpr hne)
  have hlastGet : i.ranges[i.lastRange]? = some last := by
    rw [hlast, ← List.getLast?_eq_getElem?, hlastMem]
  by_cases hdead : last.stop ≤ position
  · -- the interval dies before `position`
    refine ⟨i, none, by simp [splitAt, hlastGet, hdead], fun _ => ⟨rfl, ?_⟩, fun n hn => by cases hn⟩
    rintro x ⟨range, member, inside⟩
    have := hwf.stop_le_of_getLast? hlastMem member
    have := inside.2
    omega
  -- the ranges that end at or before `position`, then the first that does not
  set previousRanges := i.ranges.takeWhile fun range => decide (range.stop ≤ position)
    with hprevious
  have hsplit := List.takeWhile_append_dropWhile
    (p := fun range : Span => decide (range.stop ≤ position)) (l := i.ranges)
  rw [← hprevious] at hsplit
  have hbefore : ∀ range ∈ previousRanges, range.stop ≤ position := fun range member =>
    of_decide_eq_true (List.mem_takeWhile_imp (p := fun range : Span => range.stop ≤ position) member)
  rcases hdrop : i.ranges.dropWhile (fun range => decide (range.stop ≤ position)) with
    _ | ⟨current, rest⟩
  · have hall := List.dropWhile_eq_nil_iff.mp hdrop last (List.mem_of_getLast? hlastMem)
    exact absurd (of_decide_eq_true hall) hdead
  rw [hdrop] at hsplit
  have hcurrent : position < current.stop := by
    have hnot := List.head_dropWhile_not (fun range : Span => decide (range.stop ≤ position))
      (l := i.ranges) (by rw [hdrop]; simp)
    simp only [hdrop, List.head_cons, decide_eq_false_iff_not] at hnot
    omega
  have hparts := hwf
  rw [← hsplit, wellFormed_append] at hparts
  obtain ⟨hwfPrevious, hwfCurrent, hjoin⟩ := hparts
  have hcurrentPos := hwfCurrent.start_lt_stop List.mem_cons_self
  have hlength := congrArg List.length hsplit
  rw [List.length_append, List.length_cons] at hlength
  -- a position covered by the ranges after `current` lies after `current`
  have hrest : ∀ x, Covered rest x → current.stop < x := fun x covered => by
    by_contra hle
    exact hwfCurrent.not_covered_of_le (Nat.le_of_not_lt hle) covered
  -- a prefix of the ranges before `current` is that prefix of all the ranges
  have htakePrevious : ∀ n ≤ previousRanges.length, previousRanges.take n = i.ranges.take n := by
    intro n hn
    rw [hprevious, ← take_length_takeWhile, List.take_take, Nat.min_eq_left (hprevious ▸ hn)]
  have hprev : ∀ x, Covered previousRanges x → x < position := by
    rintro x ⟨range, member, inside⟩
    have := hbefore range member
    have := inside.2
    omega
  by_cases hhole : position ≤ current.start
  · -- `position` falls in a lifetime hole
    have hpreviousNe : previousRanges ≠ [] := by
      intro hnil
      rw [hnil, List.nil_append] at hsplit
      rw [← hsplit] at hfirst
      simp only [List.head?_cons, Option.mem_def, Option.some.injEq] at hfirst
      rw [hfirst] at hhole
      omega
    refine ⟨?_, ?_, ?holeRun, fun hnone => ?holeDead, fun n hn => ?_⟩
    case holeRun =>
      simp only [splitAt, hlastGet, splitSafepoints_eq, hdrop, ← hprevious, Option.bind_eq_bind,
        Option.bind_some, if_neg hdead, if_pos hhole, if_neg hpreviousNe]
      rfl
    case holeDead => cases hnone
    cases hn
    refine ⟨⟨hwfPrevious, rfl⟩, ⟨hwfCurrent, ?_⟩, fun x => ?_, fun x => ?_, rfl, rfl, rfl, rfl,
      rfl, rfl, fun last hcache hlastPosition => ?_, rfl⟩
    · simp only [List.length_cons]
      omega
    · rw [← hsplit, covered_append]
      constructor
      · intro covered
        exact ⟨.inl covered, hprev x covered⟩
      · rintro ⟨covered | covered, hx⟩
        · exact covered
        · have := hwfCurrent.start_le_of_covered covered
          omega
    · rw [← hsplit, covered_append]
      constructor
      · intro covered
        exact ⟨.inr covered, Nat.le_trans hhole (hwfCurrent.start_le_of_covered covered)⟩
      · rintro ⟨covered | covered, hx⟩
        · have := hprev x covered
          omega
        · exact covered
    · obtain ⟨hle, hstops⟩ := searchStart_split hsplit hbefore hcurrent hwfCurrent hcache hlastPosition
      refine ⟨hle, fun range member => hstops range ?_⟩
      rw [htakePrevious _ hle] at member
      exact member
  · -- `current` covers `position`: it is cut in two
    refine ⟨?_, ?_, ?cutRun, fun hnone => ?cutDead, fun n hn => ?_⟩
    case cutRun =>
      simp only [splitAt, hlastGet, splitSafepoints_eq, hdrop, ← hprevious, Option.bind_eq_bind,
        Option.bind_some, if_neg hdead, if_neg hhole]
      rfl
    case cutDead => cases hnone
    cases hn
    refine ⟨⟨?_, ?_⟩, ⟨hwfCurrent.setStart hcurrent, ?_⟩, fun x => ?_, fun x => ?_, rfl, rfl, rfl,
      rfl, rfl, rfl, fun last hcache hlastPosition => ?_, rfl⟩
    · refine wellFormed_append.mpr ⟨hwfPrevious, ?_, fun a ha b hb => ?_⟩
      · exact wellFormed_cons.mpr ⟨by show current.start < position; omega, by simp, wellFormed_nil⟩
      · cases hb
        exact hjoin a ha current rfl
    · simp
    · simp only [List.length_cons]
      omega
    · rw [← hsplit, covered_append, covered_append, covered_cons, covered_cons]
      constructor
      · rintro (covered | inside | covered)
        · exact ⟨.inl covered, hprev x covered⟩
        · have hhigh : x < position := inside.2
          exact ⟨.inr (.inl ⟨inside.1, by omega⟩), hhigh⟩
        · exact absurd covered (not_covered_nil x)
      · rintro ⟨covered | inside | covered, hx⟩
        · exact .inl covered
        · exact .inr (.inl ⟨inside.1, hx⟩)
        · have := hrest x covered
          omega
    · rw [← hsplit, covered_append, covered_cons, covered_cons]
      constructor
      · rintro (inside | covered)
        · have hlow : position ≤ x := inside.1
          exact ⟨.inr (.inl ⟨by omega, inside.2⟩), hlow⟩
        · have := hrest x covered
          exact ⟨.inr (.inr covered), by omega⟩
      · rintro ⟨covered | inside | covered, hx⟩
        · have := hprev x covered
          omega
        · exact .inl ⟨hx, inside.2⟩
        · exact .inr covered
    · obtain ⟨hle, hstops⟩ := searchStart_split hsplit hbefore hcurrent hwfCurrent hcache hlastPosition
      refine ⟨by simp only [List.length_append, List.length_singleton]; omega,
        fun range member => hstops range ?_⟩
      rw [List.take_append_of_le_length hle, htakePrevious _ hle] at member
      exact member

/-- With the safepoints sorted, as `AddSafepoint` keeps them, the split keeps exactly those before
`position` and moves the others to the new interval. -/
theorem SplitResult.safepoints_partition {i' n : LiveInterval} (hresult : SplitResult i position newId i' n)
    (hsorted : i.SafepointsSorted) :
    i'.safepoints ++ n.safepoints = i.safepoints ∧ (∀ s ∈ i'.safepoints, s < position) ∧
      ∀ s ∈ n.safepoints, position ≤ s := by
  rw [hresult.safepoints, hresult.safepoints_sibling]
  refine ⟨List.takeWhile_append_dropWhile, fun s member => ?_,
    fun s member => le_of_mem_dropWhile_lt hsorted member⟩
  exact of_decide_eq_true (List.mem_takeWhile_imp (p := fun s : Nat => s < position) member)

end Splitting

/-! ### The range list under its operations -/

section RangeList

open SpanList

/-- A well-formed range list stays well-formed under `AddRange`, `AddLoopRange`, `SetFrom` and
`SplitAt`, each under its precondition; the two adds cover exactly the old positions and
`[start, end)`, and `SplitAt` cuts the covered positions, and the sorted safepoints, at
`position`, putting the new interval right behind this one under the same parent. -/
theorem rangeList_operations_keep_wellFormed (i : LiveInterval) (h : i.WellFormed) :
    (∀ start stop, i.AddRangePre start stop →
      (i.addRange start stop).WellFormed ∧
        ∀ x, Covered (i.addRange start stop).ranges x ↔ Covered i.ranges x ∨ (start ≤ x ∧ x < stop)) ∧
    (∀ start stop, i.AddLoopRangePre start stop →
      ∃ i', i.addLoopRange start stop = some i' ∧ i'.WellFormed ∧
        ∀ x, Covered i'.ranges x ↔ Covered i.ranges x ∨ (start ≤ x ∧ x < stop)) ∧
    (∀ position, i.SetFromPre position → (i.setFrom position).WellFormed) ∧
    (∀ position newId, i.SplitAtPre position →
      ∃ i' sibling, i.splitAt position newId = some (i', sibling) ∧
        (sibling = none → i' = i ∧ ∀ x, Covered i.ranges x → x < position) ∧
        ∀ n, sibling = some n → SplitResult i position newId i' n ∧
          (i.SafepointsSorted → (∀ s ∈ i'.safepoints, s < position) ∧
            ∀ s ∈ n.safepoints, position ≤ s)) := by
  refine ⟨fun start stop hpre => addRange_spec h hpre, fun start stop hpre => addLoopRange_spec h hpre,
    fun position hpre => setFrom_wellFormed h hpre, fun position newId hpre => ?_⟩
  obtain ⟨i', sibling, hrun, hdead, hresult⟩ := @splitAt_spec i position newId h hpre
  refine ⟨i', sibling, hrun, hdead, fun n hn => ⟨hresult n hn, fun hsorted => ?_⟩⟩
  exact ((hresult n hn).safepoints_partition hsorted).2

/-- Adding `[2, 5)` in front of `[10, 20)` covers both. -/
theorem rangeList_operations_keep_wellFormed_oneRange :
    oneRange.WellFormed ∧
      ∀ x, Covered (oneRange.addRange 2 5).ranges x ↔ Covered oneRange.ranges x ∨ (2 ≤ x ∧ x < 5) := by
  have hwf : oneRange.WellFormed := ⟨by decide, rfl⟩
  exact ⟨hwf, ((rangeList_operations_keep_wellFormed oneRange hwf).1 2 5 ⟨by decide, by decide⟩).2⟩

end RangeList

/-! ### Queries and the search cache -/

section Queries

open SpanList

variable {i : LiveInterval}

/-- From a search start before which every range ends at or before `position`,
`FindRangeAtOrAfter` finds the first range that ends after `position`. -/
theorem findRangeAtOrAfter_eq {ranges : List LiveRange} {position searchStart : Nat}
    (hstart : searchStart ≤ ranges.length)
    (hbefore : ∀ range ∈ ranges.take searchStart, range.stop ≤ position) :
    findRangeAtOrAfter ranges position searchStart =
      (ranges.takeWhile fun range => decide (range.stop ≤ position)).length :=
  add_length_takeWhile_drop hstart fun range member => decide_eq_true (hbefore range member)

theorem findRangeAtOrAfter_zero (ranges : List LiveRange) (position : Nat) :
    findRangeAtOrAfter ranges position 0 =
      (ranges.takeWhile fun range => decide (range.stop ≤ position)).length :=
  findRangeAtOrAfter_eq (Nat.zero_le _) (by simp)

/-- `CoversSlow` answers whether some range covers `position`. -/
theorem coversSlow_iff (h : SpanList.WellFormed i.ranges) {position : Nat} :
    i.coversSlow position = true ↔ Covered i.ranges position := by
  rw [covered_iff_dropWhile h, coversSlow, findRangeAtOrAfter_zero, coversAt,
    getElem?_length_takeWhile]
  cases (i.ranges.dropWhile fun range => decide (range.stop ≤ position)).head? with
  | none => simp
  | some range => simp

/-- Under the cache invariant at a position at or before `position`, `Covers` answers as
`CoversSlow`, leaves the ranges as they are, and moves the cache so that the invariant holds at
`position`. -/
theorem covers_spec {last position : Nat} (hcache : i.CacheOk last) (hle : last ≤ position) :
    (i.covers position).1 = i.coversSlow position ∧ (i.covers position).2.ranges = i.ranges ∧
      (i.covers position).2.CacheOk position := by
  obtain ⟨hlength, hstops⟩ := hcache
  have hfind := @findRangeAtOrAfter_eq i.ranges position i.rangeSearchStart hlength
    fun range member => Nat.le_trans (hstops range member) hle
  refine ⟨?_, rfl, ?_, fun range member => ?_⟩
  · simp only [covers, coversSlow, hfind, findRangeAtOrAfter_zero]
  · show findRangeAtOrAfter i.ranges position i.rangeSearchStart ≤ i.ranges.length
    rw [hfind]
    exact (List.takeWhile_sublist _).length_le
  · change range ∈ i.ranges.take (findRangeAtOrAfter i.ranges position i.rangeSearchStart) at member
    rw [hfind, take_length_takeWhile] at member
    exact of_decide_eq_true (List.mem_takeWhile_imp (p := fun range : Span => range.stop ≤ position) member)

/-- A cache at the first range holds at every position: so an interval that `Covers` has not
moved yet, and every interval `AddRange`, `AddLoopRange` or `SplitAt` builds anew. -/
theorem cacheOk_of_rangeSearchStart_eq_zero (h : i.rangeSearchStart = 0) (position : Nat) :
    i.CacheOk position := by
  refine ⟨?_, fun range member => ?_⟩
  · rw [h]
    exact Nat.zero_le _
  · rw [h, List.take_zero] at member
    cases member

/-- The cache invariant reads only the ends of the ranges: moving the start of the first range
keeps it. -/
theorem cacheOk_setStart {first : LiveRange} {rest : List LiveRange} {start last : Nat}
    (hr : i.ranges = first :: rest) (hcache : i.CacheOk last) :
    ({ i with ranges := { first with start := start } :: rest } : LiveInterval).CacheOk last := by
  obtain ⟨hlength, hstops⟩ := hcache
  rw [hr] at hlength hstops
  refine ⟨by simpa using hlength, fun range member => ?_⟩
  change range ∈ ({ first with start := start } :: rest).take i.rangeSearchStart at member
  cases hs : i.rangeSearchStart with
  | zero =>
    rw [hs, List.take_zero] at member
    cases member
  | succ k =>
    rw [hs, List.take_succ_cons] at member hstops
    rcases List.mem_cons.mp member with rfl | later
    · exact hstops first List.mem_cons_self
    · exact hstops range (List.mem_cons_of_mem _ later)

theorem addRange_cacheOk {start stop last : Nat} (hcache : i.CacheOk last) :
    (i.addRange start stop).CacheOk last := by
  rcases hr : i.ranges with _ | ⟨first, rest⟩
  · simp only [addRange, hr]
    exact cacheOk_of_rangeSearchStart_eq_zero rfl last
  · simp only [addRange, hr]
    by_cases hmerge : first.start = stop
    · -- the merge branch keeps the cache
      rw [if_pos hmerge]
      exact cacheOk_setStart hr hcache
    · rw [if_neg hmerge]
      split
      · exact hcache
      · exact cacheOk_of_rangeSearchStart_eq_zero rfl last

/-- Every branch of `AddLoopRange` points the cache at the new first range. -/
theorem addLoopRange_rangeSearchStart {start stop : Nat} {i' : LiveInterval}
    (hrun : i.addLoopRange start stop = some i') : i'.rangeSearchStart = 0 := by
  unfold addLoopRange at hrun
  split at hrun
  · cases hrun
    rfl
  · split at hrun
    · cases hrun
      rfl
    · dsimp only at hrun
      split at hrun
      · cases hrun
      · cases hrun
        rfl

/-! The register allocator's use of one interval: queries at positions that do not decrease,
splits after the last query, and the adds of the liveness analysis. -/

/-- An operation on one interval. -/
inductive Operation where
  | covers (position : Nat)
  | splitAt (position newId : Nat)
  | addRange (start stop : Nat)
  | addLoopRange (start stop : Nat)
deriving DecidableEq, Repr

/-- The position a query asks about. -/
def Operation.query? : Operation → Option Nat
  | .covers position => some position
  | _ => none

/-- The last position queried, after the operation. -/
def Operation.lastQuery (last : Nat) : Operation → Nat
  | .covers position => position
  | _ => last

/-- The interval after one operation, `SplitAt` going on with the part before the split; `none`
when the operation faults. -/
def step (i : LiveInterval) : Operation → Option LiveInterval
  | .covers position => some (i.covers position).2
  | .splitAt position newId => (i.splitAt position newId).map Prod.fst
  | .addRange start stop => some (i.addRange start stop)
  | .addLoopRange start stop => i.addLoopRange start stop

/-- A query of a run: the interval asked, the position, and what `Covers` answered. -/
structure Answer where
  interval : LiveInterval
  position : Nat
  covers : Bool

/-- The answers of the queries of a run; `none` when an operation faults. -/
def run (i : LiveInterval) : List Operation → Option (List Answer)
  | [] => some []
  | op :: ops => do
    let i' ← i.step op
    let answers ← i'.run ops
    match op with
    | .covers position => return ⟨i, position, (i.covers position).1⟩ :: answers
    | _ => return answers

/-- Each operation under its precondition, `last` being the last position queried. -/
def Pre (i : LiveInterval) (last : Nat) : Operation → Prop
  | .covers position => last ≤ position
  | .splitAt position _ => last < position ∧ i.SplitAtPre position
  | .addRange start stop => i.AddRangePre start stop
  | .addLoopRange start stop => i.AddLoopRangePre start stop

/-- Every operation of a run under its precondition, in the interval the ones before it leave. -/
def Valid (i : LiveInterval) (last : Nat) : List Operation → Prop
  | [] => True
  | op :: ops => i.Pre last op ∧ ∀ i', i.step op = some i' → i'.Valid (op.lastQuery last) ops

/-- One operation under its precondition does not fault, and keeps the range list well-formed
and the cache invariant at the last query. -/
theorem step_spec {last : Nat} {op : Operation} (h : i.WellFormed) (hcache : i.CacheOk last)
    (hpre : i.Pre last op) :
    ∃ i', i.step op = some i' ∧ i'.WellFormed ∧ i'.CacheOk (op.lastQuery last) := by
  cases op with
  | covers position =>
    exact ⟨_, rfl, ⟨h.ranges, h.lastRange⟩, (covers_spec hcache hpre).2.2⟩
  | splitAt position newId =>
    obtain ⟨hlast, hsplitPre⟩ := hpre
    obtain ⟨i', sibling, hrun, hdead, hresult⟩ := @splitAt_spec i position newId h hsplitPre
    refine ⟨i', by simp only [step, hrun, Option.map_some], ?_⟩
    cases sibling with
    | none =>
      -- no split: the interval stays as it is
      obtain ⟨rfl, -⟩ := hdead rfl
      exact ⟨h, hcache⟩
    | some n =>
      have hresult := hresult n rfl
      exact ⟨hresult.wellFormed, hresult.cacheOk last hcache (Nat.le_of_lt hlast)⟩
  | addRange start stop =>
    exact ⟨_, rfl, (addRange_spec h hpre).1, addRange_cacheOk hcache⟩
  | addLoopRange start stop =>
    obtain ⟨i', hrun, hwf, -⟩ := addLoopRange_spec h hpre
    exact ⟨i', hrun, hwf, cacheOk_of_rangeSearchStart_eq_zero (addLoopRange_rangeSearchStart hrun) _⟩

/-- Only `Covers` is a query. -/
theorem Operation.eq_covers_of_query {op : Operation} {position : Nat}
    (hquery : op.query? = some position) : op = .covers position := by
  cases op with
  | covers position' => cases hquery; rfl
  | splitAt => cases hquery
  | addRange => cases hquery
  | addLoopRange => cases hquery

/-- An operation that is not a query adds no answer to the run. -/
theorem run_cons_of_query_eq_none {op : Operation} {ops : List Operation} {i' : LiveInterval}
    {answers : List Answer} (hquery : op.query? = none) (hstep : i.step op = some i')
    (hrun : i'.run ops = some answers) : i.run (op :: ops) = some answers := by
  simp only [run, hstep, hrun, Option.bind_eq_bind, Option.bind_some]
  cases op with
  | covers => cases hquery
  | splitAt => rfl
  | addRange => rfl
  | addLoopRange => rfl

/-- A run of operations under their preconditions does not fault, answers every query, and
answers each as `CoversSlow` would, in a well-formed interval. -/
theorem run_covers_eq_coversSlow {last : Nat} {ops : List Operation} (h : i.WellFormed)
    (hcache : i.CacheOk last) (hvalid : i.Valid last ops) :
    ∃ answers, i.run ops = some answers ∧
      answers.map Answer.position = ops.filterMap Operation.query? ∧
      ∀ answer ∈ answers, answer.interval.WellFormed ∧
        answer.covers = answer.interval.coversSlow answer.position := by
  -- the induction carries the well-formed interval and the cache invariant along the run
  induction ops generalizing i last with
  | nil => exact ⟨[], rfl, rfl, by simp⟩
  | cons op ops ih =>
    obtain ⟨hpre, hrest⟩ := hvalid
    obtain ⟨i', hstep, hwf', hcache'⟩ := step_spec h hcache hpre
    obtain ⟨answers, hrun, hqueries, hanswers⟩ := ih hwf' hcache' (hrest i' hstep)
    cases hquery : op.query? with
    | none =>
      exact ⟨answers, run_cons_of_query_eq_none hquery hstep hrun,
        by rw [List.filterMap_cons_none hquery, hqueries], hanswers⟩
    | some position =>
      -- a query: its answer goes in front of the rest
      obtain rfl := Operation.eq_covers_of_query hquery
      refine ⟨⟨i, position, (i.covers position).1⟩ :: answers, ?_, ?_, ?_⟩
      · simp only [run, hstep, hrun, Option.bind_eq_bind, Option.bind_some]
        rfl
      · rw [List.map_cons, List.filterMap_cons_some hquery, hqueries]
      · rintro answer (_ | ⟨_, member⟩)
        · exact ⟨h, (covers_spec hcache hpre).1⟩
        · exact hanswers answer member

example : (oneRange.run [.covers 12, .splitAt 15 1, .covers 16]).map (List.map Answer.covers) =
    some [true, false] := by decide

/-! ### The first intersection with the interval being allocated -/

/-- `x` is the least position both range lists cover, or `kNoLifetime` when they share none. -/
def IsFirstIntersection (myRanges otherRanges : List LiveRange) (x : Nat) : Prop :=
  FirstCommon myRanges otherRanges x ∨
    (x = kNoLifetime ∧ ∀ y, ¬ (Covered myRanges y ∧ Covered otherRanges y))

/-- Whether `x` is the first intersection depends only on the positions both lists cover. -/
theorem isFirstIntersection_congr {myRanges otherRanges myRanges' otherRanges' : List LiveRange}
    {x : Nat}
    (hcommon : ∀ y, (Covered myRanges y ∧ Covered otherRanges y) ↔
      (Covered myRanges' y ∧ Covered otherRanges' y)) :
    IsFirstIntersection myRanges otherRanges x ↔ IsFirstIntersection myRanges' otherRanges' x := by
  unfold IsFirstIntersection
  rw [firstCommon_congr hcommon]
  simp only [hcommon]

/-- The do-while loop of `FirstIntersectionWith` finds the first intersection of two
well-formed range lists. -/
theorem firstIntersectionLoop_spec {myRanges otherRanges : List LiveRange}
    (h : SpanList.WellFormed myRanges) (h' : SpanList.WellFormed otherRanges) :
    IsFirstIntersection myRanges otherRanges (firstIntersectionLoop myRanges otherRanges) := by
  fun_induction firstIntersectionLoop myRanges otherRanges with
  | case1 myRange myRest otherRange otherRest hbefore ih =>
    -- `my_range` ends before `other_range` starts: it covers nothing `current` covers
    have hstop : myRange.stop ≤ otherRange.start := of_decide_eq_true hbefore
    rw [isFirstIntersection_congr fun _ => common_cons_iff_of_stop_le h' hstop]
    exact ih h.of_cons h'
  | case2 myRange myRest otherRange otherRest hnot hafter ih =>
    have hstop : otherRange.stop ≤ myRange.start := of_decide_eq_true hafter
    rw [isFirstIntersection_congr fun _ =>
      and_comm.trans ((common_cons_iff_of_stop_le h hstop).trans and_comm)]
    exact ih h h'.of_cons
  | case3 myRange myRest otherRange otherRest hnot hnot' =>
    -- the two ranges overlap
    exact .inl (firstCommon_of_overlap h h' (fun hle => hnot (decide_eq_true hle))
      (fun hle => hnot' (decide_eq_true hle)))
  | case4 myRanges otherRanges hnone =>
    -- one of the lists is used up: nothing is left to intersect
    refine .inr ⟨rfl, fun y ⟨covered, covered'⟩ => ?_⟩
    rcases myRanges with _ | ⟨myRange, myRest⟩
    · exact not_covered_nil y covered
    rcases otherRanges with _ | ⟨otherRange, otherRest⟩
    · exact not_covered_nil y covered'
    exact hnone myRange myRest otherRange otherRest rfl rfl

/-- `FirstIntersectionWith(current)` finds the first intersection with `current` when every range
before the search cache ends at or before `current` starts. -/
theorem firstIntersectionWith_spec {current : LiveInterval} {first : LiveRange}
    (h : SpanList.WellFormed i.ranges) (h' : SpanList.WellFormed current.ranges)
    (hfirst : first ∈ current.ranges.head?)
    (hcache : ∀ range ∈ i.ranges.take i.rangeSearchStart, range.stop ≤ first.start) :
    ∃ x, i.firstIntersectionWith current = some x ∧
      IsFirstIntersection i.ranges current.ranges x := by
  rcases hr : current.ranges with _ | ⟨otherRange, otherRest⟩
  · rw [hr] at hfirst
    cases hfirst
  rw [hr] at hfirst h'
  cases hfirst
  simp only [firstIntersectionWith, hr, Option.some.injEq, exists_eq_left']
  -- `current` covers nothing before it starts
  have hafter : ∀ y, Covered (first :: otherRest) y → first.start ≤ y := fun y covered =>
    h'.start_le_of_covered covered
  by_cases hstart : i.rangeSearchStart ≤ i.ranges.length
  · -- the walk starts at the first range that ends after `current` starts
    rw [findRangeAtOrAfter_eq hstart hcache, drop_length_takeWhile]
    refine (isFirstIntersection_congr fun y => ?_).mp (firstIntersectionLoop_spec (h.dropWhile _) h')
    exact and_congr_left fun covered' => covered_dropWhile_iff (hafter y covered')
  · -- a cache past the end: every range ends before `current` starts
    have hend : i.ranges.length ≤ findRangeAtOrAfter i.ranges first.start i.rangeSearchStart := by
      unfold findRangeAtOrAfter
      omega
    rw [List.drop_eq_nil_of_le hend]
    rw [List.take_of_length_le (by omega)] at hcache
    refine .inr ⟨by unfold firstIntersectionLoop; rfl, fun y ⟨⟨range, member, inside⟩, covered'⟩ => ?_⟩
    have hstop := hcache range member
    have hy := hafter y covered'
    have := inside.2
    omega

end Queries

end LiveInterval

end AndroidArt.Optimizing
