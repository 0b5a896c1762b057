/-
Module: AndroidArt.Runtime.IndirectReferenceTable
Purpose: art::IndirectReferenceTable (runtime/indirect_reference_table.h, .cc and -inl.h): the
  entries with their ring of `kIRTPrevCount` references chosen by a serial, the segment state,
  RecoverHoles, Add, Remove and Get, driven by a client that pushes frames (cookie :=
  GetSegmentState()), pops them (SetSegmentState(cookie)) and passes the cookie of its innermost
  frame to every Add and Remove.
Trusted boundary: an indirect reference is its index and serial (its kind bits are the table's,
  and the encoding is injective on the indices that fit); the handle-scope branch of Remove is
  not modelled; CHECK and DCHECK failures are those of a debug build, and a failed Get is `none`
  whether CheckJNI logs the error or aborts; MemMap::MapAnonymous gives zeroed entries and Resize
  maps its new table.
Main exports: IrtEntry, Irt, Irt.add, Irt.remove
-/
import AndroidArt.Lib.Interleaving
import Mathlib.Data.List.GetD

namespace AndroidArt.Runtime

/-- `kIRTPrevCount`: the references an entry keeps, 7 in a debug build and 3 otherwise. -/
def kIRTPrevCount (kIsDebugBuild : Bool) : Nat := if kIsDebugBuild then 7 else 3

/-- `kIRTFirstSegment`, the cookie of the base segment. -/
def kIRTFirstSegment : Nat := 0

/-- `IrtEntry`: `serial_` and `references_[kIRTPrevCount]`, `none` for a null root. The serial
is below `kIRTPrevCount` by its type, as `GetReference` DCHECKs. -/
structure IrtEntry (α : Type) (n : Nat) where
  serial : Fin n
  references : Fin n → Option α

namespace IrtEntry

variable {α : Type} {n : Nat}

/-- `GetReference()`. -/
def getReference (e : IrtEntry α n) : Option α := e.references e.serial

/-- `IrtEntry::Add`: the next serial, wrapping at `kIRTPrevCount`, holds the object. -/
def add (e : IrtEntry α n) (obj : α) : IrtEntry α n :=
  let serial : Fin n :=
    if h : e.serial.val + 1 = n then ⟨0, by have := e.serial.isLt; omega⟩
    else ⟨e.serial.val + 1, by have := e.serial.isLt; omega⟩
  { serial := serial, references := Function.update e.references serial (some obj) }

/-- `*GetReference() = GcRoot<mirror::Object>(nullptr)`. -/
def clear (e : IrtEntry α n) : IrtEntry α n :=
  { e with references := Function.update e.references e.serial none }

/-- A zeroed entry, as a fresh mapping holds. -/
def zero (hn : 0 < n) : IrtEntry α n := ⟨⟨0, hn⟩, fun _ => none⟩

end IrtEntry

/-- An indirect reference: the index and the serial that `EncodeIndirectRef` packs. -/
structure IndirectRef where
  index : Nat
  serial : Nat
deriving DecidableEq, Repr

/-- Why Add or Remove does not return normally: a table overflow or a failed resize, which
Add reports with a null reference, or a failed CHECK or DCHECK, which aborts. -/
inductive IrtError where
  /-- "table overflow" of a table that is not resizable. -/
  | tableOverflow
  /-- "Resizing failed": the doubled size exceeds `size_t` or `kMaxEntries`. -/
  | resizeFailed
  /-- `CHECK_GT(new_size, max_entries_)` in Resize. -/
  | resizeCheck
  /-- `CHECK_EQ(exp_num_holes, count)` in CheckHoleCount. -/
  | holeCountMismatch
  /-- A DCHECK of the search for a hole in Add, or a read before the table. -/
  | scanCheck
deriving DecidableEq, Repr

/-- The fields of `IndirectReferenceTable` that Add, Remove and Get use: `segment_state_`,
`table_`, `max_entries_`, `resizable_`, `last_known_previous_state_` and
`current_num_holes_`. -/
structure Irt (α : Type) (n : Nat) where
  segmentState : Nat
  table : Nat → IrtEntry α n
  maxEntries : Nat
  resizable : Bool
  lastKnownPreviousState : Nat
  currentNumHoles : Nat

namespace Irt

variable {α : Type} {n : Nat}

/-- The table as the constructor leaves it, over a zeroed mapping. -/
def create (hn : 0 < n) (maxCount : Nat) (resizable : Bool) : Irt α n where
  segmentState := kIRTFirstSegment
  table := fun _ => IrtEntry.zero hn
  maxEntries := maxCount
  resizable := resizable
  lastKnownPreviousState := kIRTFirstSegment
  currentNumHoles := 0

/-- `CountNullEntries(table, from, to)`. -/
def countNullEntries (table : Nat → IrtEntry α n) (fromIndex toIndex : Nat) : Nat :=
  ((List.range' fromIndex (toIndex - fromIndex)).filter fun index =>
    (table index).getReference = none).length

/-- `RecoverHoles(prev_state)`: the count is recomputed unless the last known previous state
lies in `[prev_state, top_index)`. -/
def recoverHoles (irt : Irt α n) (prevState : Nat) : Irt α n :=
  if irt.lastKnownPreviousState ≥ irt.segmentState ∨ irt.lastKnownPreviousState < prevState then
    { irt with
      currentNumHoles := countNullEntries irt.table prevState irt.segmentState
      lastKnownPreviousState := prevState }
  else irt

/-- `CheckHoleCount(table_, current_num_holes_, prev_state, cur_state)`. -/
def checkHoleCount (table : Nat → IrtEntry α n) (expNumHoles prevState curState : Nat) :
    Except IrtError Unit :=
  if expNumHoles = countNullEntries table prevState curState then pure ()
  else throw .holeCountMismatch

/-- `kMaxTableSizeInBytes / sizeof(IrtEntry)`, with `sizeof(IrtEntry) = (1 + kIRTPrevCount) * 4`. -/
def kMaxEntries (n : Nat) : Nat := 128 * 2 ^ 20 / ((1 + n) * 4)

/-- The growth of a full table in Add: an error for a table that is not resizable, else
`Resize(max_entries_ * 2)`. -/
def grow (irt : Irt α n) : Except IrtError (Irt α n) :=
  if !irt.resizable then throw .tableOverflow
  else if (2 ^ 64 - 1) / 2 < irt.maxEntries then throw .resizeFailed
  else if irt.maxEntries * 2 ≤ irt.maxEntries then throw .resizeCheck
  else if irt.maxEntries * 2 > kMaxEntries n then throw .resizeFailed
  else pure { irt with maxEntries := irt.maxEntries * 2 }

/-- The search for a hole in Add, from the entry `index` down:
`while (!p_scan->GetReference()->IsNull()) { DCHECK_GE(p_scan, table_ + prev); --p_scan; }`. -/
def scanHole (table : Nat → IrtEntry α n) (prevState : Nat) : Nat → Except IrtError Nat
  | 0 =>
    -- past the first entry the scan would read before the table
    if (table 0).getReference = none then pure 0 else throw .scanCheck
  | index + 1 =>
    if (table (index + 1)).getReference = none then pure (index + 1)
    else if index + 1 < prevState then throw .scanCheck
    else scanHole table prevState index

/-- `ToIndirectRef(table_index)`. -/
def toIndirectRef (irt : Irt α n) (tableIndex : Nat) : IndirectRef :=
  ⟨tableIndex, (irt.table tableIndex).serial.val⟩

/-- The test for a full table at the start of Add: `if (top_index == max_entries_)`, grow. -/
def ensureCapacity (irt : Irt α n) : Except IrtError (Irt α n) :=
  if irt.segmentState = irt.maxEntries then irt.grow else pure irt

/-- Where Add puts the object: with `current_num_holes_ > 0` the first hole below the entry
under the top, one hole fewer; otherwise the top, which moves up. -/
def findSlot (irt : Irt α n) (previousState topIndex : Nat) : Except IrtError (Irt α n × Nat) :=
  if irt.currentNumHoles > 0 then
    -- `DCHECK_GT(top_index, 1U)` and the entry below the top is in use
    if topIndex ≤ 1 ∨ (irt.table (topIndex - 1)).getReference = none then throw .scanCheck
    else (scanHole irt.table previousState (topIndex - 2)).map fun index =>
      ({ irt with currentNumHoles := irt.currentNumHoles - 1 }, index)
  else pure ({ irt with segmentState := topIndex + 1 }, topIndex)

/-- `table_[index].Add(obj)`. -/
def putAt (irt : Irt α n) (index : Nat) (obj : α) : Irt α n :=
  { irt with table := Function.update irt.table index ((irt.table index).add obj) }

/-- `Add(previous_state, obj)`. -/
def add (irt : Irt α n) (previousState : Nat) (obj : α) :
    Except IrtError (Irt α n × IndirectRef) := do
  let topIndex := irt.segmentState
  let irt ← irt.ensureCapacity
  let irt := irt.recoverHoles previousState
  checkHoleCount irt.table irt.currentNumHoles previousState irt.segmentState
  let slot ← irt.findSlot previousState topIndex
  let irt := slot.1.putAt slot.2 obj
  return (irt, irt.toIndirectRef slot.2)

/-- `CheckEntry(what, iref, idx)`: the entry's serial is the reference's. -/
def checkEntry (irt : Irt α n) (iref : IndirectRef) (idx : Nat) : Bool :=
  irt.toIndirectRef idx == iref

/-- The loop of Remove that eats the holes below a removed top entry, from
`collapse_top_index` and the hole count:
`while (--collapse_top_index > bottom_index && current_num_holes_ != 0)`. -/
def collapse (table : Nat → IrtEntry α n) (bottomIndex : Nat) : Nat → Nat → Nat × Nat
  | 0, holes => (0, holes)
  | collapseTopIndex + 1, holes =>
    if collapseTopIndex > bottomIndex ∧ holes ≠ 0 then
      if (table (collapseTopIndex - 1)).getReference ≠ none then (collapseTopIndex, holes)
      else collapse table bottomIndex collapseTopIndex (holes - 1)
    else (collapseTopIndex, holes)

/-- The branch of Remove for the top-most entry: it is cleared, and the holes below it are
eaten while any are left. -/
def removeTop (irt : Irt α n) (bottomIndex topIndex : Nat) (iref : IndirectRef) :
    Except IrtError (Irt α n × Bool) :=
  let idx := iref.index
  if !irt.checkEntry iref idx then pure (irt, false)
  else
    let table := Function.update irt.table idx (irt.table idx).clear
    if irt.currentNumHoles ≠ 0 then
      let collapsed := collapse table bottomIndex topIndex irt.currentNumHoles
      (checkHoleCount table collapsed.2 bottomIndex collapsed.1).map fun _ =>
        ({ irt with table := table, segmentState := collapsed.1, currentNumHoles := collapsed.2 },
          true)
    else pure ({ irt with table := table, segmentState := topIndex - 1 }, true)

/-- The branch of Remove for an entry below the top: it is cleared, which leaves a hole. -/
def removeHole (irt : Irt α n) (bottomIndex : Nat) (iref : IndirectRef) :
    Except IrtError (Irt α n × Bool) :=
  let idx := iref.index
  -- "WEIRD: removing null entry"
  if (irt.table idx).getReference = none then pure (irt, false)
  else if !irt.checkEntry iref idx then pure (irt, false)
  else
    let table := Function.update irt.table idx (irt.table idx).clear
    (checkHoleCount table (irt.currentNumHoles + 1) bottomIndex irt.segmentState).map fun _ =>
      ({ irt with table := table, currentNumHoles := irt.currentNumHoles + 1 }, true)

/-- `Remove(previous_state, iref)`: the table after it, and whether something was removed. -/
def remove (irt : Irt α n) (previousState : Nat) (iref : IndirectRef) :
    Except IrtError (Irt α n × Bool) :=
  let topIndex := irt.segmentState
  let bottomIndex := previousState
  let idx := iref.index
  -- "Attempt to remove index outside index area" and "Attempt to remove invalid index"
  if idx < bottomIndex then pure (irt, false)
  else if idx ≥ topIndex then pure (irt, false)
  else
    let irt := irt.recoverHoles previousState
    checkHoleCount irt.table irt.currentNumHoles previousState irt.segmentState >>= fun _ =>
      if idx = topIndex - 1 then irt.removeTop bottomIndex topIndex iref
      else irt.removeHole bottomIndex iref

/-- `GetChecked(iref)`: the index is below the top, the entry is in use and its serial is the
reference's. -/
def getChecked (irt : Irt α n) (iref : IndirectRef) : Bool :=
  iref.index < irt.segmentState && (irt.table iref.index).getReference.isSome &&
    irt.checkEntry iref iref.index

/-- `Get(iref)`, `none` for a failed check. -/
def get (irt : Irt α n) (iref : IndirectRef) : Option α :=
  if irt.getChecked iref then (irt.table iref.index).getReference else none

/-- `SetSegmentState(new_state)`. -/
def setSegmentState (irt : Irt α n) (newState : Nat) : Irt α n :=
  { irt with segmentState := newState }

end Irt

/-- What the client does next: Add or Remove with the cookie of its innermost frame, or push
or pop a frame. -/
inductive IrtOp (α : Type) where
  | add (obj : α)
  | remove (iref : IndirectRef)
  | pushFrame
  | popFrame

/-- The table, the cookies of the client's open frames, innermost first, and, as ghost state,
the references that Add returned and that were neither removed nor popped, with their
objects. -/
structure IrtClient (α : Type) (n : Nat) where
  irt : Irt α n
  frames : List Nat
  live : List (IndirectRef × α)

namespace IrtClient

variable {α : Type} {n : Nat}

/-- The cookie of the innermost frame, `kIRTFirstSegment` in the base segment. -/
def cookie (s : IrtClient α n) : Nat := s.frames.headD kIRTFirstSegment

/-- One operation of the client.  A failed Add or Remove leaves the table as it was: an
overflow returns a null reference, and a failed check, which aborts, is never reached. -/
def step (s : IrtClient α n) : IrtOp α → IrtClient α n
  | .add obj =>
    match s.irt.add s.cookie obj with
    | .ok (irt, iref) => { s with irt := irt, live := (iref, obj) :: s.live }
    | .error _ => s
  | .remove iref =>
    match s.irt.remove s.cookie iref with
    | .ok (irt, removed) =>
      { s with irt := irt, live := if removed then s.live.filter (·.1 ≠ iref) else s.live }
    | .error _ => s
  | .pushFrame => { s with frames := s.irt.segmentState :: s.frames }
  | .popFrame =>
    match s.frames with
    | [] => s
    | cookie :: frames =>
      { s with
        irt := s.irt.setSegmentState cookie
        frames := frames
        live := s.live.filter (·.1.index < cookie) }

/-- A new table with no frame pushed. -/
def init (hn : 0 < n) (maxCount : Nat) (resizable : Bool) : IrtClient α n :=
  ⟨Irt.create hn maxCount resizable, [], []⟩

end IrtClient

/-- The states that some sequence of operations reaches from a new table. -/
def IrtReachable {α : Type} {n : Nat} (hn : 0 < n) (maxCount : Nat) (resizable : Bool) :
    IrtClient α n → Prop :=
  Lib.Reachable (· = IrtClient.init hn maxCount resizable) fun s s' => ∃ op, s' = s.step op

/-! ### The entries and the null count -/

section Except

variable {ε β γ : Type}

theorem except_bind_eq_ok {x : Except ε β} {f : β → Except ε γ} {c : γ} :
    (x >>= f) = .ok c ↔ ∃ b, x = .ok b ∧ f b = .ok c := by
  cases x <;> simp [bind, Except.bind]

theorem except_bind_eq_error {x : Except ε β} {f : β → Except ε γ} {e : ε} :
    (x >>= f) = .error e ↔ x = .error e ∨ ∃ b, x = .ok b ∧ f b = .error e := by
  cases x <;> simp [bind, Except.bind]

end Except

namespace IrtEntry

variable {α : Type} {n : Nat} {e : IrtEntry α n}

@[simp] theorem getReference_add (obj : α) : (e.add obj).getReference = some obj := by
  simp [add, getReference]

@[simp] theorem getReference_clear : e.clear.getReference = none := by
  simp [clear, getReference]

@[simp] theorem serial_clear : e.clear.serial = e.serial := rfl

end IrtEntry

namespace Irt

variable {α : Type} {n : Nat} {irt irt' : Irt α n} {table table' : Nat → IrtEntry α n}
  {a b c : Nat}

@[simp] theorem countNullEntries_self : countNullEntries table a a = 0 := by
  simp [countNullEntries]

theorem countNullEntries_succ (table : Nat → IrtEntry α n) (h : a ≤ b) :
    countNullEntries table a (b + 1) =
      countNullEntries table a b + if (table b).getReference = none then 1 else 0 := by
  unfold countNullEntries
  rw [show b + 1 - a = b - a + 1 by omega, List.range'_1_concat, List.filter_append,
    List.length_append, show a + (b - a) = b by omega]
  split <;> simp [*]

/-- The count sees only whether the entries of the range are null. -/
theorem countNullEntries_congr
    (h : ∀ i, a ≤ i → i < b → ((table' i).getReference = none ↔ (table i).getReference = none)) :
    countNullEntries table' a b = countNullEntries table a b := by
  unfold countNullEntries
  congr 1
  apply List.filter_congr
  intro i hi
  have := List.mem_range'_1.mp hi
  simp only [h i (by omega) (by omega)]

/-- Replacing one entry of the range moves the count by the change in its nullness. -/
theorem countNullEntries_update (table : Nat → IrtEntry α n) {i : Nat} (e : IrtEntry α n)
    (hai : a ≤ i) (hib : i < b) :
    countNullEntries (Function.update table i e) a b +
        (if (table i).getReference = none then 1 else 0) =
      countNullEntries table a b + if e.getReference = none then 1 else 0 := by
  induction b with
  | zero => omega
  | succ b ih =>
    rw [countNullEntries_succ _ (by omega), countNullEntries_succ _ (by omega)]
    by_cases hb : i = b
    · subst hb
      have hsame : countNullEntries (Function.update table i e) a i = countNullEntries table a i :=
        countNullEntries_congr fun j _ hj => by rw [Function.update_of_ne (by omega)]
      rw [hsame, Function.update_self]
      omega
    · rw [Function.update_of_ne (Ne.symm hb)]
      have := ih (by omega)
      omega

/-- A range with no null entry counts none, and one with a null entry counts some. -/
theorem countNullEntries_pos_iff :
    0 < countNullEntries table a b ↔ ∃ i, a ≤ i ∧ i < b ∧ (table i).getReference = none := by
  unfold countNullEntries
  rw [List.length_pos_iff_exists_mem]
  constructor
  · rintro ⟨i, hi⟩
    obtain ⟨hr, hnull⟩ := List.mem_filter.mp hi
    have := List.mem_range'_1.mp hr
    exact ⟨i, by omega, by omega, by simpa using hnull⟩
  · rintro ⟨i, hai, hib, hnull⟩
    exact ⟨i, List.mem_filter.mpr ⟨List.mem_range'_1.mpr ⟨hai, by omega⟩, by simpa using hnull⟩⟩

@[simp] theorem recoverHoles_table (prevState : Nat) :
    (irt.recoverHoles prevState).table = irt.table := by
  unfold recoverHoles
  split <;> rfl

@[simp] theorem recoverHoles_segmentState (prevState : Nat) :
    (irt.recoverHoles prevState).segmentState = irt.segmentState := by
  unfold recoverHoles
  split <;> rfl

@[simp] theorem recoverHoles_maxEntries (prevState : Nat) :
    (irt.recoverHoles prevState).maxEntries = irt.maxEntries := by
  unfold recoverHoles
  split <;> rfl

/-- The search for a hole from `i` down finds the highest null entry at or below `i`, and it
does so without a failed check when there is one at or above the previous state. -/
theorem scanHole_spec (table : Nat → IrtEntry α n) {prevState i j : Nat}
    (hj : prevState ≤ j ∧ j ≤ i)
    (hnull : (table j).getReference = none) :
    ∃ k, scanHole table prevState i = .ok k ∧ prevState ≤ k ∧ k ≤ i ∧
      (table k).getReference = none := by
  induction i with
  | zero =>
    have hj0 : j = 0 := by omega
    subst hj0
    exact ⟨0, by simp [scanHole, hnull, pure, Except.pure], hj.1, le_rfl, hnull⟩
  | succ i ih =>
    by_cases hi : (table (i + 1)).getReference = none
    · exact ⟨i + 1, by simp [scanHole, hi, pure, Except.pure], by omega, le_rfl, hi⟩
    · -- the entry is in use, so the null entry lies below it
      have hji : j ≤ i := by
        rcases Nat.lt_or_ge j (i + 1) with h | h
        · omega
        · have : j = i + 1 := by omega
          subst this
          exact absurd hnull hi
      obtain ⟨k, hk, hpk, hki, hnk⟩ := ih ⟨hj.1, hji⟩
      refine ⟨k, ?_, hpk, by omega, hnk⟩
      simp only [scanHole, hi, if_false]
      rw [if_neg (by omega), hk]

/-- The loop of Remove that eats holes stops at a top whose entry below is in use, or at the
bottom, having passed only null entries and counted off each of them. -/
theorem collapse_spec (table : Nat → IrtEntry α n) (bottomIndex collapseTopIndex holes : Nat)
    (hlt : bottomIndex < collapseTopIndex)
    (hcount : countNullEntries table bottomIndex (collapseTopIndex - 1) = holes) :
    let r := collapse table bottomIndex collapseTopIndex holes
    bottomIndex ≤ r.1 ∧ r.1 < collapseTopIndex ∧ r.2 = countNullEntries table bottomIndex r.1 ∧
      (bottomIndex < r.1 → (table (r.1 - 1)).getReference ≠ none) ∧
      ∀ i, r.1 ≤ i → i < collapseTopIndex - 1 → (table i).getReference = none := by
  induction collapseTopIndex generalizing holes with
  | zero => omega
  | succ m ih =>
    simp only [collapse, Nat.add_sub_cancel] at hcount ⊢
    by_cases hgo : m > bottomIndex ∧ holes ≠ 0
    · rw [if_pos hgo]
      by_cases hused : (table (m - 1)).getReference ≠ none
      · -- the entry below is in use: the loop breaks
        rw [if_pos hused]
        exact ⟨by omega, by omega, hcount.symm, fun _ => hused, fun i h1 h2 => by omega⟩
      · -- a hole below the top: eaten, and the loop goes on
        rw [if_neg hused]
        have hnull : (table (m - 1)).getReference = none := not_not.mp hused
        have hsucc := countNullEntries_succ table (show bottomIndex ≤ m - 1 by omega)
        rw [show m - 1 + 1 = m by omega, if_pos hnull] at hsucc
        obtain ⟨h1, h2, h3, h4, h5⟩ := ih (holes - 1) hgo.1 (by omega)
        refine ⟨h1, by omega, h3, h4, fun i hi1 hi2 => ?_⟩
        by_cases him : i = m - 1
        · rw [him]
          exact hnull
        · exact h5 i hi1 (by omega)
    · -- the bottom is reached or no hole is left: the loop stops here
      rw [if_neg hgo]
      refine ⟨by omega, by omega, hcount.symm, fun hbm => ?_, fun i h1 h2 => by omega⟩
      have hzero : countNullEntries table bottomIndex m = 0 := by omega
      intro hnull
      have := (countNullEntries_pos_iff (a := bottomIndex) (b := m)).mpr
        ⟨m - 1, by omega, by omega, hnull⟩
      omega

/-! ### A segment of the table -/

/-- What a segment `[bottom, top)` asks of the table: the cached hole count is the segment's
when the last known previous state is its bottom, and RecoverHoles recounts otherwise; and the
entry below its top is in use. -/
structure SegmentOk (irt : Irt α n) (bottom top : Nat) : Prop where
  bottom_le : bottom ≤ top
  holes : top ≤ irt.lastKnownPreviousState ∨ irt.lastKnownPreviousState < bottom ∨
    irt.lastKnownPreviousState = bottom ∧
      irt.currentNumHoles = countNullEntries irt.table bottom top
  top_used : bottom < top → (irt.table (top - 1)).getReference ≠ none

/-- After RecoverHoles for the innermost segment, the last known previous state is its bottom
and the hole count is the segment's. -/
theorem SegmentOk.recoverHoles (h : irt.SegmentOk c irt.segmentState) :
    (irt.recoverHoles c).lastKnownPreviousState = c ∧
      (irt.recoverHoles c).currentNumHoles = countNullEntries irt.table c irt.segmentState := by
  unfold Irt.recoverHoles
  split
  · exact ⟨rfl, rfl⟩
  · rename_i hkeep
    -- no recount: the last known previous state lies in the segment, so it is the bottom
    rcases h.holes with h1 | h1 | h1
    · exact absurd (Or.inl h1) hkeep
    · exact absurd (Or.inr h1) hkeep
    · exact h1

/-- A segment below the innermost one stays right when the last known previous state is at or
above its top and its top entry keeps its state. -/
theorem SegmentOk.outer (h : irt.SegmentOk b c) (hlast : c ≤ irt'.lastKnownPreviousState)
    (htop : b < c → ((irt'.table (c - 1)).getReference = none ↔
      (irt.table (c - 1)).getReference = none)) :
    irt'.SegmentOk b c where
  bottom_le := h.bottom_le
  holes := Or.inl hlast
  top_used hlt := by
    rw [Ne, htop hlt]
    exact h.top_used hlt

/-- The innermost segment after an Add or a Remove: the last known previous state is its bottom,
the count is right, and the entry below the top is in use. -/
theorem segmentOk_of_count (hle : c ≤ irt.segmentState) (hlast : irt.lastKnownPreviousState = c)
    (hholes : irt.currentNumHoles = countNullEntries irt.table c irt.segmentState)
    (htop : c < irt.segmentState → (irt.table (irt.segmentState - 1)).getReference ≠ none) :
    irt.SegmentOk c irt.segmentState :=
  ⟨hle, Or.inr (Or.inr ⟨hlast, hholes⟩), htop⟩

/-! ### Add -/

/-- Add grows only a full table, and keeps all else. -/
theorem ensureCapacity_eq_ok {irt1 : Irt α n} (hmax : irt.segmentState ≤ irt.maxEntries)
    (h : irt.ensureCapacity = .ok irt1) :
    ∃ m, irt1 = { irt with maxEntries := m } ∧ irt.segmentState < m := by
  unfold ensureCapacity at h
  split at h
  · rename_i hfull
    unfold grow at h
    split_ifs at h with h1 h2 h3 h4
    all_goals cases h
    exact ⟨irt.maxEntries * 2, rfl, by omega⟩
  · cases h
    exact ⟨irt.maxEntries, rfl, by omega⟩

/-- Where Add puts the object when the innermost segment is right after RecoverHoles: a hole of
the segment below its top entry, one hole fewer, or else the top. -/
theorem findSlot_spec (hle : c ≤ irt.segmentState)
    (hholes : irt.currentNumHoles = countNullEntries irt.table c irt.segmentState)
    (htop : c < irt.segmentState → (irt.table (irt.segmentState - 1)).getReference ≠ none) :
    ∃ slot, irt.findSlot c irt.segmentState = .ok slot ∧
      ((c ≤ slot.2 ∧ slot.2 < irt.segmentState ∧ (irt.table slot.2).getReference = none ∧
          slot.1 = { irt with currentNumHoles := irt.currentNumHoles - 1 }) ∨
        (slot.2 = irt.segmentState ∧ irt.currentNumHoles = 0 ∧
          slot.1 = { irt with segmentState := irt.segmentState + 1 })) := by
  unfold findSlot
  by_cases hpos : irt.currentNumHoles > 0
  · rw [if_pos hpos]
    -- a hole lies in the segment, below the top entry, which is in use
    obtain ⟨j, hcj, hjt, hnull⟩ := countNullEntries_pos_iff.mp (hholes ▸ hpos)
    have hused := htop (by omega)
    have hj : j ≠ irt.segmentState - 1 := fun h => hused (h ▸ hnull)
    rw [if_neg (not_or.mpr ⟨by omega, hused⟩)]
    obtain ⟨k, hk, hck, hkt, hnk⟩ := scanHole_spec irt.table
      (⟨hcj, by omega⟩ : c ≤ j ∧ j ≤ irt.segmentState - 2) hnull
    rw [hk]
    exact ⟨_, rfl, Or.inl ⟨hck, show k < irt.segmentState by omega, hnk, rfl⟩⟩
  · rw [if_neg hpos]
    exact ⟨_, rfl, Or.inr ⟨rfl, by omega, rfl⟩⟩

/-- What an Add that returns did to a table whose innermost segment `[c, top)` is right: it put
the object in a hole of the segment or at its top, which it moved up, and left the segment
right. -/
structure AddSpec (irt : Irt α n) (c : Nat) (obj : α) (irt' : Irt α n) (r : IndirectRef) :
    Prop where
  cookie_le : c ≤ r.index
  index_le : r.index ≤ irt.segmentState
  hole : r.index < irt.segmentState → (irt.table r.index).getReference = none
  ref_eq : irt'.toIndirectRef r.index = r
  table_eq : irt'.table = Function.update irt.table r.index ((irt.table r.index).add obj)
  segmentState_eq : irt'.segmentState =
    if r.index < irt.segmentState then irt.segmentState else irt.segmentState + 1
  last_eq : irt'.lastKnownPreviousState = c
  holes_eq : irt'.currentNumHoles = countNullEntries irt'.table c irt'.segmentState
  top_lt : irt.segmentState < irt'.maxEntries

@[simp] theorem toIndirectRef_index (tableIndex : Nat) :
    (irt.toIndirectRef tableIndex).index = tableIndex := rfl

@[simp] theorem putAt_table (index : Nat) (obj : α) :
    (irt.putAt index obj).table = Function.update irt.table index ((irt.table index).add obj) :=
  rfl
@[simp] theorem putAt_segmentState (index : Nat) (obj : α) :
    (irt.putAt index obj).segmentState = irt.segmentState := rfl
@[simp] theorem putAt_maxEntries (index : Nat) (obj : α) :
    (irt.putAt index obj).maxEntries = irt.maxEntries := rfl
@[simp] theorem putAt_lastKnownPreviousState (index : Nat) (obj : α) :
    (irt.putAt index obj).lastKnownPreviousState = irt.lastKnownPreviousState := rfl
@[simp] theorem putAt_currentNumHoles (index : Nat) (obj : α) :
    (irt.putAt index obj).currentNumHoles = irt.currentNumHoles := rfl

theorem add_eq_ok (hseg : irt.SegmentOk c irt.segmentState)
    (hmax : irt.segmentState ≤ irt.maxEntries) {obj : α} {r : IndirectRef}
    (h : irt.add c obj = .ok (irt', r)) : AddSpec irt c obj irt' r := by
  unfold add at h
  obtain ⟨irt1, hcap, h⟩ := except_bind_eq_ok.mp h
  obtain ⟨m, rfl, hm⟩ := ensureCapacity_eq_ok hmax hcap
  -- RecoverHoles makes the count the segment's
  have hseg1 : ({ irt with maxEntries := m } : Irt α n).SegmentOk c irt.segmentState :=
    ⟨hseg.1, hseg.2, hseg.3⟩
  obtain ⟨hlast, hholes⟩ := hseg1.recoverHoles
  have htable : (({ irt with maxEntries := m } : Irt α n).recoverHoles c).table = irt.table :=
    recoverHoles_table c
  have htop : (({ irt with maxEntries := m } : Irt α n).recoverHoles c).segmentState =
    irt.segmentState := recoverHoles_segmentState c
  have hmax2 : (({ irt with maxEntries := m } : Irt α n).recoverHoles c).maxEntries = m :=
    recoverHoles_maxEntries c
  generalize hirt2 : ({ irt with maxEntries := m } : Irt α n).recoverHoles c = irt2 at *
  obtain ⟨u, -, h⟩ := except_bind_eq_ok.mp h
  obtain ⟨slot, hslot, h⟩ := except_bind_eq_ok.mp h
  dsimp only at hholes
  obtain ⟨slot', hslot', hcases⟩ := findSlot_spec
    (by rw [htop]; exact hseg.bottom_le : c ≤ irt2.segmentState)
    (by rw [htop, htable]; exact hholes) (by rw [htop, htable]; exact hseg.top_used)
  rw [htop] at hslot' hcases
  rw [hslot'] at hslot
  obtain rfl : slot' = slot := Except.ok.inj hslot
  cases h
  obtain ⟨irt3, index⟩ := slot'
  rcases hcases with ⟨hc, hlt, hnull, rfl⟩ | ⟨rfl, hzero, rfl⟩
  · -- a hole of the segment, now in use: one hole fewer
    rw [htable] at hnull
    have hcount := countNullEntries_update irt.table ((irt.table index).add obj) hc hlt
    simp only [hnull, IrtEntry.getReference_add, reduceCtorEq, if_true, if_false] at hcount
    refine ⟨hc, hlt.le, fun _ => hnull, rfl, by simp [htable], by simp [hlt], by simpa using hlast,
      ?_, by simpa [hmax2] using hm⟩
    simp only [putAt_table, putAt_currentNumHoles, putAt_segmentState, htable]
    have : 0 < countNullEntries irt.table c irt.segmentState := by
      rw [countNullEntries_pos_iff]
      exact ⟨index, hc, hlt, hnull⟩
    omega
  · -- the top, which moves up over the entry now in use
    have hsame : countNullEntries (Function.update irt.table irt.segmentState
        ((irt.table irt.segmentState).add obj)) c irt.segmentState =
        countNullEntries irt.table c irt.segmentState :=
      countNullEntries_congr fun j _ hj => by rw [Function.update_of_ne (by omega)]
    refine ⟨by simpa using hseg.bottom_le, by simp, fun h => absurd h (by simp), rfl,
      by simp [htable], by simp, by simpa using hlast, ?_, by simpa [hmax2] using hm⟩
    simp only [putAt_table, putAt_currentNumHoles, putAt_segmentState, htable]
    rw [countNullEntries_succ _ hseg.bottom_le, hsame, Function.update_self,
      IrtEntry.getReference_add]
    simp only [reduceCtorEq, if_false]
    omega

/-- Add fails only where the growth of a full table fails: CheckHoleCount and the DCHECKs of
the search for a hole pass. -/
theorem add_eq_error (hseg : irt.SegmentOk c irt.segmentState)
    (hmax : irt.segmentState ≤ irt.maxEntries) {obj : α} {e : IrtError}
    (h : irt.add c obj = .error e) : irt.ensureCapacity = .error e := by
  unfold add at h
  rcases except_bind_eq_error.mp h with h | ⟨irt1, hcap, h⟩
  · exact h
  · exfalso
    obtain ⟨m, rfl, -⟩ := ensureCapacity_eq_ok hmax hcap
    have hseg1 : ({ irt with maxEntries := m } : Irt α n).SegmentOk c irt.segmentState :=
      ⟨hseg.1, hseg.2, hseg.3⟩
    obtain ⟨-, hholes⟩ := hseg1.recoverHoles
    dsimp only at hholes
    rcases except_bind_eq_error.mp h with h | ⟨u, -, h⟩
    · -- CheckHoleCount passes
      rw [checkHoleCount, if_pos (by simpa using hholes)] at h
      cases h
    · rcases except_bind_eq_error.mp h with h | ⟨slot, -, h⟩
      · -- the slot is found
        obtain ⟨slot', hslot', -⟩ := findSlot_spec
          (by simpa using hseg.bottom_le :
            c ≤ (({ irt with maxEntries := m } : Irt α n).recoverHoles c).segmentState)
          (by simpa using hholes) (by simpa using hseg.top_used)
        simp only [recoverHoles_segmentState] at hslot'
        rw [hslot'] at h
        cases h
      · cases h

/-! ### Remove -/

/-- What a Remove that got past the range tests did to a table whose innermost segment
`[c, top)` is right: it cleared the entry of the reference if that entry is in use and has the
reference's serial, and nothing else, lowered the top over entries no longer in use, and left
the segment right. -/
structure RemoveSpec (irt : Irt α n) (c : Nat) (iref : IndirectRef) (irt' : Irt α n)
    (removed : Bool) : Prop where
  cookie_le : c ≤ iref.index
  index_lt : iref.index < irt.segmentState
  last_eq : irt'.lastKnownPreviousState = c
  segmentOk : irt'.SegmentOk c irt'.segmentState
  segmentState_le : irt'.segmentState ≤ irt.segmentState
  maxEntries_eq : irt'.maxEntries = irt.maxEntries
  table_of_ne : ∀ i, i ≠ iref.index → irt'.table i = irt.table i
  above_null : ∀ i, irt'.segmentState ≤ i → i < irt.segmentState →
    (irt'.table i).getReference = none
  removed_iff : removed = true ↔
    (irt.table iref.index).getReference ≠ none ∧ irt.toIndirectRef iref.index = iref
  cleared : removed = true → (irt'.table iref.index).getReference = none
  kept : removed = false → irt'.table = irt.table

theorem checkEntry_eq_true {iref : IndirectRef} {idx : Nat} :
    irt.checkEntry iref idx = true ↔ irt.toIndirectRef idx = iref := by
  simp [checkEntry]

/-- The table after RecoverHoles, which Remove works on, as the facts it keeps. -/
structure Recovered (irt irt2 : Irt α n) (c : Nat) : Prop where
  table_eq : irt2.table = irt.table
  segmentState_eq : irt2.segmentState = irt.segmentState
  maxEntries_eq : irt2.maxEntries = irt.maxEntries
  last_eq : irt2.lastKnownPreviousState = c
  holes_eq : irt2.currentNumHoles = countNullEntries irt.table c irt.segmentState

theorem SegmentOk.recovered (hseg : irt.SegmentOk c irt.segmentState) :
    Recovered irt (irt.recoverHoles c) c :=
  ⟨recoverHoles_table c, recoverHoles_segmentState c, recoverHoles_maxEntries c,
    hseg.recoverHoles.1, hseg.recoverHoles.2⟩

theorem Recovered.segmentOk {irt2 : Irt α n} (hrec : Recovered irt irt2 c)
    (hseg : irt.SegmentOk c irt.segmentState) : irt2.SegmentOk c irt2.segmentState := by
  refine segmentOk_of_count ?_ hrec.last_eq ?_ ?_
  · rw [hrec.segmentState_eq]
    exact hseg.bottom_le
  · rw [hrec.holes_eq, hrec.table_eq, hrec.segmentState_eq]
  · rw [hrec.table_eq, hrec.segmentState_eq]
    exact hseg.top_used

/-- A Remove that returns nothing removed keeps the recovered table. -/
theorem removeSpec_of_kept {irt2 : Irt α n} {iref : IndirectRef}
    (hseg : irt.SegmentOk c irt.segmentState) (hrec : Recovered irt irt2 c)
    (hc : c ≤ iref.index) (hlt : iref.index < irt.segmentState)
    (hnot : ¬ ((irt.table iref.index).getReference ≠ none ∧ irt.toIndirectRef iref.index = iref)) :
    RemoveSpec irt c iref irt2 false where
  cookie_le := hc
  index_lt := hlt
  last_eq := hrec.last_eq
  segmentOk := hrec.segmentOk hseg
  segmentState_le := hrec.segmentState_eq.le
  maxEntries_eq := hrec.maxEntries_eq
  table_of_ne i _ := by rw [hrec.table_eq]
  above_null i h1 h2 := by rw [hrec.segmentState_eq] at h1; omega
  removed_iff := by simp only [Bool.false_eq_true, false_iff]; exact hnot
  cleared h := by cases h
  kept _ := hrec.table_eq

theorem toIndirectRef_congr {irt2 : Irt α n} (h : irt2.table = irt.table) (i : Nat) :
    irt2.toIndirectRef i = irt.toIndirectRef i := by
  simp [toIndirectRef, h]

/-- Remove of the top entry: its serial is checked, it is cleared, and the holes below it are
eaten. -/
theorem removeTop_spec {irt2 : Irt α n} {iref : IndirectRef}
    (hseg : irt.SegmentOk c irt.segmentState) (hrec : Recovered irt irt2 c)
    (hc : c ≤ iref.index) (htop : iref.index = irt.segmentState - 1)
    (hlt : iref.index < irt.segmentState) :
    ∃ r, irt2.removeTop c irt.segmentState iref = .ok r ∧ RemoveSpec irt c iref r.1 r.2 := by
  have hused : (irt.table iref.index).getReference ≠ none := by
    rw [htop]
    exact hseg.top_used (by omega)
  unfold removeTop
  by_cases hcheck : irt2.checkEntry iref iref.index = true
  · have href : irt.toIndirectRef iref.index = iref := by
      rw [← toIndirectRef_congr hrec.table_eq]
      exact checkEntry_eq_true.mp hcheck
    rw [if_neg (by simp [hcheck])]
    -- the entries below the cleared top keep their count
    have hbelow : countNullEntries (Function.update irt.table iref.index (irt.table iref.index).clear)
        c (irt.segmentState - 1) = countNullEntries irt.table c (irt.segmentState - 1) :=
      countNullEntries_congr fun j _ hj => by rw [Function.update_of_ne (by omega)]
    have htopcount : countNullEntries irt.table c irt.segmentState =
        countNullEntries irt.table c (irt.segmentState - 1) := by
      rw [show irt.segmentState = irt.segmentState - 1 + 1 by omega,
        countNullEntries_succ _ (by omega), Nat.add_sub_cancel, ← htop, if_neg hused]
      rfl
    rw [hrec.table_eq]
    by_cases hholes : irt2.currentNumHoles ≠ 0
    · rw [if_pos hholes]
      obtain ⟨h1, h2, h3, h4, h5⟩ := collapse_spec
        (Function.update irt.table iref.index (irt.table iref.index).clear) c irt.segmentState
        irt2.currentNumHoles (by omega) (by rw [hbelow, ← htopcount, hrec.holes_eq])
      simp only [checkHoleCount]
      rw [if_pos h3]
      refine ⟨_, rfl, ⟨hc, hlt, hrec.last_eq, ?_, h2.le, hrec.maxEntries_eq,
        fun i hi => Function.update_of_ne hi _ _, fun i hi1 hi2 => ?_, by simp [hused, href],
        fun _ => by simp, fun h => by cases h⟩⟩
      · exact segmentOk_of_count h1 hrec.last_eq h3 h4
      · -- above the new top: the holes eaten and the cleared top
        by_cases hi : i = iref.index
        · subst hi
          simp
        · exact h5 i hi1 (by omega)
    · rw [if_neg hholes]
      have hzero : countNullEntries irt.table c (irt.segmentState - 1) = 0 := by
        rw [← htopcount, ← hrec.holes_eq]
        exact not_not.mp hholes
      refine ⟨_, rfl, ⟨hc, hlt, hrec.last_eq, ?_, by simp, hrec.maxEntries_eq,
        fun i hi => Function.update_of_ne hi _ _, fun i hi1 hi2 => ?_, by simp [hused, href],
        fun _ => by simp, fun h => by cases h⟩⟩
      · refine segmentOk_of_count (by simp; omega) hrec.last_eq ?_ fun hct => ?_
        · simp only [hbelow, hzero, not_not.mp hholes]
        · -- no hole is left below the top, so the entry under it is in use
          dsimp only at hct ⊢
          rw [Function.update_of_ne (by omega)]
          intro hnull
          have := (countNullEntries_pos_iff (a := c) (b := irt.segmentState - 1)).mpr
            ⟨irt.segmentState - 1 - 1, by omega, by omega, hnull⟩
          omega
      · have hi : i = iref.index := by simp at hi1; omega
        subst hi
        simp
  · rw [if_pos (by simp [hcheck])]
    refine ⟨_, rfl, removeSpec_of_kept hseg hrec hc hlt fun h => hcheck ?_⟩
    rw [checkEntry_eq_true, toIndirectRef_congr hrec.table_eq]
    exact h.2

/-- Remove of an entry below the top: it must be in use and have the reference's serial, and
clearing it leaves one more hole. -/
theorem removeHole_spec {irt2 : Irt α n} {iref : IndirectRef}
    (hseg : irt.SegmentOk c irt.segmentState) (hrec : Recovered irt irt2 c)
    (hc : c ≤ iref.index) (hlt : iref.index < irt.segmentState - 1) :
    ∃ r, irt2.removeHole c iref = .ok r ∧ RemoveSpec irt c iref r.1 r.2 := by
  unfold removeHole
  rw [hrec.table_eq]
  by_cases hnull : (irt.table iref.index).getReference = none
  · rw [if_pos hnull]
    exact ⟨_, rfl, removeSpec_of_kept hseg hrec hc (by omega) fun h => h.1 hnull⟩
  rw [if_neg hnull]
  by_cases hcheck : irt2.checkEntry iref iref.index = true
  · have href : irt.toIndirectRef iref.index = iref := by
      rw [← toIndirectRef_congr hrec.table_eq]
      exact checkEntry_eq_true.mp hcheck
    rw [if_neg (by simp [hcheck])]
    -- the cleared entry is one more null entry of the segment
    have hcount := countNullEntries_update irt.table (irt.table iref.index).clear hc
      (by omega : iref.index < irt.segmentState)
    simp only [hnull, IrtEntry.getReference_clear, if_true, if_false] at hcount
    simp only [checkHoleCount, hrec.segmentState_eq]
    rw [if_pos (by rw [hrec.holes_eq]; omega)]
    refine ⟨_, rfl, ⟨hc, by omega, hrec.last_eq, ?_, by simp, hrec.maxEntries_eq,
      fun i hi => Function.update_of_ne hi _ _, fun i hi1 hi2 => by simp at hi1; omega,
      by simp [hnull, href], fun _ => by simp, fun h => by cases h⟩⟩
    refine segmentOk_of_count (by simpa using hseg.bottom_le) hrec.last_eq
      (by simp [hrec.holes_eq]; omega) fun hct => ?_
    -- the top entry is another one, still in use
    dsimp only at hct ⊢
    rw [Function.update_of_ne (by omega)]
    exact hseg.top_used hct
  · rw [if_pos (by simp [hcheck])]
    refine ⟨_, rfl, removeSpec_of_kept hseg hrec hc (by omega) fun h => hcheck ?_⟩
    rw [checkEntry_eq_true, toIndirectRef_congr hrec.table_eq]
    exact h.2

/-- Remove from a table whose innermost segment is right always returns: it does nothing for a
reference outside the segment, and otherwise does what `RemoveSpec` says. -/
theorem remove_spec (hseg : irt.SegmentOk c irt.segmentState) (iref : IndirectRef) :
    ∃ r, irt.remove c iref = .ok r ∧
      ((r = (irt, false) ∧ (iref.index < c ∨ irt.segmentState ≤ iref.index)) ∨
        RemoveSpec irt c iref r.1 r.2) := by
  unfold remove
  by_cases hlo : iref.index < c
  · rw [if_pos hlo]
    exact ⟨_, rfl, Or.inl ⟨rfl, Or.inl hlo⟩⟩
  rw [if_neg hlo]
  by_cases hhi : iref.index ≥ irt.segmentState
  · rw [if_pos hhi]
    exact ⟨_, rfl, Or.inl ⟨rfl, Or.inr hhi⟩⟩
  rw [if_neg hhi]
  have hrec := hseg.recovered
  -- CheckHoleCount passes after RecoverHoles
  simp only [checkHoleCount]
  rw [if_pos (by rw [hrec.holes_eq, hrec.table_eq, hrec.segmentState_eq])]
  simp only [pure, Except.pure, bind, Except.bind]
  split
  · rename_i htop
    obtain ⟨r, hr, hspec⟩ := removeTop_spec hseg hrec (by omega) htop (by omega)
    exact ⟨r, hr, Or.inr hspec⟩
  · obtain ⟨r, hr, hspec⟩ := removeHole_spec hseg hrec (Nat.le_of_not_lt hlo)
      (by omega : iref.index < irt.segmentState - 1)
    exact ⟨r, hr, Or.inr hspec⟩

end Irt

namespace IrtClient

variable {α : Type} {n : Nat}

open Irt

/-- The segments of the open frames, innermost first: a frame's cookie is its bottom, and the
cookie of the frame opened in it, or the top index for the innermost frame, its top. -/
def segments (topIndex : Nat) : List Nat → List (Nat × Nat)
  | [] => [(kIRTFirstSegment, topIndex)]
  | cookie :: frames => (cookie, topIndex) :: segments cookie frames

/-- The invariant of every sequence of operations: each segment is right, the top is within
the table, and each live reference names an entry below the top that holds its object under its
serial. -/
structure Inv (s : IrtClient α n) : Prop where
  segments_ok : ∀ seg ∈ segments s.irt.segmentState s.frames, s.irt.SegmentOk seg.1 seg.2
  top_le : s.irt.segmentState ≤ s.irt.maxEntries
  live_ok : ∀ p ∈ s.live, p.1.index < s.irt.segmentState ∧
    s.irt.toIndirectRef p.1.index = p.1 ∧ (s.irt.table p.1.index).getReference = some p.2

/-- The segments below the innermost one. -/
def outerSegments : List Nat → List (Nat × Nat)
  | [] => []
  | cookie :: frames => segments cookie frames

theorem segments_eq (topIndex : Nat) (frames : List Nat) :
    segments topIndex frames =
      (frames.headD kIRTFirstSegment, topIndex) :: outerSegments frames := by
  cases frames <;> rfl

/-- Every segment of the frames below `topIndex` ends at or under it. -/
theorem segments_top_le {topIndex : Nat} {frames : List Nat}
    (h : ∀ seg ∈ segments topIndex frames, seg.1 ≤ seg.2) :
    ∀ seg ∈ segments topIndex frames, seg.2 ≤ topIndex := by
  induction frames generalizing topIndex with
  | nil => simp [segments]
  | cons cookie frames ih =>
    intro seg hseg
    rcases List.mem_cons.mp hseg with rfl | hseg
    · exact le_rfl
    · have hc := h (cookie, topIndex) List.mem_cons_self
      have := ih (fun seg hs => h seg (List.mem_cons_of_mem _ hs)) seg hseg
      exact this.trans hc

/-- The segments below the innermost one end at or under its cookie. -/
theorem outerSegments_top_le {frames : List Nat}
    (h : ∀ seg ∈ outerSegments frames, seg.1 ≤ seg.2) :
    ∀ seg ∈ outerSegments frames, seg.2 ≤ frames.headD kIRTFirstSegment := by
  cases frames with
  | nil => simp [outerSegments]
  | cons cookie frames => exact segments_top_le h

theorem Inv.innermost {s : IrtClient α n} (hi : s.Inv) :
    s.irt.SegmentOk s.cookie s.irt.segmentState :=
  hi.segments_ok _ (by rw [segments_eq]; exact List.mem_cons_self)

theorem Inv.outer {s : IrtClient α n} (hi : s.Inv) {seg : Nat × Nat}
    (hseg : seg ∈ outerSegments s.frames) : s.irt.SegmentOk seg.1 seg.2 ∧ seg.2 ≤ s.cookie := by
  have hmem : ∀ seg ∈ outerSegments s.frames, seg ∈ segments s.irt.segmentState s.frames :=
    fun seg hseg => by rw [segments_eq]; exact List.mem_cons_of_mem _ hseg
  exact ⟨hi.segments_ok seg (hmem seg hseg),
    outerSegments_top_le (fun x hx => (hi.segments_ok x (hmem x hx)).bottom_le) seg hseg⟩

/-- An Add or a Remove that leaves the innermost segment right, keeps the entries below the
cookie and makes the cookie the last known previous state keeps every segment right. -/
theorem segments_ok_of_inner {s : IrtClient α n} (hi : s.Inv) {irt' : Irt α n}
    (hinner : irt'.SegmentOk s.cookie irt'.segmentState)
    (hlast : irt'.lastKnownPreviousState = s.cookie)
    (hbelow : ∀ i < s.cookie, irt'.table i = s.irt.table i) :
    ∀ seg ∈ segments irt'.segmentState s.frames, irt'.SegmentOk seg.1 seg.2 := by
  intro seg hseg
  rw [segments_eq] at hseg
  rcases List.mem_cons.mp hseg with rfl | hseg
  · exact hinner
  · obtain ⟨hold, htop⟩ := hi.outer hseg
    exact hold.outer (by rw [hlast]; exact htop) fun hlt => by rw [hbelow _ (by omega)]

/-- A live reference keeps its entry when the entry is untouched and the top stays above it. -/
theorem live_ok_of_table {s : IrtClient α n} {irt' : Irt α n} {p : IndirectRef × α}
    (hp : p.1.index < s.irt.segmentState ∧ s.irt.toIndirectRef p.1.index = p.1 ∧
      (s.irt.table p.1.index).getReference = some p.2)
    (htable : irt'.table p.1.index = s.irt.table p.1.index)
    (htop : p.1.index < irt'.segmentState) :
    p.1.index < irt'.segmentState ∧ irt'.toIndirectRef p.1.index = p.1 ∧
      (irt'.table p.1.index).getReference = some p.2 :=
  ⟨htop, by rw [← hp.2.1]; simp [toIndirectRef, htable], by rw [htable]; exact hp.2.2⟩

theorem Inv.add {s : IrtClient α n} (hi : s.Inv) (obj : α) : (s.step (.add obj)).Inv := by
  simp only [step]
  split
  · rename_i irt' r hadd
    have hspec := add_eq_ok hi.innermost hi.top_le hadd
    have hc := hspec.cookie_le
    -- the entries other than the one filled keep their state
    have hother : ∀ i, i ≠ r.index → irt'.table i = s.irt.table i := fun i hi =>
      by rw [hspec.table_eq, Function.update_of_ne hi]
    have hnew : (irt'.table r.index).getReference = some obj := by
      rw [hspec.table_eq, Function.update_self, IrtEntry.getReference_add]
    have hused : ∀ p ∈ s.live, p.1.index ≠ r.index := by
      intro p hp heq
      have hlive := hi.live_ok p hp
      by_cases hlt : r.index < s.irt.segmentState
      · rw [heq, hspec.hole hlt] at hlive
        exact absurd hlive.2.2 (by simp)
      · omega
    have htop' : s.irt.segmentState ≤ irt'.segmentState := by
      rw [hspec.segmentState_eq]
      split <;> omega
    refine ⟨segments_ok_of_inner hi ?_ hspec.last_eq fun i (hlt : i < s.cookie) =>
      hother i (by omega), ?_, ?_⟩
    · show irt'.SegmentOk s.cookie irt'.segmentState
      refine segmentOk_of_count (by have := hi.innermost.bottom_le; omega) hspec.last_eq
        hspec.holes_eq fun hct => ?_
      rw [hspec.segmentState_eq]
      by_cases hlt : r.index < s.irt.segmentState
      · -- a hole was filled: the top entry is another one, still in use
        rw [if_pos hlt]
        have htopused := hi.innermost.top_used (by omega)
        have hne : s.irt.segmentState - 1 ≠ r.index := fun h => htopused (h ▸ hspec.hole hlt)
        rw [hother _ hne]
        exact htopused
      · -- the new top entry holds the object
        rw [if_neg hlt, Nat.add_sub_cancel, show s.irt.segmentState = r.index by
          have := hspec.index_le; omega, hnew]
        simp
    · have := hspec.top_lt
      show irt'.segmentState ≤ irt'.maxEntries
      rw [hspec.segmentState_eq]
      split <;> omega
    · intro p hp
      rcases List.mem_cons.mp hp with rfl | hp
      · refine ⟨?_, hspec.ref_eq, hnew⟩
        show r.index < irt'.segmentState
        have := hspec.index_le
        rw [hspec.segmentState_eq]
        split <;> omega
      · exact live_ok_of_table (hi.live_ok p hp) (hother _ (hused p hp))
          (show p.1.index < irt'.segmentState by have := (hi.live_ok p hp).1; omega)
  · exact hi

/-- A live reference other than the one removed stays live through a Remove. -/
theorem live_ok_of_removeSpec {s : IrtClient α n} {iref : IndirectRef} {irt' : Irt α n}
    {removed : Bool} (hspec : RemoveSpec s.irt s.cookie iref irt' removed) {p : IndirectRef × α}
    (hp : p.1.index < s.irt.segmentState ∧ s.irt.toIndirectRef p.1.index = p.1 ∧
      (s.irt.table p.1.index).getReference = some p.2)
    (hne : removed = true → p.1 ≠ iref) :
    p.1.index < irt'.segmentState ∧ irt'.toIndirectRef p.1.index = p.1 ∧
      (irt'.table p.1.index).getReference = some p.2 := by
  have htable : irt'.table p.1.index = s.irt.table p.1.index := by
    cases removed with
    | false => rw [hspec.kept rfl]
    | true =>
      -- the entry cleared had the removed reference's serial, so it is not this one's
      refine hspec.table_of_ne _ fun heq => hne rfl ?_
      rw [← hp.2.1, heq]
      exact ((hspec.removed_iff).mp rfl).2
  refine live_ok_of_table hp htable ?_
  by_contra hge
  have := hspec.above_null _ (by omega) hp.1
  rw [htable, hp.2.2] at this
  cases this

theorem Inv.remove {s : IrtClient α n} (hi : s.Inv) (iref : IndirectRef) :
    (s.step (.remove iref)).Inv := by
  obtain ⟨⟨irt', removed⟩, hr, hcases⟩ := remove_spec hi.innermost iref
  simp only [step, hr]
  rcases hcases with ⟨hrfl, -⟩ | hspec
  · -- outside the segment: nothing removed
    cases hrfl
    exact hi
  · dsimp only at hspec
    have hbelow : ∀ i < s.cookie, irt'.table i = s.irt.table i := fun i hlt =>
      hspec.table_of_ne i (by have := hspec.cookie_le; omega)
    refine ⟨segments_ok_of_inner hi hspec.segmentOk hspec.last_eq hbelow, ?_, ?_⟩
    · show irt'.segmentState ≤ irt'.maxEntries
      have := hspec.segmentState_le
      have := hi.top_le
      rw [hspec.maxEntries_eq]
      omega
    · intro p hp
      have hp' : p ∈ s.live ∧ (removed = true → p.1 ≠ iref) := by
        cases removed
        · exact ⟨hp, fun h => by cases h⟩
        · simp only [if_true, List.mem_filter, decide_eq_true_eq] at hp
          exact ⟨hp.1, fun _ => hp.2⟩
      exact live_ok_of_removeSpec hspec (hi.live_ok p hp'.1) hp'.2

theorem Inv.pushFrame {s : IrtClient α n} (hi : s.Inv) : (s.step .pushFrame).Inv := by
  refine ⟨fun seg hseg => ?_, hi.top_le, hi.live_ok⟩
  rcases List.mem_cons.mp hseg with rfl | hseg
  · -- the new segment is empty
    exact ⟨le_rfl, by simp only [step]; omega, fun h => absurd h (lt_irrefl _)⟩
  · exact hi.segments_ok seg hseg

theorem Inv.popFrame {s : IrtClient α n} (hi : s.Inv) : (s.step .popFrame).Inv := by
  simp only [step]
  split
  · exact hi
  · rename_i cookie frames hframes
    have hle : cookie ≤ s.irt.segmentState :=
      (hi.segments_ok (cookie, s.irt.segmentState) (by rw [hframes]; exact List.mem_cons_self)).bottom_le
    refine ⟨fun seg hseg => ?_, ?_, fun p hp => ?_⟩
    · -- the segments below are those of the frame popped to, which kept their entries
      have h := hi.segments_ok seg (by rw [hframes]; exact List.mem_cons_of_mem _ hseg)
      exact ⟨h.1, h.2, h.3⟩
    · exact hle.trans hi.top_le
    · obtain ⟨hp, hlt⟩ := List.mem_filter.mp hp
      have := hi.live_ok p hp
      exact ⟨by simpa [setSegmentState] using hlt, this.2.1, this.2.2⟩

theorem Inv.step {s : IrtClient α n} (hi : s.Inv) : ∀ op, (s.step op).Inv
  | .add obj => hi.add obj
  | .remove iref => hi.remove iref
  | .pushFrame => hi.pushFrame
  | .popFrame => hi.popFrame

theorem inv_init (hn : 0 < n) (maxCount : Nat) (resizable : Bool) :
    (init (α := α) hn maxCount resizable).Inv where
  segments_ok seg hseg := by
    simp only [init, Irt.create, segments, List.mem_singleton] at hseg
    subst hseg
    exact ⟨le_rfl, Or.inl le_rfl, fun h => absurd h (lt_irrefl _)⟩
  top_le := Nat.zero_le _
  live_ok p hp := by simp [init] at hp

theorem inv_of_reachable {hn : 0 < n} {maxCount : Nat} {resizable : Bool} {s : IrtClient α n}
    (hs : IrtReachable hn maxCount resizable s) : s.Inv := by
  apply Lib.Reachable.invariant _ _ hs
  · rintro _ rfl
    exact inv_init hn maxCount resizable
  · rintro s _ hi ⟨op, rfl⟩
    exact hi.step op

/-! ### What the client sees -/

section Observations

variable {s : IrtClient α n}

/-- A live reference reads back its object. -/
theorem Inv.get_live (hi : s.Inv) {p : IndirectRef × α} (hp : p ∈ s.live) :
    s.irt.get p.1 = some p.2 := by
  obtain ⟨hlt, href, hobj⟩ := hi.live_ok p hp
  have hchecked : s.irt.getChecked p.1 = true := by
    simp [Irt.getChecked, Irt.checkEntry, hlt, hobj, href]
  unfold Irt.get
  rw [if_pos hchecked, hobj]

/-- Remove of a live reference of the innermost segment removes it, and Get of it then fails. -/
theorem Inv.remove_live_inner (hi : s.Inv) {p : IndirectRef × α} (hp : p ∈ s.live)
    (hc : s.cookie ≤ p.1.index) :
    ∃ irt', s.irt.remove s.cookie p.1 = .ok (irt', true) ∧ irt'.get p.1 = none := by
  obtain ⟨hlt, href, hobj⟩ := hi.live_ok p hp
  obtain ⟨⟨irt', removed⟩, hr, hcases⟩ := remove_spec hi.innermost p.1
  rcases hcases with ⟨_, hout⟩ | hspec
  · omega
  · dsimp only at hspec
    have hremoved : removed = true := hspec.removed_iff.mpr ⟨by simp [hobj], href⟩
    subst hremoved
    refine ⟨irt', hr, ?_⟩
    have hnull := hspec.cleared rfl
    simp [Irt.get, Irt.getChecked, hnull]

/-- Remove of a live reference of an outer segment removes nothing: the index lies below the
cookie passed. -/
theorem remove_below_cookie {iref : IndirectRef} (hc : iref.index < s.cookie) :
    s.irt.remove s.cookie iref = .ok (s.irt, false) := by
  simp [Irt.remove, hc, pure, Except.pure]

end Observations

/-- Over every sequence of Add, Remove, frame pushes and pops in which Add and Remove pass the
innermost cookie: RecoverHoles makes the hole count that of the innermost segment, so
CheckHoleCount holds; the entry below its top is in use; Add fills a slot of the segment or its
top and fails only where growing a full table fails; Remove always returns; and every reference
that Add returned and that was neither removed nor popped reads back its object, and Remove of
it with the innermost cookie removes it, after which Get fails, exactly when it lies in the
innermost segment, and otherwise removes nothing. -/
theorem irt_segments_keep_holes_and_references {hn : 0 < n} {maxCount : Nat}
    {resizable : Bool} {s : IrtClient α n} (hs : IrtReachable hn maxCount resizable s) :
    (s.irt.recoverHoles s.cookie).currentNumHoles =
        countNullEntries s.irt.table s.cookie s.irt.segmentState ∧
      (s.cookie < s.irt.segmentState →
        (s.irt.table (s.irt.segmentState - 1)).getReference ≠ none) ∧
      (∀ obj, (∀ irt' r, s.irt.add s.cookie obj = .ok (irt', r) →
          s.cookie ≤ r.index ∧ r.index ≤ s.irt.segmentState) ∧
        ∀ e, s.irt.add s.cookie obj = .error e → s.irt.ensureCapacity = .error e) ∧
      (∀ iref, ∃ r, s.irt.remove s.cookie iref = .ok r) ∧
      ∀ p ∈ s.live, s.irt.get p.1 = some p.2 ∧
        (s.cookie ≤ p.1.index →
          ∃ irt', s.irt.remove s.cookie p.1 = .ok (irt', true) ∧ irt'.get p.1 = none) ∧
        (p.1.index < s.cookie → s.irt.remove s.cookie p.1 = .ok (s.irt, false)) := by
  have hi := inv_of_reachable hs
  have hseg := hi.innermost
  refine ⟨hseg.recoverHoles.2, hseg.top_used, fun obj => ⟨fun irt' r hadd => ?_,
    fun e h => add_eq_error hseg hi.top_le h⟩, fun iref => ?_, fun p hp =>
    ⟨hi.get_live hp, hi.remove_live_inner hp, remove_below_cookie⟩⟩
  · have hspec := add_eq_ok hseg hi.top_le hadd
    exact ⟨hspec.cookie_le, hspec.index_le⟩
  · obtain ⟨r, hr, -⟩ := remove_spec hseg iref
    exact ⟨r, hr⟩

/-- A table of the release build with one object added in the base segment and a frame pushed
on it. -/
def addedThenPushed : IrtClient Nat (kIRTPrevCount false) :=
  ((init (by decide) 4 false).step (.add 7)).step .pushFrame

theorem irt_segments_after_add_and_push :
    IrtReachable (by decide) 4 false addedThenPushed ∧ addedThenPushed.irt.get ⟨0, 1⟩ = some 7 :=
  have hs : IrtReachable (by decide) 4 false addedThenPushed :=
    Lib.Reachable.step (Lib.Reachable.step (Lib.Reachable.init rfl) ⟨.add 7, rfl⟩)
      ⟨.pushFrame, rfl⟩
  ⟨hs, ((irt_segments_keep_holes_and_references hs).2.2.2.2 (⟨0, 1⟩, 7) (by decide)).1⟩

/-- The reference that Add returned in the base segment is live and reads back its object once
a frame is pushed, but Remove with the cookie of that frame refuses it. -/
theorem remove_refuses_reference_of_outer_frame :
    (⟨0, 1⟩, 7) ∈ addedThenPushed.live ∧ addedThenPushed.irt.get ⟨0, 1⟩ = some 7 ∧
      (addedThenPushed.irt.remove addedThenPushed.cookie ⟨0, 1⟩).map Prod.snd = .ok false := by
  decide

end IrtClient

end AndroidArt.Runtime
