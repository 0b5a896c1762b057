/-
Module: AndroidArt.Runtime.StackMap
Purpose: runtime/stack_map.{h,cc} with the order compiler/optimizing/stack_map_stream.cc keeps:
  the stack map table of a `CodeInfo`, read through `BitTableBase::Get`; `StackMap::PackNativePc`
  and `UnpackNativePc`; and `CodeInfo::GetStackMapForNativePcOffset`, a `std::partition_point`
  over rows sorted by packed native pc except the catch stack maps at the end, then a scan of the
  rows at the pc.
Trusted boundary: `InstructionSet::kNone`, for which the alignment lookup aborts, is left out.
  The distance of the table's iterators is a natural number (the code's is an `int32_t`). The
  invalid row is `none`.
Main exports: InstructionSet, StackMap.Kind, getStackMapForNativePcOffset,
  getStackMapForNativePcOffset_eq_find
-/
import AndroidArt.Base.BitTable
import AndroidArt.Lib.PartitionPoint
import Mathlib.Data.List.Find

namespace AndroidArt.Runtime

open AndroidArt.Lib AndroidArt.Base

/-- `InstructionSet`, but `kNone`. -/
inductive InstructionSet where
  | kArm
  | kArm64
  | kThumb2
  | kX86
  | kX86_64
  | kMips
  | kMips64
deriving DecidableEq, Repr

/-- `GetInstructionSetInstructionAlignment(isa)`. -/
def getInstructionSetInstructionAlignment : InstructionSet → Nat
  | .kArm | .kThumb2 => 2
  | .kArm64 => 4
  | .kX86 | .kX86_64 => 1
  | .kMips | .kMips64 => 4

theorem alignment_pos (isa : InstructionSet) : 0 < getInstructionSetInstructionAlignment isa := by
  cases isa <;> decide

namespace StackMap

/-- `StackMap::Kind`. -/
inductive Kind where
  | Default
  | Catch
  | OSR
  | Debug
deriving DecidableEq, Repr

/-- The `uint32_t` a kind is stored as. -/
def Kind.value : Kind → Nat
  | .Default => 2 ^ 32 - 1
  | .Catch => 0
  | .OSR => 1
  | .Debug => 2

/-- `BIT_TABLE_COLUMN(0, Kind)`. -/
def kKind : Nat := 0

/-- `BIT_TABLE_COLUMN(1, PackedNativePc)`. -/
def kPackedNativePc : Nat := 1

/-- `PackNativePc(native_pc, isa)`. -/
def packNativePc (nativePc : Nat) (isa : InstructionSet) : Nat :=
  nativePc / getInstructionSetInstructionAlignment isa

/-- `UnpackNativePc(packed_native_pc, isa)`: a `uint32_t` product. -/
def unpackNativePc (packedNativePc : Nat) (isa : InstructionSet) : Nat :=
  packedNativePc * getInstructionSetInstructionAlignment isa % 2 ^ 32

end StackMap

open StackMap

/-! ### The search -/

section Search

variable (numRows : Nat) (get : Nat → Nat → Nat) (isa : InstructionSet)

/-- `GetKind()` of a row. -/
def getKind (row : Nat) : Nat := get row kKind

/-- `GetPackedNativePc()` of a row. -/
def getPackedNativePc (row : Nat) : Nat := get row kPackedNativePc

/-- `GetNativePcOffset(isa)` of a row. -/
def getNativePcOffset (row : Nat) : Nat := unpackNativePc (getPackedNativePc get row) isa

/-- The predicate of `BinarySearchNativePc`: a row before the packed pc that is not a catch
stack map. -/
def beforeNativePc (packedPc row : Nat) : Bool :=
  decide (getPackedNativePc get row < packedPc) && getKind get row != Kind.Catch.value

/-- `BinarySearchNativePc(packed_pc)`. -/
def binarySearchNativePc (packedPc : Nat) : Nat :=
  partitionPoint (beforeNativePc get packedPc) 0 numRows

/-- The loop of `GetStackMapForNativePcOffset` from `row` on: over the rows at the pc, the first
Default or OSR stack map. -/
def scanNativePc (pc : Nat) (row : Nat) : Option Nat :=
  if row < numRows ∧ getNativePcOffset get isa row = pc then
    if getKind get row = Kind.Default.value ∨ getKind get row = Kind.OSR.value then some row
    else scanNativePc pc (row + 1)
  else none
termination_by numRows - row

/-- `GetStackMapForNativePcOffset(pc, isa)`; `none` is the invalid row. -/
def getStackMapForNativePcOffset (pc : Nat) : Option Nat :=
  scanNativePc numRows get isa pc (binarySearchNativePc numRows get (packNativePc pc isa))

/-- A stack map the search is after: Default or OSR, at the native pc `pc`. -/
def isStackMapAt (pc row : Nat) : Bool :=
  (getKind get row = Kind.Default.value || getKind get row = Kind.OSR.value) &&
    getNativePcOffset get isa row = pc

end Search

/-! ### The order of the stream -/

/-- What `BeginStackMapEntry` checks of a stack map against the one before it: nothing but
catch stack maps follows a catch stack map, and the others come in order of packed native pc. -/
def BeginOrder (kind packedPc next nextPacked : Nat) : Prop :=
  (kind = Kind.Catch.value → next = Kind.Catch.value) ∧
    (kind ≠ Kind.Catch.value → next ≠ Kind.Catch.value → packedPc ≤ nextPacked)

/-- Every row of the table is in the order `BeginStackMapEntry` checks after the one before. -/
def StreamOrdered (numRows : Nat) (get : Nat → Nat → Nat) : Prop :=
  ∀ row, row + 1 < numRows →
    BeginOrder (getKind get row) (getPackedNativePc get row) (getKind get (row + 1))
      (getPackedNativePc get (row + 1))

/-- Every packed pc times the alignment fits a `uint32_t`, as it does for `PackNativePc` of a
`uint32_t`. -/
def PackedFits (numRows : Nat) (get : Nat → Nat → Nat) (isa : InstructionSet) : Prop :=
  ∀ row, row < numRows → getPackedNativePc get row * getInstructionSetInstructionAlignment isa < 2 ^ 32

section Correctness

variable {numRows : Nat} {get : Nat → Nat → Nat} {isa : InstructionSet}

/-- From one stack map to any later one: a catch stack map is followed by catch stack maps only,
and a later stack map that is not a catch stack map has a packed pc at least as large.  The
induction is on the distance between the two rows. -/
theorem streamOrdered_le (hstream : StreamOrdered numRows get) :
    ∀ (d i : Nat), i + d < numRows →
      (getKind get i = Kind.Catch.value → getKind get (i + d) = Kind.Catch.value) ∧
        (getKind get (i + d) ≠ Kind.Catch.value →
          getPackedNativePc get i ≤ getPackedNativePc get (i + d))
  | 0, i, _ => ⟨id, fun _ => le_rfl⟩
  | d + 1, i, h => by
    obtain ⟨hcatch, hpacked⟩ := streamOrdered_le hstream d i (by omega)
    obtain ⟨hnext, hle⟩ := hstream (i + d) (by omega)
    rw [← Nat.add_assoc]
    refine ⟨fun hi => hnext (hcatch hi), fun hlast => ?_⟩
    -- the row before a stack map that is not a catch stack map is not one either
    have hprev : getKind get (i + d) ≠ Kind.Catch.value := fun h => hlast (hnext h)
    exact le_trans (hpacked hprev) (hle hprev hlast)

/-- In the stream's order the predicate of the binary search holds on a prefix of the table. -/
theorem prefixHolds_beforeNativePc (hstream : StreamOrdered numRows get) (packedPc : Nat) :
    PrefixHolds (beforeNativePc get packedPc) 0 numRows := by
  intro i j _ hij hj hbefore
  simp only [beforeNativePc, Bool.and_eq_true, decide_eq_true_eq, bne_iff_ne, ne_eq] at hbefore ⊢
  obtain ⟨hcatch, hpacked⟩ := streamOrdered_le hstream (j - i) i (by omega)
  rw [Nat.add_sub_cancel' hij] at hcatch hpacked
  exact ⟨lt_of_le_of_lt (hpacked hbefore.2) hbefore.1, fun hi => hbefore.2 (hcatch hi)⟩

/-- A packed pc that fits unpacks to the pc exactly when it is the packed pc. -/
theorem unpackNativePc_eq_iff (pc packedPc : Nat)
    (hfits : packedPc * getInstructionSetInstructionAlignment isa < 2 ^ 32)
    (haligned : pc % getInstructionSetInstructionAlignment isa = 0) :
    unpackNativePc packedPc isa = pc ↔ packedPc = packNativePc pc isa := by
  have hpos := alignment_pos isa
  have hpc : pc = packNativePc pc isa * getInstructionSetInstructionAlignment isa := by
    have := Nat.div_add_mod pc (getInstructionSetInstructionAlignment isa)
    rw [packNativePc]
    rw [haligned, Nat.add_zero] at this
    rw [Nat.mul_comm] at this
    exact this.symm
  rw [unpackNativePc, Nat.mod_eq_of_lt hfits]
  constructor
  · intro h
    rw [hpc] at h
    exact Nat.eq_of_mul_eq_mul_right hpos h
  · intro h
    rw [h, ← hpc]

/-- Under a packed pc that fits, the stack map is at a smaller pc. -/
theorem unpackNativePc_ne_of_lt {pc packedPc : Nat}
    (hfits : packedPc * getInstructionSetInstructionAlignment isa < 2 ^ 32)
    (haligned : pc % getInstructionSetInstructionAlignment isa = 0)
    (hlt : packedPc < packNativePc pc isa) : unpackNativePc packedPc isa ≠ pc := by
  rw [Ne, unpackNativePc_eq_iff pc packedPc hfits haligned]
  omega

/-- The scan from a row past which every stack map the search is after lies in the run of rows
at the pc: it returns the first of them.  The induction is on the rows left. -/
theorem scanNativePc_eq_find (pc : Nat) :
    ∀ (k row : Nat), numRows - row = k →
      (∀ j, row ≤ j → j < numRows → isStackMapAt get isa pc j = true →
        ∀ i, row ≤ i → i ≤ j → getNativePcOffset get isa i = pc) →
      scanNativePc numRows get isa pc row =
        (List.range' row (numRows - row)).find? (isStackMapAt get isa pc)
  | 0, row, hk, _ => by
    rw [scanNativePc, if_neg (by omega), hk]
    rfl
  | k + 1, row, hk, hreach => by
    rw [scanNativePc, show numRows - row = (numRows - row - 1) + 1 by omega, List.range'_succ,
      List.find?_cons]
    by_cases hpc : getNativePcOffset get isa row = pc
    · rw [if_pos ⟨by omega, hpc⟩]
      by_cases hkind : getKind get row = Kind.Default.value ∨ getKind get row = Kind.OSR.value
      · have hat : isStackMapAt get isa pc row = true := by
          simpa [isStackMapAt, hpc] using hkind
        rw [if_pos hkind, hat]
      · -- not the kind the search is after: go on with the next row
        have hat : isStackMapAt get isa pc row = false := by
          simpa [isStackMapAt, hpc] using hkind
        rw [if_neg hkind, hat, show numRows - row - 1 = numRows - (row + 1) by omega]
        exact scanNativePc_eq_find pc k (row + 1) (by omega)
          fun j hj hjn hjat i hi hij => hreach j (by omega) hjn hjat i (by omega) hij
    · -- the run of rows at the pc ends here, and with it every row the search is after
      rw [if_neg (fun h => hpc h.2)]
      have hat : isStackMapAt get isa pc row = false := by simp [isStackMapAt, hpc]
      rw [hat]
      symm
      rw [List.find?_eq_none]
      intro j hj hjat
      rw [List.mem_range'_1] at hj
      exact hpc (hreach j (by omega) (by omega) hjat row le_rfl (by omega))

/-- `GetStackMapForNativePcOffset` returns the first Default or OSR stack map at the pc, and the
invalid row when there is none: below the partition point every row lies before the pc, and from
it on every row the search is after lies in the run of rows at the pc. -/
theorem getStackMapForNativePcOffset_eq_find (hstream : StreamOrdered numRows get)
    (hfits : PackedFits numRows get isa) {pc : Nat}
    (haligned : pc % getInstructionSetInstructionAlignment isa = 0) :
    getStackMapForNativePcOffset numRows get isa pc =
      (List.range numRows).find? (isStackMapAt get isa pc) := by
  set target := packNativePc pc isa
  have hspec : IsPartitionPoint (beforeNativePc get target) 0 numRows
      (binarySearchNativePc numRows get target) :=
    partitionPoint_spec _ numRows 0 (prefixHolds_beforeNativePc hstream target)
  generalize hs : binarySearchNativePc numRows get target = s at hspec
  obtain ⟨_, hle, hbefore, hat⟩ := hspec
  rw [Nat.zero_add] at hle hat
  -- a stack map the search is after is not a catch stack map, and has the packed pc
  have hkey : ∀ j, j < numRows → isStackMapAt get isa pc j = true →
      getKind get j ≠ Kind.Catch.value ∧ getPackedNativePc get j = target := by
    intro j hj hjat
    simp only [isStackMapAt, Bool.and_eq_true, Bool.or_eq_true, decide_eq_true_eq] at hjat
    refine ⟨by rcases hjat.1 with h | h <;> rw [h] <;> decide, ?_⟩
    exact (unpackNativePc_eq_iff pc _ (hfits j hj) haligned).mp hjat.2
  -- no row below the partition point is at the pc
  have hlow : (List.range' 0 s).find? (isStackMapAt get isa pc) = none := by
    rw [List.find?_eq_none]
    intro i hi hiat
    rw [List.mem_range'_1] at hi
    have hb := hbefore i (by omega) (by omega)
    simp only [beforeNativePc, Bool.and_eq_true, decide_eq_true_eq] at hb
    have hpacked := (hkey i (by omega) hiat).2
    omega
  -- from the partition point on, a row the search is after is reached through rows at the pc
  have hreach : ∀ j, s ≤ j → j < numRows → isStackMapAt get isa pc j = true →
      ∀ i, s ≤ i → i ≤ j → getNativePcOffset get isa i = pc := by
    intro j hsj hj hjat i hsi hij
    obtain ⟨hjcatch, hjpacked⟩ := hkey j hj hjat
    obtain ⟨hcatch, hpacked⟩ := streamOrdered_le hstream (j - i) i (by omega)
    rw [Nat.add_sub_cancel' hij] at hcatch hpacked
    have hicatch : getKind get i ≠ Kind.Catch.value := fun h => hjcatch (hcatch h)
    -- the row is not before the pc, or the predicate would hold at the partition point
    have hnot : beforeNativePc get target i = false := by
      cases hb : beforeNativePc get target i with
      | false => rfl
      | true =>
        have := prefixHolds_beforeNativePc hstream target s i (Nat.zero_le _) hsi (by omega) hb
        rw [hat (by omega)] at this
        cases this
    simp only [beforeNativePc, Bool.and_eq_false_iff, decide_eq_false_iff_not, bne_eq_false_iff_eq,
      Nat.not_lt] at hnot
    have hge : target ≤ getPackedNativePc get i := hnot.resolve_right hicatch
    have hle := hpacked hjcatch
    exact (unpackNativePc_eq_iff pc _ (hfits i (by omega)) haligned).mpr (by omega)
  rw [getStackMapForNativePcOffset, hs, scanNativePc_eq_find pc _ s rfl hreach,
    List.range_eq_range', ← Nat.add_sub_cancel' hle, ← List.range'_append, List.find?_append,
    hlow, Option.none_or, Nat.add_sub_cancel' hle]
  simp

end Correctness

/-! ### The table of an encoded stream -/

/-- The value a stream put in a column of a stack map, `kNoValue` where it put none. -/
def builderGet (b : BitTableBuilder) (row column : Nat) : Nat :=
  (b.rows.getD row []).getD column kNoValue

/-- The stack maps of a stream, each begun after the one before it in the order
`BeginStackMapEntry` checks. -/
def BegunInOrder (rows : List (List Nat)) : Prop :=
  rows.IsChain fun row next =>
    BeginOrder (row.getD kKind kNoValue) (row.getD kPackedNativePc kNoValue)
      (next.getD kKind kNoValue) (next.getD kPackedNativePc kNoValue)

section Stream

variable {b : BitTableBuilder} {isa : InstructionSet}

theorem builderGet_of_lt {row : Nat} (hrow : row < b.rows.length) (column : Nat) :
    builderGet b row column = b.rows[row].getD column kNoValue := by
  rw [builderGet, List.getD_eq_getElem?_getD (l := b.rows), List.getElem?_eq_getElem hrow,
    Option.getD_some]

theorem streamOrdered_builderGet (horder : BegunInOrder b.rows) :
    StreamOrdered b.rows.length (builderGet b) := by
  intro row hrow
  rw [getKind, getKind, getPackedNativePc, getPackedNativePc, builderGet_of_lt (by omega),
    builderGet_of_lt (by omega), builderGet_of_lt hrow, builderGet_of_lt hrow]
  exact List.isChain_iff_getElem.mp horder row hrow

theorem packedFits_builderGet
    (hpacked : ∀ row ∈ b.rows, ∃ nativePc, nativePc < 2 ^ 32 ∧
      row.getD kPackedNativePc kNoValue = packNativePc nativePc isa) :
    PackedFits b.rows.length (builderGet b) isa := by
  intro row hrow
  obtain ⟨nativePc, hlt, heq⟩ := hpacked _ (List.getElem_mem hrow)
  rw [getPackedNativePc, builderGet_of_lt hrow, heq, packNativePc]
  exact lt_of_le_of_lt (Nat.div_mul_le_self _ _) hlt

/-- The decoded table reads the values the stream put in its first two columns. -/
theorem get_decode_eq_builderGet (hcolumns : b.numColumns = 8) {mem : Int → Bool}
    {r : BitMemoryReader} {rest : List Bool} (hrows : b.rows.length < 2 ^ 32)
    (hvalues : ∀ row ∈ b.rows, ∀ v ∈ row, v < 2 ^ 32) (h : Stores mem r.cursor (b.encodedBits ++ rest))
    {row column : Nat} (hrow : row < b.rows.length) (hcolumn : column < 8) :
    (BitTableBase.decode b.numColumns mem r).1.get mem row column = builderGet b row column := by
  have hv : b.rows[row].getD column kNoValue < 2 ^ 32 := by
    rw [List.getD_eq_getElem?_getD]
    cases hget : b.rows[row][column]? with
    | none => simp [kNoValue]
    | some v => exact hvalues _ (List.getElem_mem hrow) v (List.mem_of_getElem? hget)
  rw [b.get_decode hrows (by omega) h hrow (by omega) hv, builderGet_of_lt hrow]

end Stream

end AndroidArt.Runtime
