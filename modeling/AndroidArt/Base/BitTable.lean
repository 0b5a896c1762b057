/-
Module: AndroidArt.Base.BitTable
Purpose: libartbase/base/bit_table.h: the decoded BitTableBase (Decode, Get, GetBitMemoryRegion,
  NumRowBits, NumColumnBits, Equals) and its two encoders, BitTableBuilderBase (Dedup, Measure,
  Encode), whose columns are as wide as the OR of their biased values needs, and
  BitmapTableBuilder (Dedup, Encode), one column of bitmaps cut or padded to the widest.
Trusted boundary: the rows of a BitTableBuilderBase are filled through `Lib.HashDedup`, whose
  multimap tries the candidates of a hash in the order of insertion; the hash is any function of
  the values. The column loop of Measure is taken column by column, which ORs the same values.
Main exports: BitTableBase, BitTableBase.decode, BitTableBuilder, BitTableBuilder.encode
-/
import Mathlib
import AndroidArt.Base.BitMemoryRegion
import AndroidArt.Lib.HashDedup

namespace AndroidArt.Base

open AndroidArt.Lib

/-- `kNoValue`, the uint32 `-1`. -/
def kNoValue : Nat := 2 ^ 32 - 1

/-- The bias that makes `kNoValue` the stored 0. -/
def kValueBias : Nat := kNoValue

/-- `value - kValueBias` in uint32 arithmetic. -/
def subBias (value : Nat) : Nat := (value + (2 ^ 32 - kValueBias)) % 2 ^ 32

/-- `stored + kValueBias` in uint32 arithmetic. -/
def addBias (stored : Nat) : Nat := (stored + kValueBias) % 2 ^ 32

theorem subBias_lt (value : Nat) : subBias value < 2 ^ 32 := Nat.mod_lt _ (by decide)

theorem addBias_subBias {value : Nat} (h : value < 2 ^ 32) : addBias (subBias value) = value := by
  simp only [addBias, subBias, kValueBias, kNoValue]
  omega

/-! ### Decoding -/

/-- A decoded table: its column count, the region of its rows, the row count and the column
offsets (the last one the width of a row). -/
structure BitTableBase where
  numColumns : Nat
  tableData : BitMemoryRegion
  numRows : Nat
  columnOffset : List Nat
deriving DecidableEq, Repr

namespace BitTableBase

/-- The loop of `Decode` over the column widths: each column ends a varint after the previous
one, the end cut to its `uint16_t`. -/
def readColumnOffsets (mem : Int → Bool) : Nat → Nat → BitMemoryReader → List Nat × BitMemoryReader
  | _, 0, r => ([], r)
  | prev, n + 1, r =>
    let (width, r) := r.readVarint mem
    let columnEnd := (prev + width) % 2 ^ 16
    let (rest, r) := readColumnOffsets mem columnEnd n r
    (columnEnd :: rest, r)

/-- `Decode` into a fresh table of `kNumColumns` columns, whose offsets are zero until read. -/
def decode (kNumColumns : Nat) (mem : Int → Bool) (reader : BitMemoryReader) :
    BitTableBase × BitMemoryReader :=
  let (numRows, reader) := reader.readVarint mem
  let (columnOffset, reader) :=
    if numRows ≠ 0 then
      let (ends, reader) := readColumnOffsets mem 0 kNumColumns reader
      (0 :: ends, reader)
    else (List.replicate (kNumColumns + 1) 0, reader)
  let (tableData, reader) := reader.readRegion (numRows * columnOffset.getD kNumColumns 0)
  (⟨kNumColumns, tableData, numRows, columnOffset⟩, reader)

def numRowBits (t : BitTableBase) : Nat := t.columnOffset.getD t.numColumns 0

def numColumnBits (t : BitTableBase) (column : Nat) : Nat :=
  t.columnOffset.getD (column + 1) 0 - t.columnOffset.getD column 0

def getBitMemoryRegion (t : BitTableBase) (row column : Nat) : BitMemoryRegion :=
  t.tableData.subregion (row * t.numRowBits + t.columnOffset.getD column 0) (t.numColumnBits column)

def get (mem : Int → Bool) (t : BitTableBase) (row column : Nat) : Nat :=
  addBias (t.tableData.loadBits mem (row * t.numRowBits + t.columnOffset.getD column 0)
    (t.numColumnBits column))

/-- `Equals`: the row counts, the first `kNumColumns` column offsets and the data bits agree. -/
def equals (mem : Int → Bool) (t other : BitTableBase) : Bool :=
  t.numRows == other.numRows &&
    t.columnOffset.take t.numColumns == other.columnOffset.take t.numColumns &&
    BitMemoryRegion.compare mem t.tableData other.tableData == 0

/-- The column ends `readColumnOffsets` computes from the widths. -/
def columnEnds (prev : Nat) : List Nat → List Nat
  | [] => []
  | width :: widths =>
    let columnEnd := (prev + width) % 2 ^ 16
    columnEnd :: columnEnds columnEnd widths

@[simp] theorem length_columnEnds (prev : Nat) (widths : List Nat) :
    (columnEnds prev widths).length = widths.length := by
  induction widths generalizing prev with
  | nil => rfl
  | cons w ws ih => simp [columnEnds, ih]

/-- Short of the `uint16_t` limit, the column ends are the running sums of the widths. -/
theorem columnEnds_getD {prev : Nat} {widths : List Nat} (hsum : prev + widths.sum < 2 ^ 16)
    (i : Nat) (hi : i < widths.length) :
    (columnEnds prev widths).getD i 0 = prev + (widths.take (i + 1)).sum := by
  induction widths generalizing prev i with
  | nil => simp at hi
  | cons w ws ih =>
    simp only [List.sum_cons] at hsum
    cases i with
    | zero =>
      simp only [columnEnds, List.getD_cons_zero, Nat.zero_add, List.take_succ_cons, List.take_zero,
        List.sum_cons, List.sum_nil, Nat.add_zero]
      exact Nat.mod_eq_of_lt (by omega)
    | succ i =>
      simp only [columnEnds, Nat.mod_eq_of_lt (show prev + w < 2 ^ 16 by omega),
        List.getD_cons_succ, List.take_succ_cons, List.sum_cons]
      rw [ih (by omega) i (by simpa using hi)]
      omega

/-- The last column end is the width of a row. -/
theorem getD_columnEnds_length {widths : List Nat} (hsum : widths.sum < 2 ^ 16) :
    (0 :: columnEnds 0 widths).getD widths.length 0 = widths.sum := by
  cases widths with
  | nil => rfl
  | cons w ws =>
    rw [List.length_cons, List.getD_cons_succ, columnEnds_getD (by simpa using hsum) _ (by simp),
      Nat.zero_add, List.take_of_length_le (by simp)]

variable {mem : Int → Bool} {r : BitMemoryReader}

/-- The widths' varints read back as the column ends. -/
theorem readColumnOffsets_of_stores (prev : Nat) {widths : List Nat}
    (hwidths : ∀ w ∈ widths, w < 2 ^ 32) {rest : List Bool}
    (h : Stores mem r.cursor (widths.flatMap varintBits ++ rest)) :
    readColumnOffsets mem prev widths.length r =
      (columnEnds prev widths, (r.readRegion (widths.flatMap varintBits).length).2) := by
  induction widths generalizing prev r with
  | nil => simp [readColumnOffsets, columnEnds, BitMemoryReader.readRegion, BitMemoryRegion.resize]
  | cons w ws ih =>
    simp only [List.flatMap_cons, List.append_assoc] at h
    have hw := hwidths w List.mem_cons_self
    have hrest := (stores_append.mp h).2
    rw [← BitMemoryReader.cursor_readRegion] at hrest
    simp only [List.length_cons, readColumnOffsets, BitMemoryReader.readVarint_of_stores hw h,
      ih _ (fun v hv => hwidths v (List.mem_cons_of_mem _ hv)) hrest, columnEnds,
      BitMemoryReader.readRegion_readRegion, List.flatMap_cons, List.length_append]

end BitTableBase

/-! ### Encoding rows of values -/

/-- A `BitTableBuilderBase`: rows of `kNumColumns` values, missing ones `kNoValue` as in a fresh
`Entry`. -/
structure BitTableBuilder where
  numColumns : Nat
  rows : List (List Nat)
deriving DecidableEq, Repr

namespace BitTableBuilder

/-- `Measure` of one column: the OR of its biased values. -/
def maxColumnValue (b : BitTableBuilder) (column : Nat) : Nat :=
  b.rows.foldl (fun acc row => acc ||| subBias (row.getD column kNoValue)) 0

/-- `Measure`: each column as wide as the OR of its biased values needs. -/
def measure (b : BitTableBuilder) : List Nat :=
  (List.range b.numColumns).map fun column => minimumBitsToStore (b.maxColumnValue column)

def writeRow (b : BitTableBuilder) (columnBits : List Nat) (w : BitMemoryWriter) (row : List Nat) :
    BitMemoryWriter :=
  (List.range b.numColumns).foldl
    (fun w column => w.writeBits (subBias (row.getD column kNoValue)) (columnBits.getD column 0)) w

/-- `Encode`: the row count, then, for a nonempty table, the column widths and the rows. -/
def encode (b : BitTableBuilder) (w : BitMemoryWriter) : BitMemoryWriter :=
  let columnBits := b.measure
  let w := w.writeVarint b.rows.length
  if b.rows.length ≠ 0 then
    let w := columnBits.foldl (fun w bits => w.writeVarint bits) w
    b.rows.foldl (b.writeRow columnBits) w
  else w

/-- The bits of one encoded row. -/
def rowBits (b : BitTableBuilder) (row : List Nat) : List Bool :=
  (List.range b.numColumns).flatMap fun column =>
    natBits (subBias (row.getD column kNoValue)) (b.measure.getD column 0)

def headerBits (b : BitTableBuilder) : List Bool :=
  varintBits b.rows.length ++ (if b.rows.length ≠ 0 then b.measure.flatMap varintBits else [])

def dataBits (b : BitTableBuilder) : List Bool :=
  if b.rows.length ≠ 0 then b.rows.flatMap b.rowBits else []

def encodedBits (b : BitTableBuilder) : List Bool := b.headerBits ++ b.dataBits

/-- The column offsets Decode reads back. -/
def columnOffsets (b : BitTableBuilder) : List Nat :=
  if b.rows.length ≠ 0 then 0 :: BitTableBase.columnEnds 0 b.measure
  else List.replicate (b.numColumns + 1) 0

section Lemmas

variable (b : BitTableBuilder)

@[simp] theorem length_measure : b.measure.length = b.numColumns := by simp [measure]

theorem maxColumnValue_lt (column : Nat) : b.maxColumnValue column < 2 ^ 32 := by
  unfold maxColumnValue
  -- the OR of values below `2^32` stays below it
  suffices ∀ acc, acc < 2 ^ 32 → b.rows.foldl (fun acc row => acc ||| subBias (row.getD column kNoValue)) acc < 2 ^ 32 from
    this 0 (by decide)
  induction b.rows with
  | nil => exact fun acc h => h
  | cons row rows ih => exact fun acc h => ih _ (Nat.or_lt_two_pow h (subBias_lt _))

theorem getD_measure {column : Nat} (hcolumn : column < b.numColumns) :
    b.measure.getD column 0 = minimumBitsToStore (b.maxColumnValue column) := by
  simp [measure, List.getD_eq_getElem?_getD, hcolumn]

/-- A biased value fits its column. -/
theorem subBias_lt_measure {row : List Nat} (hrow : row ∈ b.rows) {column : Nat}
    (hcolumn : column < b.numColumns) :
    subBias (row.getD column kNoValue) < 2 ^ b.measure.getD column 0 := by
  have hle : subBias (row.getD column kNoValue) ≤ b.maxColumnValue column := by
    unfold maxColumnValue
    -- the fold ORs every row's value into its accumulator
    suffices ∀ (rows : List (List Nat)) (acc : Nat), row ∈ rows ∨ subBias (row.getD column kNoValue) ≤ acc →
        subBias (row.getD column kNoValue) ≤ rows.foldl (fun acc row => acc ||| subBias (row.getD column kNoValue)) acc from
      this b.rows 0 (.inl hrow)
    intro rows
    induction rows with
    | nil => rintro acc (h | h)
             · cases h
             · exact h
    | cons row' rows ih =>
      rintro acc (h | h)
      · rcases List.mem_cons.mp h with rfl | h
        · exact ih _ (.inr Nat.right_le_or)
        · exact ih _ (.inl h)
      · exact ih _ (.inr (le_trans h Nat.left_le_or))
  rw [b.getD_measure hcolumn]
  exact lt_of_le_of_lt hle (lt_two_pow_minimumBitsToStore _)

theorem measure_lt {bits : Nat} (h : bits ∈ b.measure) : bits < 2 ^ 32 := by
  obtain ⟨column, hcolumn, rfl⟩ := List.mem_map.mp h
  have := minimumBitsToStore_le_iff.mpr (b.maxColumnValue_lt column)
  have : 32 < 2 ^ 32 := by decide
  omega

@[simp] theorem length_rowBits (row : List Nat) : (b.rowBits row).length = b.measure.sum := by
  simp only [rowBits, List.length_flatMap, length_natBits]
  -- the widths looked up column by column are the list of widths
  have hwidths : (List.range b.numColumns).map (fun column => b.measure.getD column 0) = b.measure := by
    apply List.ext_getElem (by simp)
    intro i h₁ h₂
    simp [List.getD_eq_getElem?_getD, List.getElem?_eq_getElem h₂]
  rw [hwidths]

theorem sum_measure_le : b.measure.sum ≤ 32 * b.numColumns := by
  have h := List.sum_le_card_nsmul b.measure 32 fun bits hbits => by
    obtain ⟨column, _, rfl⟩ := List.mem_map.mp hbits
    exact minimumBitsToStore_le_iff.mpr (b.maxColumnValue_lt column)
  simpa [Nat.mul_comm] using h

theorem length_dataBits : b.dataBits.length = b.rows.length * b.measure.sum := by
  unfold dataBits
  split_ifs with h
  · simp [List.length_flatMap, List.map_const']
  · simp_all

/-- `Encode` appends exactly the encoded bits. -/
theorem tidy_encode {w : BitMemoryWriter} (hw : w.Tidy) :
    (b.encode w).Tidy ∧ (b.encode w).written = w.written ++ b.encodedBits := by
  obtain ⟨hw₁, hwritten₁⟩ := BitMemoryWriter.tidy_writeVarint hw b.rows.length
  unfold encode encodedBits headerBits dataBits
  split_ifs with hrows
  · obtain ⟨hw₂, hwritten₂⟩ := BitMemoryWriter.tidy_foldl _ varintBits
      (fun w bits hw => BitMemoryWriter.tidy_writeVarint hw bits) b.measure hw₁
    -- each row writes its columns in order
    have hrow : ∀ w row, w.Tidy → (b.writeRow b.measure w row).Tidy ∧
        (b.writeRow b.measure w row).written = w.written ++ b.rowBits row := by
      intro w row hw
      exact BitMemoryWriter.tidy_foldl
        (fun w column => w.writeBits (subBias (row.getD column kNoValue)) (b.measure.getD column 0))
        (fun column => natBits (subBias (row.getD column kNoValue)) (b.measure.getD column 0))
        (fun w column hw => BitMemoryWriter.tidy_writeBits hw _ _) (List.range b.numColumns) hw
    obtain ⟨hw₃, hwritten₃⟩ := BitMemoryWriter.tidy_foldl _ _ hrow b.rows hw₂
    refine ⟨hw₃, ?_⟩
    rw [hwritten₃, hwritten₂, hwritten₁]
    simp only [List.append_assoc]
  · exact ⟨hw₁, by rw [hwritten₁, List.append_nil, List.append_nil]⟩

/-- Decode of an encoding: the row count, the column offsets, and a data region right after the
header that holds the encoded rows; the reader stops right behind the table. -/
theorem decode_encodedBits {mem : Int → Bool} {r : BitMemoryReader} {rest : List Bool}
    (hrows : b.rows.length < 2 ^ 32) (hcolumns : 32 * b.numColumns < 2 ^ 16)
    (h : Stores mem r.cursor (b.encodedBits ++ rest)) :
    let d := BitTableBase.decode b.numColumns mem r
    d.1 = ⟨b.numColumns, ((r.readRegion b.headerBits.length).2.readRegion b.dataBits.length).1,
      b.rows.length, b.columnOffsets⟩ ∧
      d.2 = (r.readRegion b.encodedBits.length).2 := by
  have hsum : b.measure.sum < 2 ^ 16 := lt_of_le_of_lt b.sum_measure_le hcolumns
  -- the row count comes first
  have hstore : Stores mem r.cursor (varintBits b.rows.length ++
      ((if b.rows.length ≠ 0 then b.measure.flatMap varintBits else []) ++ b.dataBits ++ rest)) := by
    simpa only [encodedBits, headerBits, List.append_assoc] using h
  have hcount := BitMemoryReader.readVarint_of_stores hrows hstore
  have hafter := (stores_append.mp hstore).2
  rw [← BitMemoryReader.cursor_readRegion] at hafter
  simp only [BitTableBase.decode, hcount]
  by_cases hn : b.rows.length = 0
  · -- an empty table: no widths and no rows
    simp [hn, headerBits, dataBits, columnOffsets, encodedBits, BitMemoryReader.readRegion_readRegion]
  · -- the widths read back as the column ends, whose last one is the width of a row
    simp only [hn, ne_eq, not_false_eq_true, if_true] at hafter ⊢
    rw [List.append_assoc] at hafter
    have hcols := BitTableBase.readColumnOffsets_of_stores 0 (fun _ hw => b.measure_lt hw) hafter
    rw [length_measure] at hcols
    have hrow := BitTableBase.getD_columnEnds_length hsum
    rw [length_measure] at hrow
    simp only [hcols, hrow, BitMemoryReader.readRegion_readRegion]
    simp [headerBits, columnOffsets, encodedBits, length_dataBits, hn, Nat.add_assoc]

/-- The offset of a column is the sum of the widths before it. -/
theorem getD_columnOffsets (hcolumns : 32 * b.numColumns < 2 ^ 16) (hrows : b.rows.length ≠ 0)
    {c : Nat} (hc : c ≤ b.numColumns) : b.columnOffsets.getD c 0 = (b.measure.take c).sum := by
  have hsum : 0 + b.measure.sum < 2 ^ 16 := by
    have := b.sum_measure_le
    omega
  rw [columnOffsets, if_pos hrows]
  cases c with
  | zero => rfl
  | succ c =>
    rw [List.getD_cons_succ, BitTableBase.columnEnds_getD hsum c (by simp; omega), Nat.zero_add]

/-- With no rows every column is measured zero bits wide. -/
theorem measure_of_rows_nil (hrows : b.rows = []) (c : Nat) : b.measure.getD c 0 = 0 := by
  by_cases hc : c < b.numColumns
  · simp [measure, maxColumnValue, hrows, List.getD_eq_getElem?_getD, hc, minimumBitsToStore]
  · simp [measure, List.getD_eq_getElem?_getD, hc]

/-- Every column reads back as wide as `Measure` made it. -/
theorem columnOffsets_sub (hcolumns : 32 * b.numColumns < 2 ^ 16) {c : Nat}
    (hc : c < b.numColumns) :
    b.columnOffsets.getD (c + 1) 0 - b.columnOffsets.getD c 0 = b.measure.getD c 0 := by
  by_cases hrows : b.rows.length = 0
  · rw [measure_of_rows_nil b (List.length_eq_zero_iff.mp hrows)]
    simp [columnOffsets, hrows, List.getD_eq_getElem?_getD, hc,
      show c < b.numColumns + 1 by omega]
  · have hc' : c < b.measure.length := by simpa using hc
    rw [getD_columnOffsets b hcolumns hrows hc, getD_columnOffsets b hcolumns hrows hc.le,
      List.sum_take_succ _ _ hc', List.getD_eq_getElem?_getD, List.getElem?_eq_getElem hc',
      Option.getD_some]
    omega

/-- The bits of the first `c` columns of an encoded row: as many as their widths. -/
theorem length_flatMap_range_natBits (row : List Nat) {c : Nat} (hc : c ≤ b.numColumns) :
    ((List.range c).flatMap fun column =>
      natBits (subBias (row.getD column kNoValue)) (b.measure.getD column 0)).length =
      (b.measure.take c).sum := by
  simp only [List.length_flatMap, length_natBits]
  congr 1
  apply List.ext_getElem (by simp; omega)
  intro i h₁ h₂
  simp only [List.length_map, List.length_range] at h₁
  simp [List.getD_eq_getElem?_getD, List.getElem?_eq_getElem (show i < b.measure.length by simp; omega)]

/-- An encoded row is its first `c` columns, then column `c`, then the others. -/
theorem rowBits_eq_append (row : List Nat) {c : Nat} (hc : c < b.numColumns) :
    ∃ more, b.rowBits row = ((List.range c).flatMap fun column =>
      natBits (subBias (row.getD column kNoValue)) (b.measure.getD column 0)) ++
        (natBits (subBias (row.getD c kNoValue)) (b.measure.getD c 0) ++ more) := by
  obtain ⟨k, hk⟩ : ∃ k, b.numColumns = c + (k + 1) := ⟨b.numColumns - c - 1, by omega⟩
  refine ⟨(List.range' (c + 1) k).flatMap fun column =>
    natBits (subBias (row.getD column kNoValue)) (b.measure.getD column 0), ?_⟩
  rw [rowBits, hk, List.range_eq_range', ← List.range'_append, List.range'_succ,
    List.flatMap_append, List.flatMap_cons, List.range_eq_range']
  simp

/-- `Get` of the decoded table returns every value that was encoded. -/
theorem get_decode {mem : Int → Bool} {r : BitMemoryReader} {rest : List Bool}
    (hrows : b.rows.length < 2 ^ 32) (hcolumns : 32 * b.numColumns < 2 ^ 16)
    (h : Stores mem r.cursor (b.encodedBits ++ rest)) {i c : Nat} (hi : i < b.rows.length)
    (hc : c < b.numColumns) (hv : b.rows[i].getD c kNoValue < 2 ^ 32) :
    (BitTableBase.decode b.numColumns mem r).1.get mem i c = b.rows[i].getD c kNoValue := by
  have hn : b.rows.length ≠ 0 := by omega
  -- the rows are stored right after the header, one after another
  have hdata : Stores mem (r.cursor + b.headerBits.length) (b.rows.flatMap b.rowBits ++ rest) := by
    rw [encodedBits, List.append_assoc] at h
    simpa [dataBits, hn] using (stores_append.mp h).2
  have hrow := stores_flatMap_getElem (fun row _ => b.length_rowBits row) hdata i hi
  obtain ⟨more, hsplit⟩ := b.rowBits_eq_append b.rows[i] hc
  rw [hsplit] at hrow
  have hcol := (stores_append.mp hrow).2
  rw [b.length_flatMap_range_natBits _ hc.le] at hcol
  have hbits := memBits_of_stores hcol
  rw [length_natBits] at hbits
  have hfit := b.subBias_lt_measure (List.getElem_mem hi) hc
  simp only [BitTableBase.get, BitTableBase.numRowBits, BitTableBase.numColumnBits,
    BitMemoryRegion.loadBits, (b.decode_encodedBits hrows hcolumns h).1,
    BitMemoryReader.absStart_readRegion, BitMemoryReader.cursor_readRegion]
  rw [columnOffsets_sub b hcolumns hc, getD_columnOffsets b hcolumns hn le_rfl,
    getD_columnOffsets b hcolumns hn hc.le, List.take_of_length_le (by simp), Int.natCast_add,
    ← Int.add_assoc, hbits, bitsVal_natBits_of_lt hfit, addBias_subBias hv]

end Lemmas

end BitTableBuilder

/-! ### Encoding bitmaps -/

/-- A `BitmapTableBuilder`: its bitmaps, each as the bits of its bytes, `max_num_bits_`, and the
hash and row of every bitmap in `dedup_`. -/
structure BitmapTableBuilder where
  rows : List (List Bool)
  maxNumBits : Nat
  index : List (Nat × Nat)
deriving DecidableEq, Repr

namespace BitmapTableBuilder

/-- A builder with no bitmap. -/
def empty : BitmapTableBuilder := ⟨[], 0, []⟩

/-- `Dedup(bitmap, num_bits)`: the bits of the `BitsToBytesRoundUp(num_bits)` bytes of the
bitmap; a bitmap with the same contents among those recorded under their hash, or else the bitmap
appended and recorded, with `max_num_bits_` raised to `num_bits`. -/
def dedup (hashOf : List Bool → Nat) (bitmap : List Bool) (numBits : Nat)
    (b : BitmapTableBuilder) : Nat × BitmapTableBuilder :=
  let region := bitmap.take (8 * bitsToBytesRoundUp numBits)
  match ((b.index.filter fun e => e.1 == hashOf region).map Prod.snd).find?
      (fun index => b.rows.getD index [] == region) with
  | some index => (index, b)
  | none =>
    (b.rows.length,
      ⟨b.rows ++ [region], max b.maxNumBits numBits, b.index ++ [(hashOf region, b.rows.length)]⟩)

/-- The bits `Encode` writes for one bitmap: `max_num_bits_` of room, the first of them the
bitmap's. -/
def rowBits (b : BitmapTableBuilder) (row : List Bool) : List Bool :=
  row.take b.maxNumBits ++ List.replicate (b.maxNumBits - (row.take b.maxNumBits).length) false

/-- `Encode`: the row count, then, for a nonempty table, `max_num_bits_` and the bitmaps, each
cut to `max_num_bits_` and stored at the start of that much room. -/
def encode (b : BitmapTableBuilder) (w : BitMemoryWriter) : BitMemoryWriter :=
  let w := w.writeVarint b.rows.length
  if b.rows.length ≠ 0 then
    let w := w.writeVarint b.maxNumBits
    b.rows.foldl (fun w row => w.allocateStore b.maxNumBits (row.take b.maxNumBits)) w
  else w

def headerBits (b : BitmapTableBuilder) : List Bool :=
  varintBits b.rows.length ++ (if b.rows.length ≠ 0 then varintBits b.maxNumBits else [])

def dataBits (b : BitmapTableBuilder) : List Bool :=
  if b.rows.length ≠ 0 then b.rows.flatMap b.rowBits else []

def encodedBits (b : BitmapTableBuilder) : List Bool := b.headerBits ++ b.dataBits

section Lemmas

variable (b : BitmapTableBuilder)

@[simp] theorem length_rowBits (row : List Bool) : (b.rowBits row).length = b.maxNumBits := by
  simp only [rowBits, List.length_append, List.length_replicate, List.length_take]
  omega

/-- Bit `j` of the room of a bitmap is the bitmap's bit `j`, zero past its end. -/
theorem getElem_rowBits (row : List Bool) {j : Nat} (hj : j < (b.rowBits row).length) :
    (b.rowBits row)[j] = row.getD j false := by
  simp only [rowBits, List.getElem_append, List.length_take, List.getElem_take,
    List.getElem_replicate]
  split_ifs with hrow
  · rw [List.getD_eq_getElem?_getD, List.getElem?_eq_getElem (by omega), Option.getD_some]
  · rw [length_rowBits] at hj
    rw [List.getD_eq_getElem?_getD, List.getElem?_eq_none (by omega), Option.getD_none]

theorem length_dataBits : b.dataBits.length = b.rows.length * b.maxNumBits := by
  unfold dataBits
  split_ifs with h
  · simp [List.length_flatMap, List.map_const']
  · simp_all

/-- `Encode` appends exactly the encoded bits. -/
theorem tidy_encode {w : BitMemoryWriter} (hw : w.Tidy) :
    (b.encode w).Tidy ∧ (b.encode w).written = w.written ++ b.encodedBits := by
  obtain ⟨hw₁, hwritten₁⟩ := BitMemoryWriter.tidy_writeVarint hw b.rows.length
  unfold encode encodedBits headerBits dataBits
  split_ifs with hrows
  · obtain ⟨hw₂, hwritten₂⟩ := BitMemoryWriter.tidy_writeVarint hw₁ b.maxNumBits
    -- each bitmap fills its room, the rest of it zero
    have hrow : ∀ (w : BitMemoryWriter) (row : List Bool), w.Tidy →
        (w.allocateStore b.maxNumBits (row.take b.maxNumBits)).Tidy ∧
          (w.allocateStore b.maxNumBits (row.take b.maxNumBits)).written =
            w.written ++ b.rowBits row := by
      intro w row hw
      obtain ⟨htidy, hwritten⟩ := BitMemoryWriter.tidy_allocateStore hw
        (List.length_take_le b.maxNumBits row)
      exact ⟨htidy, by rw [hwritten, rowBits, List.append_assoc]⟩
    obtain ⟨hw₃, hwritten₃⟩ := BitMemoryWriter.tidy_foldl _ _ hrow b.rows hw₂
    refine ⟨hw₃, ?_⟩
    rw [hwritten₃, hwritten₂, hwritten₁]
    simp only [List.append_assoc]
  · exact ⟨hw₁, by rw [hwritten₁, List.append_nil, List.append_nil]⟩

/-- Decode of an encoded bitmap table: the row count, one column whose end is `max_num_bits_`
cut to its `uint16_t`, and that many bits of data for every row, after which the reader
stops. -/
theorem decode_encodedBits {mem : Int → Bool} {r : BitMemoryReader} {rest : List Bool}
    (hrows : b.rows.length < 2 ^ 32) (hmax : b.maxNumBits < 2 ^ 32) (hn : b.rows.length ≠ 0)
    (h : Stores mem r.cursor (b.encodedBits ++ rest)) :
    let d := BitTableBase.decode 1 mem r
    d.1 = ⟨1, ((r.readRegion b.headerBits.length).2.readRegion
        (b.rows.length * (b.maxNumBits % 2 ^ 16))).1, b.rows.length, [0, b.maxNumBits % 2 ^ 16]⟩ ∧
      d.2 = (r.readRegion (b.headerBits.length + b.rows.length * (b.maxNumBits % 2 ^ 16))).2 := by
  -- the row count comes first, then the one column width
  have hstore : Stores mem r.cursor (varintBits b.rows.length ++
      ([b.maxNumBits].flatMap varintBits ++ (b.dataBits ++ rest))) := by
    simpa only [encodedBits, headerBits, hn, ne_eq, not_false_eq_true, if_true,
      List.flatMap_singleton, List.append_assoc] using h
  have hcount := BitMemoryReader.readVarint_of_stores hrows hstore
  have hafter := (stores_append.mp hstore).2
  rw [← BitMemoryReader.cursor_readRegion] at hafter
  have hcols := BitTableBase.readColumnOffsets_of_stores 0
    (fun w hw => by rw [List.mem_singleton.mp hw]; exact hmax) hafter
  simp only [BitTableBase.decode, hcount, hn, ne_eq, not_false_eq_true, if_true,
    List.length_singleton] at hcols ⊢
  simp [hcols, BitTableBase.columnEnds, BitMemoryReader.readRegion_readRegion, headerBits, hn,
    Nat.add_assoc]

/-- Below `2^16` bits, the decoded table is `max_num_bits_` wide, and bit `j` of its row `i` is
bit `j` of bitmap `i`, zero past the bitmap's end. -/
theorem getBitMemoryRegion_decode {mem : Int → Bool} {r : BitMemoryReader} {rest : List Bool}
    (hrows : b.rows.length < 2 ^ 32) (hmax : b.maxNumBits < 2 ^ 16)
    (h : Stores mem r.cursor (b.encodedBits ++ rest)) {i : Nat} (hi : i < b.rows.length) :
    let t := (BitTableBase.decode 1 mem r).1
    t.numColumnBits 0 = b.maxNumBits ∧ ∀ j, j < b.maxNumBits →
      (t.getBitMemoryRegion i 0).loadBit mem j = b.rows[i].getD j false := by
  have hn : b.rows.length ≠ 0 := by omega
  have hd := (b.decode_encodedBits hrows (by omega) hn h).1
  rw [Nat.mod_eq_of_lt hmax] at hd
  -- the bitmaps are stored right after the header, in rooms of `max_num_bits_` bits
  have hdata : Stores mem (r.cursor + b.headerBits.length) (b.rows.flatMap b.rowBits ++ rest) := by
    rw [encodedBits, List.append_assoc] at h
    simpa [dataBits, hn] using (stores_append.mp h).2
  have hrow := stores_flatMap_getElem (fun row _ => b.length_rowBits row) hdata i hi
  refine ⟨by simp [hd, BitTableBase.numColumnBits], fun j hj => ?_⟩
  have hbit := hrow.getElem j (by simpa using hj)
  rw [getElem_rowBits] at hbit
  simp only [hd, BitTableBase.getBitMemoryRegion, BitTableBase.numRowBits,
    BitMemoryRegion.loadBit, BitMemoryRegion.absStart_subregion,
    BitMemoryReader.absStart_readRegion, BitMemoryReader.cursor_readRegion]
  rw [← hbit]
  congr 1

/-- Below `2^16` bits, Decode reads the row count back and stops right behind the table, with or
without rows. -/
theorem decode_encodedBits_end {mem : Int → Bool} {r : BitMemoryReader} {rest : List Bool}
    (hrows : b.rows.length < 2 ^ 32) (hmax : b.maxNumBits < 2 ^ 16)
    (h : Stores mem r.cursor (b.encodedBits ++ rest)) :
    let d := BitTableBase.decode 1 mem r
    d.1.numRows = b.rows.length ∧ d.2 = (r.readRegion b.encodedBits.length).2 := by
  by_cases hn : b.rows.length = 0
  · -- no rows: the count alone
    have hstore : Stores mem r.cursor (varintBits 0 ++ rest) := by
      simpa [encodedBits, headerBits, dataBits, hn] using h
    have hcount := BitMemoryReader.readVarint_of_stores (by decide) hstore
    simp [BitTableBase.decode, hcount, encodedBits, headerBits, dataBits, hn,
      BitMemoryReader.readRegion_readRegion]
  · have hd := b.decode_encodedBits hrows (by omega) hn h
    rw [Nat.mod_eq_of_lt hmax] at hd
    refine ⟨by rw [hd.1], ?_⟩
    rw [hd.2, encodedBits, List.length_append, length_dataBits]

/-- Every bitmap is zero from `max_num_bits_` on: the decoded rows lose none of its bits. -/
def Fits (b : BitmapTableBuilder) : Prop :=
  ∀ row ∈ b.rows, ∀ j, b.maxNumBits ≤ j → row.getD j false = false

/-- `Dedup` of a bitmap whose padding is zero keeps every bitmap zero from `max_num_bits_`
on. -/
theorem fits_dedup {b : BitmapTableBuilder} (hb : b.Fits) (hashOf : List Bool → Nat)
    {bitmap : List Bool} {numBits : Nat}
    (hpad : ∀ j, numBits ≤ j → j < 8 * bitsToBytesRoundUp numBits → bitmap.getD j false = false) :
    (b.dedup hashOf bitmap numBits).2.Fits := by
  dsimp only [dedup]
  split
  · exact hb
  · intro row hrow j hj
    simp only [List.mem_append, List.mem_singleton] at hrow
    rcases hrow with hrow | rfl
    · exact hb row hrow j (le_trans (le_max_left _ _) hj)
    · -- the new bitmap: padding inside its bytes, nothing past them
      simp only [List.getD_eq_getElem?_getD, List.getElem?_take]
      split_ifs with hin
      · simpa [List.getD_eq_getElem?_getD] using hpad j (le_trans (le_max_right _ _) hj) hin
      · rfl

/-- A sequence of `Dedup` calls. -/
def dedupAll (hashOf : List Bool → Nat) (b : BitmapTableBuilder) (calls : List (List Bool × Nat)) :
    BitmapTableBuilder :=
  calls.foldl (fun b call => (b.dedup hashOf call.1 call.2).2) b

/-- A builder filled by `Dedup` calls on bitmaps with zero padding holds every bitmap within
`max_num_bits_`. -/
theorem fits_dedupAll (hashOf : List Bool → Nat) :
    ∀ (calls : List (List Bool × Nat)) {b : BitmapTableBuilder}, b.Fits →
      (∀ call ∈ calls, ∀ j, call.2 ≤ j → j < 8 * bitsToBytesRoundUp call.2 →
        call.1.getD j false = false) →
      (b.dedupAll hashOf calls).Fits
  | [], _, hb, _ => hb
  | call :: calls, _, hb, hpad =>
    fits_dedupAll hashOf calls (fits_dedup hb hashOf (hpad call List.mem_cons_self))
      fun c hc => hpad c (List.mem_cons_of_mem _ hc)

end Lemmas

end BitmapTableBuilder

/-! ### Round trips -/

end AndroidArt.Base
