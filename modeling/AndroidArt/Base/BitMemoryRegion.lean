/-
Module: AndroidArt.Base.BitMemoryRegion
Purpose: libartbase/base/bit_memory_region.h: BitMemoryRegion, a bit-granular window on memory
  whose constructor normalises a byte pointer and a possibly negative bit offset to a
  word-aligned pointer; BitMemoryReader, whose cursor is the end of the region read so far, with
  ReadBits, ReadBit, ReadRegion and ReadVarint; and BitMemoryWriter over a byte vector, with
  Allocate, WriteBits, WriteBit, WriteRegion, WriteVarint and ByteAlign.
Trusted boundary: memory is bit-addressed (`Int → Bool`, bit `i` of byte `a` at address `8 * a +
  i`), so the word loads and shifts inside LoadBits and StoreBits are taken as reading and
  writing the bits they address; StoreBits is called only with values that fit its length (its
  DCHECK), which `writeVarint` and the table encoders below meet.
Main exports: BitMemoryRegion, BitMemoryRegion.make, absStart_make, BitMemoryRegion.compare
-/
import AndroidArt.Lib.BitString

namespace AndroidArt.Base

open AndroidArt.Lib

def kBitsPerByte : Nat := 8
def kVarintHeaderBits : Nat := 4
/-- The largest value a varint stores in its header. -/
def kVarintSmallValue : Nat := 11

/-- `RoundUp(x, n)`: `RoundDown(x + n - 1, n)`. -/
def roundUp (x n : Nat) : Nat := (x + n - 1) / n * n

def bitsToBytesRoundUp (numBits : Nat) : Nat := roundUp numBits kBitsPerByte / kBitsPerByte

theorem bitsToBytesRoundUp_eq (n : Nat) : bitsToBytesRoundUp n = (n + 7) / 8 := by
  simp only [bitsToBytesRoundUp, roundUp, kBitsPerByte]
  omega

/-! ### Regions -/

/-- A window of `bitSize` bits starting `bitStart` bits into the word at byte address `data`. -/
structure BitMemoryRegion where
  data : Int
  bitStart : Nat
  bitSize : Nat
deriving DecidableEq, Repr

namespace BitMemoryRegion

/-- `BitMemoryRegion(data, bit_start, bit_size)`: the pointer goes down to a word boundary at or
below the byte that holds bit `bit_start`, and the bit offset grows to match. -/
def make (data : Int) (bitStart : Int) (bitSize : Nat) : BitMemoryRegion :=
  let alignedData := (data + bitStart / 8) / 8 * 8
  ⟨alignedData, (bitStart + 8 * (data - alignedData)).toNat, bitSize⟩

/-- The bit address of the first bit. -/
def absStart (r : BitMemoryRegion) : Int := 8 * r.data + r.bitStart

/-- `data()`: the byte pointer of the first bit (the region is byte aligned). -/
def dataPtr (r : BitMemoryRegion) : Int := r.data + (r.bitStart / 8 : Nat)

def subregion (r : BitMemoryRegion) (bitOffset bitLength : Nat) : BitMemoryRegion :=
  { r with bitStart := r.bitStart + bitOffset, bitSize := bitLength }

/-- `Subregion(bit_offset)`: everything from `bit_offset` on. -/
def subregionFrom (r : BitMemoryRegion) (bitOffset : Nat) : BitMemoryRegion :=
  { r with bitStart := r.bitStart + bitOffset, bitSize := r.bitSize - bitOffset }

def resize (r : BitMemoryRegion) (bitSize : Nat) : BitMemoryRegion := { r with bitSize }

def loadBit (mem : Int → Bool) (r : BitMemoryRegion) (bitOffset : Nat) : Bool :=
  mem (r.absStart + bitOffset)

/-- `LoadBits`: `bitLength` bits from `bitOffset`, the first one least significant. -/
def loadBits (mem : Int → Bool) (r : BitMemoryRegion) (bitOffset bitLength : Nat) : Nat :=
  bitsVal (memBits mem (r.absStart + bitOffset) bitLength)

/-- The bits of the region. -/
def contents (mem : Int → Bool) (r : BitMemoryRegion) : List Bool :=
  memBits mem r.absStart r.bitSize

/-- The loop of `Compare` over the 32-bit chunks from `bit`, `chunks` of them whole. -/
def compareFrom (mem : Int → Bool) (lhs rhs : BitMemoryRegion) (bit : Nat) : Nat → Int
  | 0 =>
    let numBits := lhs.bitSize - bit
    let lhsBits := lhs.loadBits mem bit numBits
    let rhsBits := rhs.loadBits mem bit numBits
    if lhsBits ≠ rhsBits then (if lhsBits < rhsBits then -1 else 1) else 0
  | chunks + 1 =>
    let lhsBits := lhs.loadBits mem bit 32
    let rhsBits := rhs.loadBits mem bit 32
    if lhsBits ≠ rhsBits then (if lhsBits < rhsBits then -1 else 1)
    else compareFrom mem lhs rhs (bit + 32) chunks

/-- `Compare`: by size, then chunk by chunk. -/
def compare (mem : Int → Bool) (lhs rhs : BitMemoryRegion) : Int :=
  if lhs.bitSize ≠ rhs.bitSize then (if lhs.bitSize < rhs.bitSize then -1 else 1)
  else compareFrom mem lhs rhs 0 (lhs.bitSize / 32)

section Lemmas

variable {mem : Int → Bool}

/-- The normalisation keeps the bit address of the first bit, also for a negative bit start. -/
theorem absStart_make (data bitStart : Int) (bitSize : Nat) :
    (make data bitStart bitSize).absStart = 8 * data + bitStart := by
  simp only [make, absStart]
  omega

@[simp] theorem bitSize_make (data bitStart : Int) (bitSize : Nat) :
    (make data bitStart bitSize).bitSize = bitSize := rfl

@[simp] theorem absStart_subregion (r : BitMemoryRegion) (off len : Nat) :
    (r.subregion off len).absStart = r.absStart + off := by
  simp only [subregion, absStart]
  omega

@[simp] theorem bitSize_subregion (r : BitMemoryRegion) (off len : Nat) :
    (r.subregion off len).bitSize = len := rfl

@[simp] theorem absStart_subregionFrom (r : BitMemoryRegion) (off : Nat) :
    (r.subregionFrom off).absStart = r.absStart + off := by
  simp only [subregionFrom, absStart]
  omega

@[simp] theorem bitSize_subregionFrom (r : BitMemoryRegion) (off : Nat) :
    (r.subregionFrom off).bitSize = r.bitSize - off := rfl

@[simp] theorem absStart_resize (r : BitMemoryRegion) (n : Nat) : (r.resize n).absStart = r.absStart :=
  rfl

@[simp] theorem bitSize_resize (r : BitMemoryRegion) (n : Nat) : (r.resize n).bitSize = n := rfl

@[simp] theorem length_contents (r : BitMemoryRegion) : (r.contents mem).length = r.bitSize := by
  simp [contents]

/-- A chunk compares equal exactly when its bits are equal. -/
theorem loadBits_eq_iff {lhs rhs : BitMemoryRegion} {bit len : Nat} :
    lhs.loadBits mem bit len = rhs.loadBits mem bit len ↔
      memBits mem (lhs.absStart + bit) len = memBits mem (rhs.absStart + bit) len :=
  ⟨bitsVal_inj (by simp), fun h => by rw [loadBits, loadBits, h]⟩

theorem compareFrom_eq_zero_iff {lhs rhs : BitMemoryRegion} {bit chunks : Nat}
    (hchunks : bit + 32 * chunks ≤ lhs.bitSize) :
    compareFrom mem lhs rhs bit chunks = 0 ↔
      memBits mem (lhs.absStart + bit) (lhs.bitSize - bit) =
        memBits mem (rhs.absStart + bit) (lhs.bitSize - bit) := by
  induction chunks generalizing bit with
  | zero =>
    simp only [compareFrom]
    split_ifs with hne hlt <;> simp_all [loadBits_eq_iff]
  | succ chunks ih =>
    -- split the rest into the next chunk and what follows it
    have hsplit : lhs.bitSize - bit = 32 + (lhs.bitSize - (bit + 32)) := by omega
    have hpos : ∀ r : BitMemoryRegion, r.absStart + (bit : Int) + (32 : Nat) =
        r.absStart + ((bit + 32 : Nat) : Int) := fun r => by push_cast; omega
    rw [hsplit, memBits_add, memBits_add, hpos, hpos]
    simp only [compareFrom]
    split_ifs with hne hlt
    · exact iff_of_false (by decide) fun h => hne (loadBits_eq_iff.mpr (List.append_inj h (by simp)).1)
    · exact iff_of_false (by decide) fun h => hne (loadBits_eq_iff.mpr (List.append_inj h (by simp)).1)
    · simp only [not_not, loadBits_eq_iff] at hne
      rw [ih (by omega), hne, List.append_right_inj]

/-- `Compare` is zero exactly for regions of one size with the same bits. -/
theorem compare_eq_zero_iff {lhs rhs : BitMemoryRegion} :
    compare mem lhs rhs = 0 ↔ lhs.bitSize = rhs.bitSize ∧ lhs.contents mem = rhs.contents mem := by
  unfold compare
  split_ifs with hsize hlt
  · simp [hsize]
  · simp [hsize]
  · simp only [not_not] at hsize
    rw [compareFrom_eq_zero_iff (by omega)]
    simp [contents, hsize]

end Lemmas

end BitMemoryRegion

/-! ### Reading -/

/-- A reader: the region read so far, whose end is the cursor. -/
structure BitMemoryReader where
  finishedRegion : BitMemoryRegion
deriving DecidableEq, Repr

namespace BitMemoryReader

/-- `BitMemoryReader(data, bit_offset)`. -/
def ofData (data : Int) (bitOffset : Int) : BitMemoryReader :=
  ⟨BitMemoryRegion.make data bitOffset 0⟩

def dataPtr (r : BitMemoryReader) : Int := r.finishedRegion.dataPtr

def getReadRegion (r : BitMemoryReader) : BitMemoryRegion := r.finishedRegion

def numberOfReadBits (r : BitMemoryReader) : Nat := r.finishedRegion.bitSize

/-- The bit address of the next bit to read. -/
def cursor (r : BitMemoryReader) : Int := r.finishedRegion.absStart + r.numberOfReadBits

def readRegion (r : BitMemoryReader) (bitLength : Nat) : BitMemoryRegion × BitMemoryReader :=
  let bitOffset := r.finishedRegion.bitSize
  let finished := r.finishedRegion.resize (bitOffset + bitLength)
  (finished.subregion bitOffset bitLength, ⟨finished⟩)

def readBits (mem : Int → Bool) (r : BitMemoryReader) (bitLength : Nat) : Nat × BitMemoryReader :=
  let (region, r) := r.readRegion bitLength
  (region.loadBits mem 0 bitLength, r)

def readBit (mem : Int → Bool) (r : BitMemoryReader) : Bool × BitMemoryReader :=
  let (region, r) := r.readRegion 1
  (region.loadBit mem 0, r)

/-- `ReadVarint`: a four-bit header that is the value up to 11, and otherwise says how many
bytes of value follow. -/
def readVarint (mem : Int → Bool) (r : BitMemoryReader) : Nat × BitMemoryReader :=
  let (x, r) := r.readBits mem kVarintHeaderBits
  if x > kVarintSmallValue then r.readBits mem ((x - kVarintSmallValue) * kBitsPerByte) else (x, r)

section Lemmas

variable {mem : Int → Bool} {r : BitMemoryReader}

@[simp] theorem cursor_ofData (data bitOffset : Int) :
    (ofData data bitOffset).cursor = 8 * data + bitOffset := by
  simp [ofData, cursor, numberOfReadBits, BitMemoryRegion.absStart_make]

@[simp] theorem numberOfReadBits_ofData (data bitOffset : Int) :
    (ofData data bitOffset).numberOfReadBits = 0 := rfl

@[simp] theorem absStart_readRegion (len : Nat) :
    (r.readRegion len).1.absStart = r.cursor := by
  simp [readRegion, cursor, numberOfReadBits]

@[simp] theorem bitSize_readRegion (len : Nat) : (r.readRegion len).1.bitSize = len := rfl

@[simp] theorem cursor_readRegion (len : Nat) : (r.readRegion len).2.cursor = r.cursor + len := by
  simp only [readRegion, cursor, numberOfReadBits, BitMemoryRegion.absStart_resize,
    BitMemoryRegion.bitSize_resize]
  push_cast
  omega

/-- Reading does not move the start of what has been read. -/
@[simp] theorem start_readRegion (len : Nat) :
    (r.readRegion len).2.finishedRegion.absStart = r.finishedRegion.absStart := rfl

@[simp] theorem numberOfReadBits_readRegion (len : Nat) :
    (r.readRegion len).2.numberOfReadBits = r.numberOfReadBits + len := rfl

@[simp] theorem dataPtr_readRegion (len : Nat) : (r.readRegion len).2.dataPtr = r.dataPtr := rfl

theorem readBits_eq (len : Nat) :
    r.readBits mem len = (bitsVal (memBits mem r.cursor len), (r.readRegion len).2) := by
  simp [readBits, BitMemoryRegion.loadBits]

theorem readBit_eq : r.readBit mem = (mem r.cursor, (r.readRegion 1).2) := by
  simp [readBit, BitMemoryRegion.loadBit]

/-- A read where `bs` is stored returns their value. -/
theorem readBits_of_stores {bs rest : List Bool} (h : Stores mem r.cursor (bs ++ rest)) :
    r.readBits mem bs.length = (bitsVal bs, (r.readRegion bs.length).2) := by
  rw [readBits_eq, memBits_of_stores h]

theorem readBit_of_stores {b : Bool} {rest : List Bool} (h : Stores mem r.cursor (b :: rest)) :
    r.readBit mem = (b, (r.readRegion 1).2) := by
  have hb : memBits mem r.cursor [b].length = [b] := memBits_of_stores h
  rw [readBit_eq]
  simp only [List.length_singleton, memBits, List.cons.injEq] at hb
  rw [hb.1]

end Lemmas

end BitMemoryReader

/-! ### Writing -/

/-- A writer over a byte vector, whose bits are `out`; it has written the bits from `bitStart` up
to `bitOffset`. -/
structure BitMemoryWriter where
  out : List Bool
  bitStart : Nat
  bitOffset : Nat
deriving DecidableEq, Repr

namespace BitMemoryWriter

/-- `BitMemoryWriter(out, bit_offset)`. -/
def ofVector (out : List Bool) (bitOffset : Nat) : BitMemoryWriter := ⟨out, bitOffset, bitOffset⟩

def numberOfWrittenBits (w : BitMemoryWriter) : Nat := w.bitOffset - w.bitStart

/-- `vector::resize` to `numBytes` bytes: cut, or pad with zero bytes. -/
def resizeBits (out : List Bool) (numBytes : Nat) : List Bool :=
  out.take (8 * numBytes) ++ List.replicate (8 * numBytes - out.length) false

/-- `StoreBits` of the bits `bs` at bit `pos` of the vector. -/
def storeBits (out : List Bool) (pos : Nat) (bs : List Bool) : List Bool :=
  out.take pos ++ bs ++ out.drop (pos + bs.length)

/-- `Allocate`: grow the vector to cover `bitLength` more bits and move past them. -/
def allocate (w : BitMemoryWriter) (bitLength : Nat) : BitMemoryWriter :=
  { w with
    out := resizeBits w.out (bitsToBytesRoundUp (w.bitOffset + bitLength))
    bitOffset := w.bitOffset + bitLength }

/-- `Allocate(bitLength)` and a store of `bs` at the start of the new room; the rest of the room
keeps the zeros the vector was grown with. -/
def allocateStore (w : BitMemoryWriter) (bitLength : Nat) (bs : List Bool) : BitMemoryWriter :=
  let w' := w.allocate bitLength
  { w' with out := storeBits w'.out w.bitOffset bs }

/-- Allocate the room of `bs` and store them there. -/
def writeBitList (w : BitMemoryWriter) (bs : List Bool) : BitMemoryWriter :=
  w.allocateStore bs.length bs

def writeBits (w : BitMemoryWriter) (value bitLength : Nat) : BitMemoryWriter :=
  w.writeBitList (natBits value bitLength)

def writeBit (w : BitMemoryWriter) (value : Bool) : BitMemoryWriter :=
  w.writeBitList [value]

/-- `WriteRegion`: copy the bits of a region of memory. -/
def writeRegion (mem : Int → Bool) (w : BitMemoryWriter) (region : BitMemoryRegion) :
    BitMemoryWriter :=
  w.writeBitList (region.contents mem)

def writeVarint (w : BitMemoryWriter) (value : Nat) : BitMemoryWriter :=
  if value ≤ kVarintSmallValue then w.writeBits value kVarintHeaderBits
  else
    let numBits := roundUp (minimumBitsToStore value) kBitsPerByte
    let header := kVarintSmallValue + numBits / kBitsPerByte
    (w.writeBits header kVarintHeaderBits).writeBits value numBits

/-- `ByteAlign`; the end it rounds up is `bit_start_ + bit_offset_`, as in the source. -/
def byteAlign (w : BitMemoryWriter) : BitMemoryWriter :=
  let end_ := w.bitStart + w.bitOffset
  { w with bitOffset := w.bitOffset + (roundUp end_ kBitsPerByte - end_) }

/-- The bits written so far. -/
def written (w : BitMemoryWriter) : List Bool := (w.out.take w.bitOffset).drop w.bitStart

/-- The vector is exactly the bytes that cover the written bits, zero past them. -/
def Tidy (w : BitMemoryWriter) : Prop :=
  w.bitStart = 0 ∧ w.out = w.written ++ List.replicate (8 * bitsToBytesRoundUp w.bitOffset - w.bitOffset) false ∧
    w.written.length = w.bitOffset

section Lemmas

variable {w : BitMemoryWriter}

theorem tidy_ofVector_nil : (ofVector [] 0).Tidy := by
  simp [Tidy, ofVector, written, bitsToBytesRoundUp_eq]

theorem le_eight_mul_bitsToBytesRoundUp (n : Nat) : n ≤ 8 * bitsToBytesRoundUp n := by
  rw [bitsToBytesRoundUp_eq]
  omega

@[simp] theorem bitStart_allocateStore (len : Nat) (bs : List Bool) :
    (w.allocateStore len bs).bitStart = w.bitStart := rfl

@[simp] theorem bitOffset_allocateStore (len : Nat) (bs : List Bool) :
    (w.allocateStore len bs).bitOffset = w.bitOffset + len := rfl

/-- A store into freshly allocated room appends its bits, and zeros for the rest of the room. -/
theorem tidy_allocateStore (hw : w.Tidy) {len : Nat} {bs : List Bool} (hbs : bs.length ≤ len) :
    (w.allocateStore len bs).Tidy ∧
      (w.allocateStore len bs).written = w.written ++ bs ++ List.replicate (len - bs.length) false := by
  obtain ⟨hstart, hout, hlen⟩ := hw
  have hcover := le_eight_mul_bitsToBytesRoundUp (w.bitOffset + len)
  have hmono : 8 * bitsToBytesRoundUp w.bitOffset ≤ 8 * bitsToBytesRoundUp (w.bitOffset + len) := by
    simp only [bitsToBytesRoundUp_eq]
    omega
  -- the resized vector is the written bits followed by zeros up to the new size
  have hresize : resizeBits w.out (bitsToBytesRoundUp (w.bitOffset + len)) =
      w.written ++ List.replicate (8 * bitsToBytesRoundUp (w.bitOffset + len) - w.bitOffset) false := by
    have hle : w.out.length ≤ 8 * bitsToBytesRoundUp (w.bitOffset + len) := by
      rw [hout]
      simp only [List.length_append, List.length_replicate, hlen]
      omega
    rw [resizeBits, List.take_of_length_le hle, hout]
    simp only [List.length_append, List.length_replicate, hlen, List.append_assoc,
      List.replicate_append_replicate]
    congr 2
    omega
  have hstored : (w.allocateStore len bs).out = w.written ++ bs ++
      List.replicate (8 * bitsToBytesRoundUp (w.bitOffset + len) - (w.bitOffset + bs.length)) false := by
    simp only [allocateStore, allocate, storeBits, hresize]
    rw [List.take_left' hlen, List.drop_append, List.drop_eq_nil_of_le (by omega), List.nil_append,
      List.drop_replicate]
    congr 2
    omega
  have hwritten : (w.allocateStore len bs).written =
      w.written ++ bs ++ List.replicate (len - bs.length) false := by
    rw [written, bitStart_allocateStore, hstart, List.drop_zero, hstored, bitOffset_allocateStore,
      List.take_append, List.take_of_length_le (by simp [hlen]; omega), List.take_replicate]
    simp only [List.length_append, hlen]
    congr 2
    omega
  refine ⟨⟨hstart, ?_, ?_⟩, hwritten⟩
  · rw [hwritten, hstored, bitOffset_allocateStore]
    simp only [List.append_assoc, List.replicate_append_replicate]
    congr 3
    omega
  · rw [hwritten, List.length_append, List.length_append, List.length_replicate, hlen,
      bitOffset_allocateStore]
    omega

theorem tidy_writeBitList (hw : w.Tidy) (bs : List Bool) :
    (w.writeBitList bs).Tidy ∧ (w.writeBitList bs).written = w.written ++ bs := by
  have h := tidy_allocateStore hw (le_refl bs.length)
  rw [Nat.sub_self, List.replicate_zero, List.append_nil] at h
  exact h

/-- A fold of writes, each appending the bits `g x`, appends their concatenation. -/
theorem tidy_foldl {α : Type} (f : BitMemoryWriter → α → BitMemoryWriter) (g : α → List Bool)
    (hf : ∀ w x, w.Tidy → (f w x).Tidy ∧ (f w x).written = w.written ++ g x) (xs : List α)
    (hw : w.Tidy) : (xs.foldl f w).Tidy ∧ (xs.foldl f w).written = w.written ++ xs.flatMap g := by
  induction xs generalizing w with
  | nil => simpa using hw
  | cons x xs ih =>
    obtain ⟨hw', hwritten'⟩ := hf w x hw
    obtain ⟨htidy, hwritten⟩ := ih hw'
    exact ⟨htidy, by rw [List.foldl_cons, hwritten, hwritten', List.flatMap_cons, List.append_assoc]⟩

theorem tidy_writeBits (hw : w.Tidy) (value bitLength : Nat) :
    (w.writeBits value bitLength).Tidy ∧
      (w.writeBits value bitLength).written = w.written ++ natBits value bitLength :=
  tidy_writeBitList hw _

theorem tidy_writeBit (hw : w.Tidy) (value : Bool) :
    (w.writeBit value).Tidy ∧ (w.writeBit value).written = w.written ++ [value] :=
  tidy_writeBitList hw _

theorem tidy_writeRegion (mem : Int → Bool) (hw : w.Tidy) (region : BitMemoryRegion) :
    (w.writeRegion mem region).Tidy ∧
      (w.writeRegion mem region).written = w.written ++ region.contents mem :=
  tidy_writeBitList hw _

/-- `ByteAlign` pads what was written with zeros to a whole byte. -/
theorem tidy_byteAlign (hw : w.Tidy) :
    w.byteAlign.Tidy ∧
      w.byteAlign.written = w.written ++ List.replicate ((w.bitOffset + 7) / 8 * 8 - w.bitOffset) false ∧
      w.byteAlign.bitOffset = (w.bitOffset + 7) / 8 * 8 := by
  obtain ⟨hstart, hout, hlen⟩ := hw
  have hoffset : w.byteAlign.bitOffset = (w.bitOffset + 7) / 8 * 8 := by
    simp only [byteAlign, hstart, roundUp, kBitsPerByte]
    omega
  -- the vector already ends at the byte boundary the cursor moves to
  have hpad : 8 * bitsToBytesRoundUp w.bitOffset - w.bitOffset = (w.bitOffset + 7) / 8 * 8 - w.bitOffset := by
    rw [bitsToBytesRoundUp_eq]
    omega
  have hwritten : w.byteAlign.written = w.written ++
      List.replicate ((w.bitOffset + 7) / 8 * 8 - w.bitOffset) false := by
    rw [written, hoffset, show w.byteAlign.out = w.out from rfl, hout, hpad,
      show w.byteAlign.bitStart = 0 from hstart, List.drop_zero, List.take_of_length_le]
    simp only [List.length_append, List.length_replicate, hlen]
    omega
  refine ⟨⟨hstart, ?_, ?_⟩, hwritten, hoffset⟩
  · rw [hwritten, hoffset, show w.byteAlign.out = w.out from rfl, hout, hpad, bitsToBytesRoundUp_eq]
    have hzero : 8 * (((w.bitOffset + 7) / 8 * 8 + 7) / 8) - (w.bitOffset + 7) / 8 * 8 = 0 := by omega
    rw [hzero, List.replicate_zero, List.append_nil]
  · rw [hwritten, hoffset, List.length_append, List.length_replicate, hlen]
    omega

end Lemmas

end BitMemoryWriter

/-! ### Varints -/

/-- The bits `WriteVarint` appends: the value in the four-bit header up to 11, and otherwise a
header `11 + n` followed by the value in `n` bytes. -/
def varintBits (value : Nat) : List Bool :=
  if value ≤ kVarintSmallValue then natBits value kVarintHeaderBits
  else
    let numBits := roundUp (minimumBitsToStore value) kBitsPerByte
    natBits (kVarintSmallValue + numBits / kBitsPerByte) kVarintHeaderBits ++ natBits value numBits

theorem BitMemoryWriter.tidy_writeVarint {w : BitMemoryWriter} (hw : w.Tidy) (value : Nat) :
    (w.writeVarint value).Tidy ∧ (w.writeVarint value).written = w.written ++ varintBits value := by
  unfold writeVarint varintBits
  split_ifs
  · exact tidy_writeBits hw _ _
  · obtain ⟨hw₁, hwritten₁⟩ := tidy_writeBits hw (kVarintSmallValue +
      roundUp (minimumBitsToStore value) kBitsPerByte / kBitsPerByte) kVarintHeaderBits
    obtain ⟨hw₂, hwritten₂⟩ := tidy_writeBits hw₁ value (roundUp (minimumBitsToStore value) kBitsPerByte)
    exact ⟨hw₂, by rw [hwritten₂, hwritten₁, List.append_assoc]⟩

namespace BitMemoryReader

variable {mem : Int → Bool} {r : BitMemoryReader}

theorem readRegion_readRegion (a b : Nat) :
    ((r.readRegion a).2.readRegion b).2 = (r.readRegion (a + b)).2 := by
  simp [readRegion, BitMemoryRegion.resize, Nat.add_assoc]

/-- A varint written by `WriteVarint` reads back as its value, and the reader moves past it. -/
theorem readVarint_of_stores {value : Nat} (hv : value < 2 ^ 32) {rest : List Bool}
    (h : Stores mem r.cursor (varintBits value ++ rest)) :
    r.readVarint mem = (value, (r.readRegion (varintBits value).length).2) := by
  unfold varintBits at h ⊢
  obtain ⟨numBits, hnum⟩ : ∃ n, n = roundUp (minimumBitsToStore value) kBitsPerByte := ⟨_, rfl⟩
  simp only [← hnum] at h ⊢
  split_ifs at h ⊢ with hsmall
  · -- the value is the header
    have hread := readBits_of_stores h
    have hval : value < 2 ^ kVarintHeaderBits := by
      simp only [kVarintHeaderBits, kVarintSmallValue] at hsmall ⊢
      omega
    rw [length_natBits, bitsVal_natBits_of_lt hval] at hread
    rw [readVarint, hread, length_natBits]
    simp only
    rw [if_neg (by omega)]
  · -- a header of 12 to 15, then the bytes of the value
    have hwidth : minimumBitsToStore value ≤ 32 := minimumBitsToStore_le_iff.mpr hv
    have hsome : 4 ≤ minimumBitsToStore value := by
      refine Nat.le_of_not_lt fun hlt => hsmall ?_
      have := (minimumBitsToStore_le_iff (v := value) (n := 3)).mp (by omega)
      simp only [kVarintSmallValue]
      omega
    have hnum' : numBits = (minimumBitsToStore value + 7) / 8 * 8 := hnum
    have hfits : value < 2 ^ numBits :=
      lt_of_lt_of_le (lt_two_pow_minimumBitsToStore value)
        (Nat.pow_le_pow_right (by omega) (by omega))
    have hheader : kVarintSmallValue + numBits / kBitsPerByte < 2 ^ kVarintHeaderBits := by
      simp only [kVarintSmallValue, kBitsPerByte, kVarintHeaderBits]
      omega
    rw [List.append_assoc] at h
    have hread₁ := readBits_of_stores h
    rw [length_natBits, bitsVal_natBits_of_lt hheader] at hread₁
    have hstored := (stores_append.mp h).2
    rw [length_natBits, ← cursor_readRegion] at hstored
    have hread₂ := readBits_of_stores hstored
    rw [length_natBits, bitsVal_natBits_of_lt hfits] at hread₂
    have hcount : (kVarintSmallValue + numBits / kBitsPerByte - kVarintSmallValue) * kBitsPerByte =
        numBits := by
      simp only [kVarintSmallValue, kBitsPerByte]
      omega
    rw [readVarint, hread₁]
    simp only
    rw [if_pos (by simp only [kVarintSmallValue, kBitsPerByte]; omega), hcount, hread₂,
      readRegion_readRegion, List.length_append, length_natBits, length_natBits]

end BitMemoryReader

/-! ### Runs of writes from any start

A run of `WriteBit`, `WriteBits`, `WriteVarint` and `ByteAlign` reads back from wherever the
writer starts: each operation leaves its bits at the writer's offset and every bit below the
offset as it was (`Appends`).  `ByteAlign` only moves the offset, past `RoundUp(end, 8) - end`
bits where `end = bit_start_ + bit_offset_` counts the start twice: the offset it reaches is a
multiple of 8 exactly when the writer started at one. -/

/-- The writer operations of a run. -/
inductive WriteOp where
  | bit (value : Bool)
  | bits (value bitLength : Nat)
  | varint (value : Nat)
  | byteAlign
deriving DecidableEq, Repr

/-- The reads that give a run back; `skip n` moves past the `n` bits a `ByteAlign` moved past. -/
inductive ReadOp where
  | bit
  | bits (bitLength : Nat)
  | varint
  | skip (bitLength : Nat)
deriving DecidableEq, Repr

namespace WriteOp

/-- The operations as the writer's callers make them: `WriteBits` of at most 32 bits of a value
that fits them, `WriteVarint` of a `uint32_t`. -/
def Fits : WriteOp → Prop
  | bits value bitLength => bitLength ≤ 32 ∧ value < 2 ^ bitLength
  | varint value => value < 2 ^ 32
  | _ => True

instance (op : WriteOp) : Decidable op.Fits :=
  match op with
  | bit _ => isTrue trivial
  | bits value bitLength => inferInstanceAs (Decidable (bitLength ≤ 32 ∧ value < 2 ^ bitLength))
  | varint value => inferInstanceAs (Decidable (value < 2 ^ 32))
  | byteAlign => isTrue trivial

end WriteOp

namespace BitMemoryWriter

def apply (w : BitMemoryWriter) : WriteOp → BitMemoryWriter
  | .bit value => w.writeBit value
  | .bits value bitLength => w.writeBits value bitLength
  | .varint value => w.writeVarint value
  | .byteAlign => w.byteAlign

/-- The read that gives back what `op` writes from `w`. -/
def readOp (w : BitMemoryWriter) : WriteOp → ReadOp
  | .bit _ => .bit
  | .bits _ bitLength => .bits bitLength
  | .varint _ => .varint
  | .byteAlign => .skip (w.byteAlign.bitOffset - w.bitOffset)

/-- The writer after the operations, and the reads that give them back. -/
def runWrites (w : BitMemoryWriter) : List WriteOp → BitMemoryWriter × List ReadOp
  | [] => (w, [])
  | op :: ops =>
    let (w', reads) := (w.apply op).runWrites ops
    (w', w.readOp op :: reads)

/-- The bits `op` leaves at the writer's offset; for `ByteAlign`, those it moves past. -/
def stored (w : BitMemoryWriter) : WriteOp → List Bool
  | .bit value => [value]
  | .bits value bitLength => natBits value bitLength
  | .varint value => varintBits value
  | .byteAlign =>
    (List.range (w.byteAlign.bitOffset - w.bitOffset)).map fun j => w.out.getD (w.bitOffset + j) false

/-- `w'` is `w` with the bits `bs` at its offset and every bit below the offset as it was. -/
structure Appends (w w' : BitMemoryWriter) (bs : List Bool) : Prop where
  bitStart_eq : w'.bitStart = w.bitStart
  bitOffset_eq : w'.bitOffset = w.bitOffset + bs.length
  keeps : ∀ i < w.bitOffset, w'.out.getD i false = w.out.getD i false
  stores : ∀ (j : Nat) (hj : j < bs.length), w'.out.getD (w.bitOffset + j) false = bs[j]

section Lemmas

variable {w w₁ w₂ : BitMemoryWriter}

@[simp] theorem runWrites_nil : w.runWrites [] = (w, []) := rfl

@[simp] theorem runWrites_cons (op : WriteOp) (ops : List WriteOp) :
    w.runWrites (op :: ops) =
      (((w.apply op).runWrites ops).1, w.readOp op :: ((w.apply op).runWrites ops).2) := rfl

theorem runWrites_append (xs ys : List WriteOp) :
    (w.runWrites (xs ++ ys)).1 = ((w.runWrites xs).1.runWrites ys).1 := by
  induction xs generalizing w with
  | nil => rfl
  | cons x xs ih => simp only [List.cons_append, runWrites_cons, ih]

@[simp] theorem length_resizeBits (out : List Bool) (n : Nat) : (resizeBits out n).length = 8 * n := by
  simp only [resizeBits, List.length_append, List.length_take, List.length_replicate]
  omega

theorem getD_resizeBits {out : List Bool} {n i : Nat} (hi : i < 8 * n) :
    (resizeBits out n).getD i false = out.getD i false := by
  simp only [resizeBits, List.getD_eq_getElem?_getD]
  by_cases hlt : i < out.length
  · rw [List.getElem?_append_left (by simp only [List.length_take]; omega), List.getElem?_take,
      if_pos hi]
  · rw [List.getElem?_append_right (by simp only [List.length_take]; omega), List.getElem?_replicate,
      List.getElem?_eq_none (by omega)]
    split_ifs <;> rfl

theorem getD_storeBits_of_lt {out bs : List Bool} {pos i : Nat} (hpos : pos ≤ out.length)
    (hi : i < pos) : (storeBits out pos bs).getD i false = out.getD i false := by
  simp only [storeBits, List.getD_eq_getElem?_getD, List.append_assoc]
  rw [List.getElem?_append_left (by simp only [List.length_take]; omega), List.getElem?_take,
    if_pos hi]

theorem getD_storeBits_add {out bs : List Bool} {pos j : Nat} (hpos : pos ≤ out.length)
    (hj : j < bs.length) : (storeBits out pos bs).getD (pos + j) false = bs[j] := by
  simp only [storeBits, List.getD_eq_getElem?_getD, List.append_assoc]
  rw [List.getElem?_append_right (by simp only [List.length_take]; omega), List.length_take,
    Nat.min_eq_left hpos, Nat.add_sub_cancel_left, List.getElem?_append_left hj,
    List.getElem?_eq_getElem hj, Option.getD_some]

theorem Appends.trans {xs ys : List Bool} (h₁ : Appends w w₁ xs) (h₂ : Appends w₁ w₂ ys) :
    Appends w w₂ (xs ++ ys) where
  bitStart_eq := by rw [h₂.bitStart_eq, h₁.bitStart_eq]
  bitOffset_eq := by rw [h₂.bitOffset_eq, h₁.bitOffset_eq, List.length_append, Nat.add_assoc]
  keeps i hi := by
    rw [h₂.keeps i (by rw [h₁.bitOffset_eq]; omega), h₁.keeps i hi]
  stores j hj := by
    by_cases hx : j < xs.length
    · -- a bit of the first write, kept by the second
      rw [h₂.keeps _ (by rw [h₁.bitOffset_eq]; omega), h₁.stores j hx, List.getElem_append_left hx]
    · -- a bit of the second write
      have hpos : w.bitOffset + j = w₁.bitOffset + (j - xs.length) := by
        rw [h₁.bitOffset_eq]
        omega
      rw [hpos, h₂.stores _ (by rw [List.length_append] at hj; omega),
        List.getElem_append_right (by omega)]

/-- `WriteBits` grows the vector to cover the new bits and stores them at the old offset. -/
theorem appends_writeBitList (w : BitMemoryWriter) (bs : List Bool) :
    Appends w (w.writeBitList bs) bs := by
  have hcover : w.bitOffset + bs.length ≤
      (resizeBits w.out (bitsToBytesRoundUp (w.bitOffset + bs.length))).length := by
    rw [length_resizeBits]
    exact le_eight_mul_bitsToBytesRoundUp _
  have hout : (w.writeBitList bs).out =
      storeBits (resizeBits w.out (bitsToBytesRoundUp (w.bitOffset + bs.length))) w.bitOffset bs :=
    rfl
  refine ⟨rfl, rfl, fun i hi => ?_, fun j hj => ?_⟩
  · rw [hout, getD_storeBits_of_lt (by omega) hi, getD_resizeBits (by rw [length_resizeBits] at hcover; omega)]
  · rw [hout, getD_storeBits_add (by omega) hj]

theorem appends_writeVarint (w : BitMemoryWriter) (value : Nat) :
    Appends w (w.writeVarint value) (varintBits value) := by
  unfold writeVarint varintBits
  split_ifs
  · exact appends_writeBitList w _
  · exact (appends_writeBitList w _).trans (appends_writeBitList _ _)

/-- `ByteAlign` moves past bits and writes none. -/
theorem appends_byteAlign (w : BitMemoryWriter) : Appends w w.byteAlign (w.stored .byteAlign) where
  bitStart_eq := rfl
  bitOffset_eq := by
    simp only [stored, List.length_map, List.length_range, byteAlign, roundUp, kBitsPerByte]
    omega
  keeps _ _ := rfl
  stores j hj := by
    simp only [stored, List.getElem_map, List.getElem_range]
    rfl

theorem appends_apply (w : BitMemoryWriter) (op : WriteOp) : Appends w (w.apply op) (w.stored op) := by
  cases op with
  | bit value => exact appends_writeBitList w _
  | bits value bitLength => exact appends_writeBitList w _
  | varint value => exact appends_writeVarint w value
  | byteAlign => exact appends_byteAlign w

theorem bitStart_runWrites (ops : List WriteOp) : (w.runWrites ops).1.bitStart = w.bitStart := by
  induction ops generalizing w with
  | nil => rfl
  | cons op ops ih => rw [runWrites_cons, ih, (appends_apply w op).bitStart_eq]

/-- No later write changes a bit below the offset: a run keeps what was written before it. -/
theorem getD_runWrites_of_lt (ops : List WriteOp) {i : Nat} (hi : i < w.bitOffset) :
    (w.runWrites ops).1.out.getD i false = w.out.getD i false := by
  induction ops generalizing w with
  | nil => rfl
  | cons op ops ih =>
    have happ := appends_apply w op
    rw [runWrites_cons, ih (by rw [happ.bitOffset_eq]; omega), happ.keeps i hi]

/-- `ByteAlign` moves past fewer than eight bits. -/
theorem byteAlign_skips_lt_eight (w : BitMemoryWriter) : w.byteAlign.bitOffset - w.bitOffset < 8 := by
  simp only [byteAlign, roundUp, kBitsPerByte]
  omega

/-- The offset `ByteAlign` reaches is a multiple of 8 exactly when the start is: `end` counts the
start once more than the offset does. -/
theorem byteAlign_aligned_iff (w : BitMemoryWriter) :
    w.byteAlign.bitOffset % 8 = 0 ↔ w.bitStart % 8 = 0 := by
  simp only [byteAlign, roundUp, kBitsPerByte]
  omega

end Lemmas

end BitMemoryWriter

namespace BitMemoryReader

/-- A read, and the operation it gives back. -/
def apply (mem : Int → Bool) (r : BitMemoryReader) : ReadOp → WriteOp × BitMemoryReader
  | .bit => let (value, r') := r.readBit mem; (.bit value, r')
  | .bits bitLength => let (value, r') := r.readBits mem bitLength; (.bits value bitLength, r')
  | .varint => let (value, r') := r.readVarint mem; (.varint value, r')
  | .skip bitLength => (.byteAlign, (r.readRegion bitLength).2)

/-- The reads in order, and the operations they give back. -/
def runReads (mem : Int → Bool) (r : BitMemoryReader) : List ReadOp → List WriteOp × BitMemoryReader
  | [] => ([], r)
  | op :: ops =>
    let (x, r') := r.apply mem op
    let (xs, r'') := r'.runReads mem ops
    (x :: xs, r'')

variable {mem : Int → Bool} {r : BitMemoryReader}

@[simp] theorem runReads_cons (op : ReadOp) (ops : List ReadOp) :
    r.runReads mem (op :: ops) =
      ((r.apply mem op).1 :: ((r.apply mem op).2.runReads mem ops).1,
        ((r.apply mem op).2.runReads mem ops).2) := rfl

/-- Where `op` stored its bits, the read that matches it gives it back and moves past them. -/
theorem apply_readOp {w : BitMemoryWriter} {op : WriteOp} (hop : op.Fits)
    (h : Stores mem r.cursor (w.stored op)) :
    r.apply mem (w.readOp op) = (op, (r.readRegion (w.stored op).length).2) := by
  cases op with
  | bit value =>
    have hbit : Stores mem r.cursor [value] := h
    simp only [apply, BitMemoryWriter.readOp, readBit_of_stores hbit]
    rfl
  | bits value bitLength =>
    have hbits : Stores mem r.cursor (natBits value bitLength ++ []) := by rwa [List.append_nil]
    have hread := readBits_of_stores hbits
    rw [length_natBits, bitsVal_natBits_of_lt hop.2] at hread
    simp only [apply, BitMemoryWriter.readOp, hread, BitMemoryWriter.stored, length_natBits]
  | varint value =>
    have hbits : Stores mem r.cursor (varintBits value ++ []) := by rwa [List.append_nil]
    have hread := readVarint_of_stores hop hbits
    simp only [apply, BitMemoryWriter.readOp, hread, BitMemoryWriter.stored]
  | byteAlign =>
    simp only [apply, BitMemoryWriter.readOp, BitMemoryWriter.stored, List.length_map,
      List.length_range]

/-- A reader at a writer's offset gives back the rest of the writer's run, read from the memory the
whole run leaves. -/
theorem runReads_runWrites (final : BitMemoryWriter) (ops : List WriteOp) (hops : ∀ op ∈ ops, op.Fits)
    (w : BitMemoryWriter) (hfinal : (w.runWrites ops).1 = final) (r : BitMemoryReader)
    (hr : r.cursor = w.bitOffset) :
    (r.runReads (listMem final.out) (w.runWrites ops).2).1 = ops := by
  induction ops generalizing w r with
  | nil => rfl
  | cons op ops ih =>
    have happ := BitMemoryWriter.appends_apply w op
    rw [BitMemoryWriter.runWrites_cons] at hfinal
    -- the run after `op` keeps its bits, so the final memory holds them at the reader's cursor
    have hstores : Stores (listMem final.out) r.cursor (w.stored op) := by
      rw [hr]
      refine stores_listMem_of_getD fun j hj => ?_
      rw [← hfinal, BitMemoryWriter.getD_runWrites_of_lt ops (by rw [happ.bitOffset_eq]; omega),
        happ.stores j hj]
    have hcursor : (r.readRegion (w.stored op).length).2.cursor = (w.apply op).bitOffset := by
      rw [cursor_readRegion, hr, happ.bitOffset_eq]
      push_cast
      rfl
    rw [BitMemoryWriter.runWrites_cons, runReads_cons,
      apply_readOp (hops op List.mem_cons_self) hstores,
      ih (fun x hx => hops x (List.mem_cons_of_mem op hx)) (w.apply op) hfinal _ hcursor]

end BitMemoryReader

end AndroidArt.Base
