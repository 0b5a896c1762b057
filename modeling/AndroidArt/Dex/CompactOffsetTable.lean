/-
Module: AndroidArt.Dex.CompactOffsetTable
Purpose: libdexfile/dex/compact_offset_table.cc: the table of a compact dex file that maps an
  index to a `uint32_t` offset (0 for none).
Trusted boundary: memory is the byte memory of `Base.Leb128`; the two `uint32_t` of the header
  and the table entries are read and written little endian, as the `reinterpret_cast`s do on the
  targets.
Main exports: buildWithOffsets, build, Accessor, Accessor.getOffset
-/
import AndroidArt.Base.Leb128
import AndroidArt.Lib.LittleEndian
import AndroidArt.Lib.PackedBits

namespace AndroidArt.Dex

open AndroidArt.Lib AndroidArt.Lib.ByteMemory AndroidArt.Lib.LittleEndian AndroidArt.Base

namespace CompactOffsetTable

def kElementsPerIndex : Nat := 16

/-! ### Build -/

/-- The smallest nonzero offset, `UINT32_MAX` if there is none. -/
def minimumOffset (offsets : List UInt32) : UInt32 :=
  offsets.foldl (fun m offset => if offset ≠ 0 then min m offset else m) 0xFFFFFFFF

/-- The mask of a block: bit `i` for each nonzero offset. -/
def blockMask (block : List UInt32) : Nat :=
  (List.range block.length).foldl
    (fun mask i => if block.getD i 0 ≠ 0 then mask ||| 1 <<< i else mask) 0

/-- The deltas of a block: each nonzero offset minus the previous nonzero one, from `prev`. -/
def blockDeltas (prev : UInt32) : List UInt32 → List UInt8
  | [] => []
  | offset :: rest =>
    if offset ≠ 0 then encodeUnsignedLeb128 (offset - prev).toNat ++ blockDeltas offset rest
    else blockDeltas prev rest

/-- A block as written: the mask, high byte first, then the deltas from the minimum offset. -/
def blockBytes (minOffset : UInt32) (block : List UInt32) : List UInt8 :=
  [UInt8.ofNat (blockMask block >>> 8), UInt8.ofNat (blockMask block)] ++ blockDeltas minOffset block

/-- Block `b`: the offsets from `16 * b`, at most 16 of them. -/
def blockAt (offsets : List UInt32) (b : Nat) : List UInt32 :=
  (offsets.drop (b * kElementsPerIndex)).take kElementsPerIndex

/-- The loop over the blocks: the data, and the offset at which each block starts. -/
def buildData (offsets : List UInt32) (minOffset : UInt32) : List UInt8 × List Nat :=
  (List.range ((offsets.length + kElementsPerIndex - 1) / kElementsPerIndex)).foldl
    (fun st b => (st.1 ++ blockBytes minOffset (blockAt offsets b), st.2 ++ [st.1.length]))
    ([], [])

/-- `AlignmentPadVector`: zero bytes up to a multiple of `alignment`. -/
def alignmentPad (data : List UInt8) (alignment : Nat) : List UInt8 :=
  data ++ List.replicate ((alignment - data.length % alignment) % alignment) 0

/-- `Build(offsets, out_data, out_min_offset, out_table_offset)`. -/
def buildWithOffsets (offsets : List UInt32) : List UInt8 × UInt32 × Nat :=
  let minOffset := minimumOffset offsets
  let (data, table) := buildData offsets minOffset
  let data := alignmentPad data 4
  (data ++ table.flatMap (toBytes 4), minOffset, data.length)

/-- `Build(offsets, out_data)`: the minimum offset and the table offset in front. -/
def build (offsets : List UInt32) : List UInt8 :=
  let (data, minOffset, tableOffset) := buildWithOffsets offsets
  toBytes 4 minOffset.toNat ++ toBytes 4 tableOffset ++ data

/-! ### The accessor -/

structure Accessor where
  table : Nat
  minimumOffset : UInt32
  dataBegin : Nat

/-- A `uint32_t` of the memory. -/
def readU32 (mem : Memory) (a : Nat) : Nat := ofBytes (loadBytes mem a 4)

/-- `Accessor(data_begin, minimum_offset, table_offset)`. -/
def Accessor.make (dataBegin : Nat) (minimumOffset : UInt32) (tableOffset : Nat) : Accessor :=
  ⟨dataBegin + tableOffset, minimumOffset, dataBegin⟩

/-- `Accessor(data_begin)`: the two `uint32_t` in front, then the data. -/
def Accessor.ofData (mem : Memory) (dataBegin : Nat) : Accessor :=
  Accessor.make (dataBegin + 8) (UInt32.ofNat (readU32 mem dataBegin)) (readU32 mem (dataBegin + 4))

/-- The `do { current_offset += DecodeUnsignedLeb128(&block); } while (--count > 0)` loop. -/
def decodeDeltas (mem : Memory) (block : Nat) (current : UInt32) (count : Nat) : UInt32 :=
  let (delta, next) := decodeUnsignedLeb128 mem block
  let current := current + UInt32.ofNat delta
  match count with
  | count + 2 => decodeDeltas mem next current (count + 1)
  | _ => current

def Accessor.getOffset (mem : Memory) (acc : Accessor) (index : Nat) : UInt32 :=
  let offset := readU32 mem (acc.table + 4 * (index / kElementsPerIndex))
  let bitIndex := index % kElementsPerIndex
  let block := acc.dataBegin + offset
  let bitMask := ((mem block).toNat <<< 8 ||| (mem (block + 1)).toNat) % 2 ^ 16
  if bitMask &&& 1 <<< bitIndex = 0 then 0
  else
    -- the bits at or below `bitIndex`, counted in a 64-bit word
    let count := (BitVec.ofNat 64 bitMask <<< (64 - 1 - bitIndex)).cpop.toNat
    decodeDeltas mem (block + 2) acc.minimumOffset count

/-! ### The mask -/

/-- One step of the mask loop sets bit `n` when offset `n` is nonzero. -/
theorem testBit_maskStep (block : List UInt32) (M n p : Nat) :
    (if block.getD n 0 ≠ 0 then M ||| 1 <<< n else M).testBit p =
      (M.testBit p || decide (p = n) && block.getD n 0 != 0) := by
  split_ifs with hn
  · have hb : (block.getD n 0 != 0) = true := bne_iff_ne.mpr hn
    rw [hb, Bool.and_true, Nat.testBit_or, Nat.one_shiftLeft, Nat.testBit_two_pow]
    simp [eq_comm]
  · simp_all

/-- The mask loop over the first `n` offsets sets exactly their nonzero bits. -/
theorem testBit_foldl_mask (block : List UInt32) (p : Nat) : ∀ n,
    ((List.range n).foldl (fun mask i => if block.getD i 0 ≠ 0 then mask ||| 1 <<< i else mask)
      0).testBit p = (decide (p < n) && block.getD p 0 != 0) := by
  intro n
  induction n with
  | zero => simp
  | succ n ih =>
    rw [List.range_succ, List.foldl_append, List.foldl_cons, List.foldl_nil, testBit_maskStep, ih]
    rcases Nat.lt_trichotomy p n with hp | rfl | hp
    · simp [hp, hp.ne, Nat.lt_succ_of_lt hp]
    · simp
    · simp [show ¬ p < n by omega, show ¬ p < n + 1 by omega, hp.ne']

theorem testBit_blockMask (block : List UInt32) (p : Nat) :
    (blockMask block).testBit p = (decide (p < block.length) && block.getD p 0 != 0) :=
  testBit_foldl_mask block p block.length

theorem blockMask_lt {block : List UInt32} (h : block.length ≤ 16) : blockMask block < 2 ^ 16 := by
  refine Nat.lt_pow_two_of_testBit _ fun p hp => ?_
  rw [testBit_blockMask]
  simp [show ¬ p < block.length by omega]

/-- The two mask bytes, high byte first, read back as the mask. -/
theorem maskBytes_toNat {m : Nat} (h : m < 2 ^ 16) :
    ((UInt8.ofNat (m >>> 8)).toNat <<< 8 ||| (UInt8.ofNat m).toNat) % 2 ^ 16 = m := by
  have hhi : (UInt8.ofNat (m >>> 8)).toNat = m / 256 := by
    rw [UInt8.toNat_ofNat', Nat.shiftRight_eq_div_pow]; omega
  have hlo : (UInt8.ofNat m).toNat = m % 256 := UInt8.toNat_ofNat'

  rw [hhi, hlo, Nat.lor_comm, or_shiftLeft_of_lt _ (show m % 256 < 2 ^ 8 by omega)]
  omega

/-- The count of the accessor: the nonzero offsets of the block at or below index `j`. -/
theorem count_blockMask {block : List UInt32} {j : Nat} (hj : j < block.length)
    (hj16 : j < kElementsPerIndex) :
    (BitVec.ofNat 64 (blockMask block) <<< (64 - 1 - j)).cpop.toNat =
      (List.range (j + 1)).countP fun p => block.getD p 0 != 0 := by
  have hj64 : j < 64 := by unfold kElementsPerIndex at hj16; omega
  rw [toNat_cpop_shiftLeft _ (by omega), show 64 - (64 - 1 - j) = j + 1 by omega]
  refine List.countP_congr fun p hp => ?_
  have hp' : p < j + 1 := List.mem_range.mp hp
  rw [BitVec.getLsbD_ofNat, testBit_blockMask]
  simp [show p < 64 by omega, show p < block.length by omega]

/-! ### The deltas -/

theorem countP_range_cons (o : UInt32) (rest : List UInt32) (j : Nat) :
    ((List.range (j + 2)).countP fun p => (o :: rest).getD p 0 != 0) =
      ((List.range (j + 1)).countP fun p => rest.getD p 0 != 0) + if o ≠ 0 then 1 else 0 := by
  rw [List.range_succ_eq_map, List.countP_cons, List.countP_map]
  simp [Function.comp_def]

theorem decodeDeltas_add_two (mem : Memory) (ptr : Nat) (current : UInt32) (count : Nat) :
    decodeDeltas mem ptr current (count + 2) =
      decodeDeltas mem (decodeUnsignedLeb128 mem ptr).2
        (current + UInt32.ofNat (decodeUnsignedLeb128 mem ptr).1) (count + 1) := by
  rw [decodeDeltas]

theorem decodeDeltas_one (mem : Memory) (ptr : Nat) (current : UInt32) :
    decodeDeltas mem ptr current 1 = current + UInt32.ofNat (decodeUnsignedLeb128 mem ptr).1 := by
  rw [decodeDeltas]

/-- Reading the delta of a nonzero offset `o` after `prev` gives `o` back and moves past its
encoding. -/
theorem decode_delta {mem : Memory} {ptr : Nat} {prev o : UInt32}
    (hmem : loadBytes mem ptr (encodeUnsignedLeb128 (o - prev).toNat).length =
      encodeUnsignedLeb128 (o - prev).toNat) :
    prev + UInt32.ofNat (decodeUnsignedLeb128 mem ptr).1 = o ∧
      (decodeUnsignedLeb128 mem ptr).2 = ptr + (encodeUnsignedLeb128 (o - prev).toNat).length := by
  have hu := (o - prev).toNat_lt
  rw [decodeUnsignedLeb128_encode hu hmem, length_encodeUnsignedLeb128 hu]
  exact ⟨by rw [UInt32.ofNat_toNat, UInt32.add_comm, UInt32.sub_add_cancel], rfl⟩

/-- The decoding loop, started on the deltas of a block with as many steps as the block has
nonzero offsets up to `j`, sums the deltas up to offset `j`: by induction on the block, one
delta read per nonzero offset. -/
theorem decodeDeltas_blockDeltas (mem : Memory) : ∀ (block : List UInt32) (prev : UInt32)
    (ptr j : Nat), loadBytes mem ptr (blockDeltas prev block).length = blockDeltas prev block →
    (hj : j < block.length) → block[j] ≠ 0 →
    decodeDeltas mem ptr prev ((List.range (j + 1)).countP fun p => block.getD p 0 != 0) =
      block[j]
  | [], _, _, _, _, hj, _ => absurd hj (Nat.not_lt_zero _)
  | o :: rest, prev, ptr, j, hmem, hj, hne => by
    by_cases ho : o ≠ 0
    · rw [blockDeltas, if_pos ho, loadBytes_append] at hmem
      obtain ⟨hcur, hnext⟩ := decode_delta hmem.1
      cases j with
      | zero =>
        have hone : ((List.range 1).countP fun p => (o :: rest).getD p 0 != 0) = 1 := by
          simpa using ho
        rw [hone, decodeDeltas_one, hcur, List.getElem_cons_zero]
      | succ j =>
        -- offset `j + 1` is nonzero, so the rest of the block has at least one step to make
        have hpos : 0 < (List.range (j + 1)).countP fun p => rest.getD p 0 != 0 :=
          List.countP_pos_iff.mpr ⟨j, List.mem_range.mpr (Nat.lt_succ_self j), by
            simpa [List.getD_eq_getElem?_getD, Nat.lt_of_succ_lt_succ hj] using hne⟩
        obtain ⟨c, hc⟩ : ∃ c, ((List.range (j + 1)).countP fun p => rest.getD p 0 != 0) = c + 1 :=
          ⟨_, (Nat.succ_pred_eq_of_pos hpos).symm⟩
        rw [countP_range_cons, if_pos ho, hc, decodeDeltas_add_two, hcur, hnext, ← hc]
        exact decodeDeltas_blockDeltas mem rest o _ j hmem.2 _ hne
    · have ho : o = 0 := not_not.mp ho
      rw [blockDeltas, if_neg (not_not.mpr ho)] at hmem
      cases j with
      | zero => exact absurd ho hne
      | succ j =>
        rw [countP_range_cons, if_neg (not_not.mpr ho), Nat.add_zero]
        exact decodeDeltas_blockDeltas mem rest prev ptr j hmem _ hne

theorem length_encode_le_five (u : UInt32) : (encodeUnsignedLeb128 u.toNat).length ≤ 5 := by
  obtain ⟨k, hk5, hk⟩ := exists_needsBytes u.toNat_lt
  rw [length_encodeUnsignedLeb128_of_needs hk]
  exact hk5

theorem length_blockDeltas_le (prev : UInt32) :
    ∀ block : List UInt32, (blockDeltas prev block).length ≤ 5 * block.length
  | [] => Nat.zero_le _
  | o :: rest => by
    by_cases ho : o ≠ 0
    · rw [blockDeltas, if_pos ho, List.length_append, List.length_cons]
      have := length_encode_le_five (o - prev)
      have := length_blockDeltas_le o rest
      omega
    · rw [blockDeltas, if_neg ho, List.length_cons]
      have := length_blockDeltas_le prev rest
      omega

/-! ### The layout of the data -/

/-- The number of blocks, `RoundUp(offsets.size(), kElementsPerIndex) / kElementsPerIndex`. -/
def numBlocks (offsets : List UInt32) : Nat :=
  (offsets.length + kElementsPerIndex - 1) / kElementsPerIndex

/-- The bytes of the first `n` blocks. -/
def blocksBytes (offsets : List UInt32) (minOffset : UInt32) (n : Nat) : List UInt8 :=
  (List.range n).flatMap fun b => blockBytes minOffset (blockAt offsets b)

/-- The loop over the blocks writes them one after another and records where each starts. -/
theorem buildData_eq (offsets : List UInt32) (minOffset : UInt32) :
    buildData offsets minOffset = (blocksBytes offsets minOffset (numBlocks offsets),
      (List.range (numBlocks offsets)).map fun b => (blocksBytes offsets minOffset b).length) := by
  unfold buildData numBlocks
  generalize (offsets.length + kElementsPerIndex - 1) / kElementsPerIndex = n
  induction n with
  | zero => rfl
  | succ n ih =>
    rw [List.range_succ, List.foldl_append, ih, List.foldl_cons, List.foldl_nil, List.map_append,
      List.map_singleton]
    simp only [blocksBytes, List.range_succ, List.flatMap_append, List.flatMap_singleton]

/-- Block `b` of the first `n` stands after the blocks before it. -/
theorem blocksBytes_split (offsets : List UInt32) (minOffset : UInt32) {b n : Nat} (hb : b < n) :
    ∃ rest, blocksBytes offsets minOffset n =
      blocksBytes offsets minOffset b ++ blockBytes minOffset (blockAt offsets b) ++ rest := by
  obtain ⟨k, rfl⟩ : ∃ k, n = b + 1 + k := ⟨n - (b + 1), by omega⟩
  refine ⟨(List.range k).flatMap fun c => blockBytes minOffset (blockAt offsets (b + 1 + c)), ?_⟩
  simp only [blocksBytes, List.range_add, List.flatMap_append, List.range_succ,
    List.flatMap_singleton, List.flatMap_map]

/-- Offset `i` is offset `i % 16` of block `i / 16`. -/
theorem getElem_blockAt {offsets : List UInt32} {i : Nat} (hi : i < offsets.length) :
    ∃ h : i % kElementsPerIndex < (blockAt offsets (i / kElementsPerIndex)).length,
      (blockAt offsets (i / kElementsPerIndex))[i % kElementsPerIndex] = offsets[i] := by
  have hdiv := Nat.div_add_mod i kElementsPerIndex
  have hlen : i % kElementsPerIndex < (blockAt offsets (i / kElementsPerIndex)).length := by
    simp only [blockAt, List.length_take, List.length_drop, kElementsPerIndex] at hdiv ⊢
    omega
  refine ⟨hlen, ?_⟩
  simp only [blockAt, List.getElem_take, List.getElem_drop]
  congr 1
  rw [Nat.mul_comm]
  exact hdiv

theorem numBlocks_gt {offsets : List UInt32} {i : Nat} (hi : i < offsets.length) :
    i / kElementsPerIndex < numBlocks offsets := by
  unfold numBlocks kElementsPerIndex
  omega

theorem length_blockAt_le (offsets : List UInt32) (b : Nat) :
    (blockAt offsets b).length ≤ kElementsPerIndex := by
  simp [blockAt]

/-- A block takes at most two bytes of mask and five bytes for each of its 16 deltas. -/
theorem length_blocksBytes_le (offsets : List UInt32) (minOffset : UInt32) (n : Nat) :
    (blocksBytes offsets minOffset n).length ≤ 82 * n := by
  induction n with
  | zero => simp [blocksBytes]
  | succ n ih =>
    have hblock := length_blockDeltas_le minOffset (blockAt offsets n)
    have hlen := length_blockAt_le offsets n
    simp only [blocksBytes, List.range_succ, List.flatMap_append, List.flatMap_singleton,
      List.length_append, blockBytes, List.length_cons, List.length_nil] at ih ⊢
    unfold kElementsPerIndex at hlen
    omega

theorem length_blocksBytes_mono (offsets : List UInt32) (minOffset : UInt32) {b n : Nat}
    (hb : b < n) :
    (blocksBytes offsets minOffset b).length ≤ (blocksBytes offsets minOffset n).length := by
  obtain ⟨rest, h⟩ := blocksBytes_split offsets minOffset hb
  rw [h, List.length_append, List.length_append]
  omega

theorem length_alignmentPad (data : List UInt8) :
    (alignmentPad data 4).length = data.length + (4 - data.length % 4) % 4 := by
  simp [alignmentPad]

/-- Entry `b` of a table of `width`-byte little-endian words, read from the memory holding it. -/
theorem loadBytes_flatMap_toBytes {mem : Memory} {width : Nat} : ∀ {a : Nat} {table : List Nat},
    loadBytes mem a (table.flatMap (toBytes width)).length = table.flatMap (toBytes width) →
    ∀ {b : Nat} (hb : b < table.length), loadBytes mem (a + width * b) width = toBytes width table[b]
  | _, [], _, _, hb => absurd hb (Nat.not_lt_zero _)
  | a, x :: t, h, b, hb => by
    rw [List.flatMap_cons, loadBytes_append, length_toBytes] at h
    cases b with
    | zero => simpa using h.1
    | succ b =>
      have hrest := loadBytes_flatMap_toBytes h.2 (Nat.lt_of_succ_lt_succ hb)
      rw [show a + width * (b + 1) = a + width + width * b by rw [Nat.mul_succ]; omega]
      exact hrest

theorem buildWithOffsets_eq (offsets : List UInt32) : buildWithOffsets offsets =
    (alignmentPad (blocksBytes offsets (minimumOffset offsets) (numBlocks offsets)) 4 ++
      ((List.range (numBlocks offsets)).map fun b =>
        (blocksBytes offsets (minimumOffset offsets) b).length).flatMap (toBytes 4),
      minimumOffset offsets,
      (alignmentPad (blocksBytes offsets (minimumOffset offsets) (numBlocks offsets)) 4).length) := by
  simp only [buildWithOffsets, buildData_eq]

/-- Fewer than 2^29 offsets keep the data below 4 GiB: at most 2^25 blocks of at most 82 bytes. -/
theorem length_blocksBytes_lt {offsets : List UInt32} (hsize : offsets.length < 2 ^ 29)
    (minOffset : UInt32) : (blocksBytes offsets minOffset (numBlocks offsets)).length + 3 < 2 ^ 32 := by
  have hlen := length_blocksBytes_le offsets minOffset (numBlocks offsets)
  have hnum : numBlocks offsets ≤ 2 ^ 25 := by
    unfold numBlocks kElementsPerIndex
    omega
  omega

/-! ### Every offset reads back -/

/-- `GetOffset` in terms of the block start it reads from the table and the mask it reads
there: the deltas are decoded only when the index's bit is set. -/
theorem getOffset_eq {mem : Memory} {acc : Accessor} {index block mask : Nat}
    (hblock : acc.dataBegin + readU32 mem (acc.table + 4 * (index / kElementsPerIndex)) = block)
    (hmask : ((mem block).toNat <<< 8 ||| (mem (block + 1)).toNat) % 2 ^ 16 = mask) :
    acc.getOffset mem index =
      if mask.testBit (index % kElementsPerIndex) then
        decodeDeltas mem (block + 2) acc.minimumOffset
          (BitVec.ofNat 64 mask <<< (64 - 1 - index % kElementsPerIndex)).cpop.toNat
      else 0 := by
  dsimp only [Accessor.getOffset]
  rw [hblock, hmask, Nat.one_shiftLeft, Nat.and_two_pow]
  cases mask.testBit (index % kElementsPerIndex) <;> simp

/-- `GetOffset` of the accessor over the data `Build` wrote, at any address, gives back every
offset. -/
theorem getOffset_make {offsets : List UInt32} (hsize : offsets.length < 2 ^ 29) {mem : Memory}
    {dataBegin : Nat}
    (hmem : loadBytes mem dataBegin (buildWithOffsets offsets).1.length = (buildWithOffsets offsets).1)
    {i : Nat} (hi : i < offsets.length) :
    (Accessor.make dataBegin (buildWithOffsets offsets).2.1 (buildWithOffsets offsets).2.2).getOffset
      mem i = offsets[i] := by
  obtain ⟨hj, hblock⟩ := getElem_blockAt hi
  have hb := numBlocks_gt hi
  have hbound := length_blocksBytes_lt hsize (minimumOffset offsets)
  rw [buildWithOffsets_eq] at hmem ⊢
  obtain ⟨hdata, htable⟩ := loadBytes_append.mp hmem
  -- the table entry of block `i / 16` is where the block starts
  have hentry : readU32 mem (dataBegin + (alignmentPad (blocksBytes offsets (minimumOffset offsets)
      (numBlocks offsets)) 4).length + 4 * (i / kElementsPerIndex)) =
      (blocksBytes offsets (minimumOffset offsets) (i / kElementsPerIndex)).length := by
    have hmono := length_blocksBytes_mono offsets (minimumOffset offsets) hb
    rw [readU32, loadBytes_flatMap_toBytes htable (by simpa using hb), List.getElem_map,
      List.getElem_range, ofBytes_toBytes]
    exact Nat.mod_eq_of_lt (by omega)
  -- the block's bytes, as the blocks before it take up its start
  obtain ⟨rest, hsplit⟩ := blocksBytes_split offsets (minimumOffset offsets) hb
  rw [alignmentPad, loadBytes_append, hsplit, loadBytes_append, loadBytes_append, blockBytes,
    List.cons_append, List.cons_append, List.nil_append, loadBytes_cons, loadBytes_cons] at hdata
  obtain ⟨⟨⟨-, hhi, hlo, hdeltas⟩, -⟩, -⟩ := hdata
  have hmask := maskBytes_toNat (blockMask_lt (length_blockAt_le offsets (i / kElementsPerIndex)))
  rw [← hhi, ← hlo] at hmask
  rw [getOffset_eq (by rw [Accessor.make, hentry]) hmask]
  -- the bit of index `i` is set exactly when the offset is nonzero
  have hbit : (blockMask (blockAt offsets (i / kElementsPerIndex))).testBit (i % kElementsPerIndex) =
      (offsets[i] != 0) := by
    rw [testBit_blockMask, List.getD_eq_getElem _ _ hj, hblock, decide_eq_true hj, Bool.true_and]
  rw [hbit]
  by_cases hz : offsets[i] = 0
  · simp [hz]
  · rw [if_pos (bne_iff_ne.mpr hz), count_blockMask hj (Nat.mod_lt _ (by decide)), Nat.add_assoc]
    exact (decodeDeltas_blockDeltas mem _ _ _ _ hdeltas hj (hblock ▸ hz)).trans hblock

theorem build_eq (offsets : List UInt32) : build offsets =
    toBytes 4 (buildWithOffsets offsets).2.1.toNat ++ toBytes 4 (buildWithOffsets offsets).2.2 ++
      (buildWithOffsets offsets).1 := rfl

/-- The header `Build(offsets, out_data)` writes in front reads back as the minimum offset and
the table offset, which fits its `uint32_t` while the data stays below 4 GiB. -/
theorem ofData_build {offsets : List UInt32} (hsize : offsets.length < 2 ^ 29) {mem : Memory}
    {base : Nat} (hmem : loadBytes mem base (build offsets).length = build offsets) :
    Accessor.ofData mem base =
        Accessor.make (base + 8) (buildWithOffsets offsets).2.1 (buildWithOffsets offsets).2.2 ∧
      loadBytes mem (base + 8) (buildWithOffsets offsets).1.length = (buildWithOffsets offsets).1 := by
  have hbound := length_blocksBytes_lt hsize (minimumOffset offsets)
  have hpad := length_alignmentPad (blocksBytes offsets (minimumOffset offsets) (numBlocks offsets))
  rw [build_eq, loadBytes_append, loadBytes_append, length_toBytes, List.length_append,
    length_toBytes, length_toBytes] at hmem
  obtain ⟨⟨hmin, htab⟩, hdata⟩ := hmem
  refine ⟨?_, hdata⟩
  have hmin' : readU32 mem base = (minimumOffset offsets).toNat := by
    rw [readU32, hmin, ofBytes_toBytes, buildWithOffsets_eq]
    exact Nat.mod_eq_of_lt (UInt32.toNat_lt _)
  have htab' : readU32 mem (base + 4) = (buildWithOffsets offsets).2.2 := by
    rw [readU32, htab, ofBytes_toBytes, buildWithOffsets_eq]
    exact Nat.mod_eq_of_lt (by dsimp only; omega)
  rw [Accessor.ofData, hmin', htab', UInt32.ofNat_toNat, buildWithOffsets_eq]

theorem compactOffsetTable_round_trip (offsets : List UInt32) (hsize : offsets.length < 2 ^ 29)
    (mem : Memory) (base : Nat) (hmem : loadBytes mem base (build offsets).length = build offsets) :
    (buildWithOffsets offsets).2.2 % 4 = 0 ∧
      ∀ i (hi : i < offsets.length), (Accessor.ofData mem base).getOffset mem i = offsets[i] := by
  obtain ⟨hacc, hdata⟩ := ofData_build hsize hmem
  refine ⟨?_, fun i hi => ?_⟩
  · rw [buildWithOffsets_eq]
    dsimp only
    rw [length_alignmentPad]
    omega
  · rw [hacc]
    exact getOffset_make hsize hdata hi

/-- The source test's pattern of a delta that wraps: `1234569` after `1234584` in one block. -/
theorem compactOffsetTable_round_trip_wrapping :
    let offsets : List UInt32 := [0, 1234584, 1234569, 0, 1234578]
    offsets.length < 2 ^ 29 ∧
      loadBytes (storeBytes (fun _ => 0) 0 (build offsets)) 0 (build offsets).length =
        build offsets ∧
      (Accessor.ofData (storeBytes (fun _ => 0) 0 (build offsets)) 0).getOffset
        (storeBytes (fun _ => 0) 0 (build offsets)) 2 = 1234569 :=
  ⟨by decide, loadBytes_storeBytes _,
    (compactOffsetTable_round_trip _ (by decide) _ 0 (loadBytes_storeBytes _)).2 2 (by decide)⟩

/-! ### Data of 4 GiB -/

/-- Block `b` of offsets made of copies of one block of 16 is that block. -/
theorem blockAt_replicate {block : List UInt32} (hlen : block.length = kElementsPerIndex)
    {b n : Nat} (hb : b < n) : blockAt (List.replicate n block).flatten b = block := by
  rw [blockAt, ← hlen, drop_flatten_replicate block hb.le]
  obtain ⟨k, hk⟩ : ∃ k, n - b = k + 1 := ⟨n - b - 1, by omega⟩
  rw [hk, List.replicate_succ, List.flatten_cons, List.take_left' rfl]

/-- Offsets whose blocks are all one block are written as copies of its bytes. -/
theorem blocksBytes_of_blockAt {offsets block : List UInt32} {minOffset : UInt32} {n : Nat}
    (h : ∀ b < n, blockAt offsets b = block) :
    blocksBytes offsets minOffset n = (List.replicate n (blockBytes minOffset block)).flatten := by
  induction n with
  | zero => rfl
  | succ n ih =>
    rw [blocksBytes, List.range_succ, List.flatMap_append, List.flatMap_singleton, ← blocksBytes,
      ih fun b hb => h b (Nat.lt_succ_of_lt hb), h n (Nat.lt_succ_self n), List.replicate_succ',
      List.flatten_append, List.flatten_singleton]

/-- The minimum loop never leaves a nonzero start for zero. -/
theorem foldl_minimum_ne_zero : ∀ (xs : List UInt32) {s : UInt32}, s ≠ 0 →
    xs.foldl (fun m offset => if offset ≠ 0 then min m offset else m) s ≠ 0
  | [], _, hs => hs
  | x :: xs, s, hs => by
    rw [List.foldl_cons]
    refine foldl_minimum_ne_zero xs ?_
    split_ifs with hx
    · rw [UInt32.min_def]; split <;> assumption
    · exact hs

theorem min_one {x : UInt32} (hx : x ≠ 0) : min x 1 = 1 ∧ min 1 x = 1 := by
  have hx' : 1 ≤ x.toNat := Nat.pos_of_ne_zero fun h => hx (UInt32.toNat_inj.mp h)
  rw [UInt32.min_def, UInt32.min_def]
  constructor
  · split_ifs with h
    · rw [UInt32.le_iff_toNat_le] at h
      exact UInt32.toNat_inj.mp (by simp at h ⊢; omega)
    · rfl
  · rw [if_pos (UInt32.le_iff_toNat_le.mpr (by simpa using hx'))]

/-- Once at 1 the minimum loop stays there. -/
theorem foldl_minimum_one : ∀ xs : List UInt32,
    xs.foldl (fun m offset => if offset ≠ 0 then min m offset else m) 1 = 1
  | [] => rfl
  | x :: xs => by
    rw [List.foldl_cons]
    split_ifs with hx
    · rw [(min_one hx).2]; exact foldl_minimum_one xs
    · exact foldl_minimum_one xs

/-- An offset of 1 is the smallest nonzero one. -/
theorem minimumOffset_of_one_mem {offsets : List UInt32} (h : 1 ∈ offsets) :
    minimumOffset offsets = 1 := by
  obtain ⟨pre, post, rfl⟩ := List.append_of_mem h
  have hpre := foldl_minimum_ne_zero pre (s := 0xFFFFFFFF) (by decide)
  rw [minimumOffset, List.foldl_append, List.foldl_cons, if_pos (by decide), (min_one hpre).1,
    foldl_minimum_one]

/-- Six offsets whose deltas from the minimum offset 1 all take five bytes of LEB128: a block of
32 bytes. -/
def wideBlock : List UInt32 :=
  [0, 0, 0, 0, 0, 0, 0, 0, 0x80000001, 0x10000001, 0x80000001, 0x10000001, 0x80000001, 1, 0, 0]

theorem blockBytes_wideBlock : blockBytes 1 wideBlock =
    [0x3F, 0x00, 0x80, 0x80, 0x80, 0x80, 0x08, 0x80, 0x80, 0x80, 0x80, 0x09, 0x80, 0x80, 0x80,
      0x80, 0x07, 0x80, 0x80, 0x80, 0x80, 0x09, 0x80, 0x80, 0x80, 0x80, 0x07, 0x80, 0x80, 0x80,
      0x80, 0x08] := by
  simp [blockBytes, blockDeltas, wideBlock, encodeUnsignedLeb128_of_le, encodeUnsignedLeb128_of_lt]
  decide

/-- 2^27 copies of `wideBlock`: 2^31 offsets and 4 GiB of data, whose size wraps to 0 in the
`uint32_t` table offset. -/
def wideOffsets : List UInt32 := (List.replicate (2 ^ 27) wideBlock).flatten

/-- Past 4 GiB of data the table offset wraps: the accessor reads the table from the start of
the data, takes the first block's bytes for the start of block 0, and reads offset 8 as 0. -/
theorem getOffset_wideOffsets :
    wideOffsets.length = 2 ^ 31 ∧
      (Accessor.ofData (storeBytes (fun _ => 0) 0 (build wideOffsets)) 0).getOffset
        (storeBytes (fun _ => 0) 0 (build wideOffsets)) 8 = 0 ∧
      wideOffsets[8]? = some 0x80000001 := by
  have hlen : wideBlock.length = kElementsPerIndex := rfl
  have hnum : numBlocks wideOffsets = 2 ^ 27 := by
    rw [numBlocks, wideOffsets, length_flatten_replicate, hlen]
    rfl
  have hmin : minimumOffset wideOffsets = 1 :=
    minimumOffset_of_one_mem (List.mem_flatten.mpr ⟨wideBlock,
      List.mem_replicate.mpr ⟨by decide, rfl⟩, by decide⟩)
  have hD : blocksBytes wideOffsets 1 (2 ^ 27) =
      (List.replicate (2 ^ 27) (blockBytes 1 wideBlock)).flatten :=
    blocksBytes_of_blockAt fun b hb => blockAt_replicate hlen hb
  have hX : (blockBytes 1 wideBlock).length = 32 := by rw [blockBytes_wideBlock]; rfl
  have hDlen : (List.replicate (2 ^ 27) (blockBytes 1 wideBlock)).flatten.length = 2 ^ 32 := by
    rw [length_flatten_replicate, hX]
    rfl
  have hpad : alignmentPad (List.replicate (2 ^ 27) (blockBytes 1 wideBlock)).flatten 4 =
      (List.replicate (2 ^ 27) (blockBytes 1 wideBlock)).flatten := by
    rw [alignmentPad, hDlen, show (4 - 2 ^ 32 % 4) % 4 = 0 by rfl, List.replicate_zero,
      List.append_nil]
  have hmem : loadBytes (storeBytes (fun _ => 0) 0 (build wideOffsets)) 0
      (build wideOffsets).length = build wideOffsets := loadBytes_storeBytes _
  generalize storeBytes (fun _ => 0) 0 (build wideOffsets) = mem at hmem ⊢
  rw [build_eq, loadBytes_append, loadBytes_append, length_toBytes, List.length_append,
    length_toBytes, length_toBytes, buildWithOffsets_eq, hmin, hnum, hD, hpad] at hmem
  obtain ⟨⟨h0, h4⟩, hdata⟩ := hmem
  rw [hDlen] at h4
  -- the header: the minimum offset 1, and a table offset of 2^32 stored as 0
  have hacc : Accessor.ofData mem 0 = Accessor.make 8 1 0 := by
    rw [Accessor.ofData, readU32, readU32, h0, h4, ofBytes_toBytes, ofBytes_toBytes]
    rfl
  -- the data: byte `i` is byte `i % 32` of the block
  have hbyte : ∀ i < 2 ^ 32, mem (8 + i) = (blockBytes 1 wideBlock).getD (i % 32) 0 := by
    intro i hi
    have hD' := (loadBytes_append.mp hdata).1
    rw [apply_of_loadBytes hD' (by rw [hDlen]; exact hi), ← List.getD_eq_getElem _ 0,
      getD_flatten_replicate _ _ _ _ (by rw [hX]; exact hi), hX]
  -- the table entry of block 0 is read from the first block's bytes
  have hoff : readU32 mem (8 + 0 + 4 * (8 / kElementsPerIndex)) = 0x8080003F := by
    have hload : loadBytes mem 8 4 = [mem (8 + 0), mem (8 + 1), mem (8 + 2), mem (8 + 3)] := rfl
    rw [show 8 + 0 + 4 * (8 / kElementsPerIndex) = 8 by rfl, readU32, hload,
      hbyte 0 (by decide), hbyte 1 (by decide), hbyte 2 (by decide), hbyte 3 (by decide),
      blockBytes_wideBlock]
    rfl
  have hhi := hbyte 0x8080003F (by decide)
  have hlo : mem (8 + 0x8080003F + 1) = _ := hbyte 0x80800040 (by decide)
  rw [blockBytes_wideBlock] at hhi hlo
  refine ⟨by rw [wideOffsets, length_flatten_replicate, hlen]; rfl, ?_, ?_⟩
  swap
  · rw [wideOffsets, show 2 ^ 27 = (2 ^ 27 - 1) + 1 by rfl, List.replicate_succ, List.flatten_cons,
      List.getElem?_append_left (by decide)]
    rfl
  rw [hacc]
  have hmask : ((mem (8 + 0x8080003F)).toNat <<< 8 ||| (mem (8 + 0x8080003F + 1)).toNat) % 2 ^ 16 =
      0x083F := by
    rw [hhi, hlo]
    rfl
  -- the accessor's fields as closed numbers, so that no open term meets a large literal
  have hblock : (Accessor.make 8 1 0).dataBegin +
      readU32 mem ((Accessor.make 8 1 0).table + 4 * (8 / kElementsPerIndex)) = 8 + 0x8080003F := by
    rw [show (Accessor.make 8 1 0).dataBegin = 8 from rfl,
      show (Accessor.make 8 1 0).table = 8 + 0 from rfl, hoff]
  rw [getOffset_eq hblock hmask, if_neg (by decide)]

end CompactOffsetTable

end AndroidArt.Dex
