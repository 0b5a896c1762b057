/-
Module: AndroidArt.Runtime.DexRegisterMap
Purpose: the delta compression of dex register maps. `StackMapStream::CreateDexRegisterMap` emits
  a register at a stack map when it differs from the one emitted last for it, or when that
  emission is more than `kMaxDexRegisterMapSearchDistance` stack maps old, and sets its bit in
  the stack map's mask; `CodeInfo::DecodeDexRegisterMap` scans the stack maps backwards and takes
  for each register the most recent emission.
Trusted boundary: the decoder reads a `CodeInfo` through a `CodeInfoView`: the mask of a stack
  map (`none` for `kNoValue`), the first row of its map, and the catalogue entry of each row of
  `dex_register_maps_`; the theorems hold for every view whose masks have the bits the stream set
  and whose catalogue holds no `kInvalid` location. The stream keeps, for a stack map, its whole
  `temp_dex_register_mask_` and the locations its map reads back as (the catalogue row of a live
  register, `None()` for `kNoValue`), not the deduplicated table rows. The loop over the mask in
  chunks of 32 bits with `CTZ` is one loop over the bits in increasing order.
  `remaining_registers` and `distance` are natural numbers: the first is decremented only for a
  register still `kInvalid`, which it counts, and no timestamp is above `stack_maps_.size()`, so
  neither `uint32_t` wraps. The other `DCHECK`s of the stream are not modelled.
Main exports: createDexRegisterMap, endStackMapEntry, runStream, decodeDexRegisterMap
-/
import AndroidArt.Lib.PackedBits

namespace AndroidArt.Runtime

open AndroidArt.Lib

/-- `kMaxDexRegisterMapSearchDistance`. -/
def kMaxDexRegisterMapSearchDistance : Nat := 32

/-- `DexRegisterLocation::Kind`. -/
inductive DexRegisterLocation.Kind where
  | kInvalid
  | kNone
  | kInStack
  | kConstant
  | kInRegister
  | kInRegisterHigh
  | kInFpuRegister
  | kInFpuRegisterHigh
deriving DecidableEq, Repr

/-- A `DexRegisterLocation`: its kind and its value. -/
structure DexRegisterLocation where
  kind : DexRegisterLocation.Kind
  value : Int
deriving DecidableEq, Repr

namespace DexRegisterLocation

/-- `DexRegisterLocation::None()`. -/
def none : DexRegisterLocation := ⟨.kNone, 0⟩

/-- `DexRegisterLocation::Invalid()`. -/
def invalid : DexRegisterLocation := ⟨.kInvalid, 0⟩

/-- `IsLive()`. -/
def isLive (reg : DexRegisterLocation) : Bool := reg.kind != .kNone

end DexRegisterLocation

/-- `std::vector::resize(n, value)`. -/
def resize {α : Type} (l : List α) (n : Nat) (value : α) : List α :=
  l.take n ++ List.replicate (n - l.length) value

/-- `BitVector::GetNumberOfBits()`: one past the highest set bit, `0` when no bit is set. -/
def getNumberOfBits : List Bool → Nat
  | [] => 0
  | b :: bits =>
    if getNumberOfBits bits ≠ 0 then getNumberOfBits bits + 1 else if b then 1 else 0

/-- `BitMemoryRegion::PopCount(bit_offset, bit_length)`. -/
def popCount (bits : List Bool) (bitOffset bitLength : Nat) : Nat :=
  ((bits.drop bitOffset).take bitLength).count true

/-! ### The stream -/

/-- What a stack map holds of its dex registers: its mask (`none` for `kNoValue`) and its map
(`none` when the stack map has no dex register). -/
structure StackMapDexRegisters where
  dexRegisterMask : Option (List Bool)
  dexRegisterMap : Option (List DexRegisterLocation)
deriving DecidableEq, Repr

/-- A stack map without dex registers. -/
def StackMapDexRegisters.empty : StackMapDexRegisters := ⟨Option.none, Option.none⟩

/-- The fields of a `StackMapStream` that `CreateDexRegisterMap` reads and writes: the stack maps
added so far, `previous_dex_registers_`, `dex_register_timestamp_`, `temp_dex_register_mask_` and
`temp_dex_register_map_`. -/
structure DexRegisterStream where
  stackMaps : List StackMapDexRegisters
  previousDexRegisters : List DexRegisterLocation
  dexRegisterTimestamp : List Nat
  tempDexRegisterMask : List Bool
  tempDexRegisterMap : List DexRegisterLocation
deriving DecidableEq, Repr

namespace DexRegisterStream

/-- A stream that has added no stack map. -/
def initial : DexRegisterStream := ⟨[], [], [], [], []⟩

/-- Whether the loop of `CreateDexRegisterMap` emits register `i` of `current`: it changed since
it was emitted last, or that was more than `kMaxDexRegisterMapSearchDistance` stack maps ago. -/
def emitsDexRegister (current : List DexRegisterLocation) (st : DexRegisterStream) (i : Nat) :
    Bool :=
  st.previousDexRegisters.getD i .none != current.getD i .none ||
    decide (st.stackMaps.length - st.dexRegisterTimestamp.getD i 0 >
      kMaxDexRegisterMapSearchDistance)

/-- The loop body of `CreateDexRegisterMap` for register `i`: an emitted register gets its bit in
the mask, its location in the map, and the current stack map as its timestamp. -/
def emitDexRegister (current : List DexRegisterLocation) (st : DexRegisterStream) (i : Nat) :
    DexRegisterStream :=
  if st.emitsDexRegister current i then
    let reg := current.getD i .none
    { st with
      tempDexRegisterMask := st.tempDexRegisterMask.set i true
      tempDexRegisterMap := st.tempDexRegisterMap ++ [if reg.isLive then reg else .none]
      previousDexRegisters := st.previousDexRegisters.set i reg
      dexRegisterTimestamp := st.dexRegisterTimestamp.set i st.stackMaps.length }
  else st

/-- The state `CreateDexRegisterMap` starts its loop from: the temporary mask and map cleared, and
the previous registers and timestamps grown to the registers of the stack map. -/
def prepare (current : List DexRegisterLocation) (st : DexRegisterStream) : DexRegisterStream :=
  let st := { st with tempDexRegisterMask := List.replicate current.length false,
                      tempDexRegisterMap := [] }
  if st.previousDexRegisters.length < current.length then
    { st with
      previousDexRegisters := resize st.previousDexRegisters current.length .none
      dexRegisterTimestamp := resize st.dexRegisterTimestamp current.length 0 }
  else st

/-- `CreateDexRegisterMap()` for the registers `current` of the stack map being ended. -/
def createDexRegisterMap (current : List DexRegisterLocation) (st : DexRegisterStream) :
    DexRegisterStream :=
  (List.range current.length).foldl (emitDexRegister current) (prepare current st)

/-- `EndStackMapEntry()` as far as the dex registers go: `CreateDexRegisterMap` for a stack map
with registers, whose mask is kept when a bit of it is set, then `stack_maps_.Add`. -/
def endStackMapEntry (st : DexRegisterStream) (current : List DexRegisterLocation) :
    DexRegisterStream :=
  if current.isEmpty then { st with stackMaps := st.stackMaps ++ [.empty] }
  else
    let st := createDexRegisterMap current st
    let mask := if getNumberOfBits st.tempDexRegisterMask ≠ 0 then some st.tempDexRegisterMask
      else Option.none
    { st with stackMaps := st.stackMaps ++ [⟨mask, some st.tempDexRegisterMap⟩] }

end DexRegisterStream

/-- The stream after the stack maps whose dex registers are `maps`, one after another. -/
def runStream (maps : List (List DexRegisterLocation)) : DexRegisterStream :=
  maps.foldl DexRegisterStream.endStackMapEntry .initial

/-! ### The decoder -/

/-- What `DecodeDexRegisterMap` reads of a `CodeInfo`: the mask of each stack map (`none` for
`kNoValue`), `GetDexRegisterMapIndex()` of each stack map, and
`GetDexRegisterCatalogEntry(dex_register_maps_.Get(map_index))` for each row of the map table. -/
structure CodeInfoView where
  dexRegisterMaskOf : Nat → Option (List Bool)
  dexRegisterMapIndexOf : Nat → Nat
  dexRegisterEntryAt : Nat → DexRegisterLocation

/-- What the loop of `DecodeDexRegisterMap` keeps: the registers of the map,
`remaining_registers`, and whether the `Unbounded search` check failed at a stack map it
visited. -/
structure DecodeState where
  regs : List DexRegisterLocation
  remainingRegisters : Nat
  unboundedSearch : Bool
deriving DecidableEq, Repr

section Decode

variable (view : CodeInfoView)

/-- The inner loop for the bit of register `reg` of the mask past `first`: a register still
`kInvalid` takes the catalogue entry at `map_index`, and `map_index` moves past every set bit. -/
def decodeBit (mask : List Bool) (first : Nat) (acc : DecodeState × Nat) (reg : Nat) :
    DecodeState × Nat :=
  if mask.getD (first + reg) false then
    if (acc.1.regs.getD reg .none).kind = .kInvalid then
      ({ acc.1 with
          regs := acc.1.regs.set reg (view.dexRegisterEntryAt acc.2)
          remainingRegisters := acc.1.remainingRegisters - 1 }, acc.2 + 1)
    else (acc.1, acc.2 + 1)
  else acc

/-- The body of the backward scan at stack map `s`: nothing when it has no mask or no bit from
`first` on, else the registers of its mask, from the row of its map past the rows of the registers
before `first`. -/
def decodeStackMap (first s : Nat) (st : DecodeState) : DecodeState :=
  match view.dexRegisterMaskOf s with
  | Option.none => st
  | some mask =>
    if mask.length ≤ first then st
    else
      let mapIndex := view.dexRegisterMapIndexOf s + popCount mask 0 first
      let last := min st.regs.length (mask.length - first)
      ((List.range last).foldl (decodeBit view mask first) (st, mapIndex)).1

/-- The backward scan over the stack maps below `s`, from `s - 1` down to `0`, while registers
remain; the `Unbounded search` check at each stack map it visits. -/
def scanStackMaps (stackMapIndex first : Nat) : Nat → DecodeState → DecodeState
  | 0, st => st
  | s + 1, st =>
    if st.remainingRegisters = 0 then st
    else
      let st := { st with
        unboundedSearch := st.unboundedSearch ||
          decide (stackMapIndex - s > kMaxDexRegisterMapSearchDistance) }
      scanStackMaps stackMapIndex first s (decodeStackMap view first s st)

/-- `DecodeDexRegisterMap(stack_map_index, first_dex_register, map)` for a map of `count`
registers: the scan from `stack_map_index` down, then `None()` for every register it did not
find. -/
def decodeDexRegisterMap (stackMapIndex first count : Nat) : DecodeState :=
  let st := scanStackMaps view stackMapIndex first (stackMapIndex + 1)
    ⟨List.replicate count .invalid, count, false⟩
  if st.remainingRegisters ≠ 0 then
    { st with regs := st.regs.map fun reg => if reg.kind = .kInvalid then .none else reg }
  else st

end Decode

/-! ### Reading the lists -/

section ListAccess

variable {α : Type}

theorem getD_concat_length (l : List α) (a d : α) : (l ++ [a]).getD l.length d = a := by
  simp only [List.getD_eq_getElem?_getD, List.getElem?_concat_length, Option.getD_some]

theorem getD_resize {l : List α} {n : Nat} (hn : l.length ≤ n) (i : Nat) (value : α) :
    (resize l n value).getD i value = l.getD i value := by
  rw [resize, List.take_of_length_le hn]
  simp only [List.getD_eq_getElem?_getD, List.getElem?_append, List.getElem?_replicate]
  split_ifs <;> simp_all

theorem length_resize (l : List α) (n : Nat) (value : α) : (resize l n value).length = n := by
  simp only [resize, List.length_append, List.length_take, List.length_replicate]
  omega

end ListAccess

theorem getNumberOfBits_ne_zero {bits : List Bool} {r : Nat} (h : bits.getD r false = true) :
    getNumberOfBits bits ≠ 0 := by
  induction bits generalizing r with
  | nil => simp at h
  | cons b bits ih =>
    rw [getNumberOfBits]
    cases r with
    | zero =>
      simp only [List.getD_cons_zero] at h
      split_ifs <;> simp_all
    | succ r =>
      simp only [List.getD_cons_succ] at h
      simp [ih h]

/-! ### What the stream emits -/

/-- The bit `r` of a stack map's mask; a stack map without a mask has none set. -/
def maskBit (mask : Option (List Bool)) (r : Nat) : Bool :=
  match mask with
  | Option.none => false
  | some bits => bits.getD r false

/-- Register `r` of stack map `i` has its bit set at a stack map at most
`kMaxDexRegisterMapSearchDistance` back, or stack map `i` is one of the first
`kMaxDexRegisterMapSearchDistance + 1`. -/
def FoundWithin (masks : Nat → Option (List Bool)) (i r : Nat) : Prop :=
  (∃ s ≤ i, i - s ≤ kMaxDexRegisterMapSearchDistance ∧ maskBit (masks s) r = true) ∨
    i ≤ kMaxDexRegisterMapSearchDistance

/-- A register found within the distance stays found when the masks up to its stack map keep its
bit. -/
theorem FoundWithin.mono {masks masks' : Nat → Option (List Bool)} {i r : Nat}
    (h : FoundWithin masks i r) (heq : ∀ s ≤ i, maskBit (masks' s) r = maskBit (masks s) r) :
    FoundWithin masks' i r := by
  rcases h with ⟨s, hs, hdistance, hbit⟩ | hsmall
  · exact .inl ⟨s, hs, hdistance, by rw [heq s hs]; exact hbit⟩
  · exact .inr hsmall

namespace DexRegisterStream

/-- The masks of the stack maps the stream has added. -/
def masks (st : DexRegisterStream) (s : Nat) : Option (List Bool) :=
  (st.stackMaps.getD s .empty).dexRegisterMask

/-- What the stream keeps between stack maps: a timestamp for each register it has met, each the
index of a stack map already added, and each either a stack map whose mask has the register's bit
or the `0` that `resize` gave. -/
structure StreamInv (st : DexRegisterStream) : Prop where
  length_timestamp : st.dexRegisterTimestamp.length = st.previousDexRegisters.length
  timestamp_lt : ∀ r < st.dexRegisterTimestamp.length,
    st.dexRegisterTimestamp.getD r 0 < st.stackMaps.length
  timestamp_emitted : ∀ r < st.dexRegisterTimestamp.length,
    maskBit (st.masks (st.dexRegisterTimestamp.getD r 0)) r = true ∨
      st.dexRegisterTimestamp.getD r 0 = 0

theorem streamInv_initial : StreamInv initial :=
  ⟨rfl, fun _ h => absurd h (Nat.not_lt_zero _), fun _ h => absurd h (Nat.not_lt_zero _)⟩

/-- The masks of the stack maps added before stay as they were. -/
theorem masks_append {st : DexRegisterStream} {s : Nat} (hs : s < st.stackMaps.length)
    (more : List StackMapDexRegisters) :
    (st.stackMaps ++ more).getD s .empty = st.stackMaps.getD s .empty :=
  getD_append_left hs more _

section Loop

variable {current : List DexRegisterLocation}

/-- `prepare` grows the previous registers and the timestamps with `None()` and `0`, which is what
reading past their end gives: nothing the loop reads changes. -/
theorem emitsDexRegister_prepare {st : DexRegisterStream}
    (hlen : st.dexRegisterTimestamp.length = st.previousDexRegisters.length) (r : Nat) :
    (prepare current st).emitsDexRegister current r = st.emitsDexRegister current r := by
  simp only [prepare]
  split_ifs with hlt
  · simp only [emitsDexRegister, getD_resize (Nat.le_of_lt hlt), getD_resize (hlen ▸ Nat.le_of_lt hlt)]
  · rfl

/-- The loop of `CreateDexRegisterMap` after the registers below `j`, from `st0`: it added no
stack map, changed no length, left the registers from `j` on alone, and gave each register below
`j` that it emitted its bit and the current stack map as timestamp. -/
structure LoopFrame (current : List DexRegisterLocation) (st0 st : DexRegisterStream) (j : Nat) :
    Prop where
  stackMaps_eq : st.stackMaps = st0.stackMaps
  length_mask : st.tempDexRegisterMask.length = st0.tempDexRegisterMask.length
  length_timestamp : st.dexRegisterTimestamp.length = st0.dexRegisterTimestamp.length
  length_previous : st.previousDexRegisters.length = st0.previousDexRegisters.length
  above : ∀ r, j ≤ r →
    st.previousDexRegisters.getD r .none = st0.previousDexRegisters.getD r .none ∧
      st.dexRegisterTimestamp.getD r 0 = st0.dexRegisterTimestamp.getD r 0 ∧
      st.tempDexRegisterMask.getD r false = st0.tempDexRegisterMask.getD r false
  below : ∀ r < j,
    st.tempDexRegisterMask.getD r false =
        (st0.emitsDexRegister current r || st0.tempDexRegisterMask.getD r false) ∧
      st.dexRegisterTimestamp.getD r 0 =
        if st0.emitsDexRegister current r then st0.stackMaps.length
        else st0.dexRegisterTimestamp.getD r 0

/-- Register `j` is read as the loop found it. -/
theorem LoopFrame.emitsDexRegister_eq {st0 st : DexRegisterStream} {j : Nat}
    (h : LoopFrame current st0 st j) :
    st.emitsDexRegister current j = st0.emitsDexRegister current j := by
  obtain ⟨hprev, hts, -⟩ := h.above j (Nat.le_refl j)
  simp only [emitsDexRegister, hprev, hts, h.stackMaps_eq]

/-- One round of the loop, for a register below the lengths of the mask and the timestamps. -/
theorem LoopFrame.emitDexRegister {st0 st : DexRegisterStream} {j : Nat}
    (h : LoopFrame current st0 st j) (hmask : j < st0.tempDexRegisterMask.length)
    (hts : j < st0.dexRegisterTimestamp.length) :
    LoopFrame current st0 (st.emitDexRegister current j) (j + 1) := by
  have hemits := h.emitsDexRegister_eq
  obtain ⟨hprev, hts0, hmask0⟩ := h.above j (Nat.le_refl j)
  unfold DexRegisterStream.emitDexRegister
  by_cases he : st0.emitsDexRegister current j = true
  · rw [if_pos (hemits.trans he)]
    refine ⟨h.stackMaps_eq, ?_, ?_, ?_, ?_, ?_⟩
    · simp only [List.length_set, h.length_mask]
    · simp only [List.length_set, h.length_timestamp]
    · simp only [List.length_set, h.length_previous]
    · intro r hr
      obtain ⟨h1, h2, h3⟩ := h.above r (by omega)
      have hne : j ≠ r := by omega
      simp only [getD_set, hne, false_and, if_false, h1, h2, h3, and_self]
    · intro r hr
      by_cases hrj : r = j
      · subst hrj
        simp only [getD_set, h.length_mask, h.length_timestamp, hmask, hts, and_self, if_true,
          he, Bool.true_or, h.stackMaps_eq]
      · have hne : j ≠ r := Ne.symm hrj
        simp only [getD_set, hne, false_and, if_false]
        exact h.below r (by omega)
  · rw [if_neg (by rw [hemits]; exact he)]
    refine ⟨h.stackMaps_eq, h.length_mask, h.length_timestamp, h.length_previous,
      fun r hr => h.above r (by omega), fun r hr => ?_⟩
    by_cases hrj : r = j
    · subst hrj
      simp only [hmask0, hts0, he, Bool.false_or, Bool.false_eq_true, if_false, and_self]
    · exact h.below r (by omega)

/-- The whole loop, over the registers below `j`. -/
theorem loopFrame_foldl (st0 : DexRegisterStream) (hmask : current.length ≤ st0.tempDexRegisterMask.length)
    (hts : current.length ≤ st0.dexRegisterTimestamp.length) :
    ∀ j ≤ current.length,
      LoopFrame current st0 ((List.range j).foldl (emitDexRegister current) st0) j := by
  intro j
  induction j with
  | zero =>
    intro _
    exact ⟨rfl, rfl, rfl, rfl, fun _ _ => ⟨rfl, rfl, rfl⟩, fun r hr => absurd hr (Nat.not_lt_zero r)⟩
  | succ j ih =>
    intro hj
    rw [List.range_succ, List.foldl_append, List.foldl_cons, List.foldl_nil]
    exact (ih (by omega)).emitDexRegister (by omega) (by omega)

variable {st : DexRegisterStream}

theorem stackMaps_prepare : (prepare current st).stackMaps = st.stackMaps := by
  simp only [prepare]
  split_ifs <;> rfl

theorem tempDexRegisterMask_prepare :
    (prepare current st).tempDexRegisterMask = List.replicate current.length false := by
  simp only [prepare]
  split_ifs <;> rfl

theorem length_timestamp_prepare
    (hlen : st.dexRegisterTimestamp.length = st.previousDexRegisters.length) :
    (prepare current st).dexRegisterTimestamp.length =
      max st.dexRegisterTimestamp.length current.length := by
  simp only [prepare]
  split_ifs with hlt
  · simp only [length_resize]
    omega
  · simp only
    omega

theorem length_previous_prepare :
    (prepare current st).previousDexRegisters.length =
      max st.previousDexRegisters.length current.length := by
  simp only [prepare]
  split_ifs with hlt
  · simp only [length_resize]
    omega
  · simp only
    omega

theorem timestamp_prepare (hlen : st.dexRegisterTimestamp.length = st.previousDexRegisters.length)
    (r : Nat) : (prepare current st).dexRegisterTimestamp.getD r 0 = st.dexRegisterTimestamp.getD r 0 := by
  simp only [prepare]
  split_ifs with hlt
  · exact getD_resize (hlen ▸ Nat.le_of_lt hlt) r 0
  · rfl

/-- What `CreateDexRegisterMap` does, in terms of the stream before it: the stack maps stay, the
previous registers and the timestamps grow to the registers of the stack map, the mask has the bit
of each register the loop emits, and each emitted register has the current stack map as its
timestamp while the others keep theirs. -/
structure Created (current : List DexRegisterLocation) (st st' : DexRegisterStream) : Prop where
  stackMaps_eq : st'.stackMaps = st.stackMaps
  length_timestamp : st'.dexRegisterTimestamp.length =
    max st.dexRegisterTimestamp.length current.length
  length_previous : st'.previousDexRegisters.length =
    max st.previousDexRegisters.length current.length
  mask : ∀ r < current.length, st'.tempDexRegisterMask.getD r false = st.emitsDexRegister current r
  timestamp : ∀ r, st'.dexRegisterTimestamp.getD r 0 =
    if r < current.length ∧ st.emitsDexRegister current r then st.stackMaps.length
    else st.dexRegisterTimestamp.getD r 0

theorem created_createDexRegisterMap
    (hlen : st.dexRegisterTimestamp.length = st.previousDexRegisters.length) :
    Created current st (createDexRegisterMap current st) := by
  have hmask : current.length ≤ (prepare current st).tempDexRegisterMask.length := by
    simp only [tempDexRegisterMask_prepare, List.length_replicate, Nat.le_refl]
  have hts : current.length ≤ (prepare current st).dexRegisterTimestamp.length := by
    rw [length_timestamp_prepare hlen]
    exact Nat.le_max_right _ _
  have frame := loopFrame_foldl (prepare current st) hmask hts current.length (Nat.le_refl _)
  rw [← createDexRegisterMap] at frame
  refine ⟨frame.stackMaps_eq.trans stackMaps_prepare, ?_, ?_, fun r hr => ?_, fun r => ?_⟩
  · rw [frame.length_timestamp, length_timestamp_prepare hlen]
  · rw [frame.length_previous, length_previous_prepare]
  · rw [(frame.below r hr).1, tempDexRegisterMask_prepare, emitsDexRegister_prepare hlen]
    simp [hr]
  · by_cases hr : r < current.length
    · rw [(frame.below r hr).2, emitsDexRegister_prepare hlen, stackMaps_prepare,
        timestamp_prepare hlen]
      by_cases he : st.emitsDexRegister current r = true <;> simp [hr, he]
    · rw [(frame.above r (Nat.le_of_not_lt hr)).2.1, timestamp_prepare hlen]
      simp [hr]

end Loop

/-! ### Between stack maps -/

theorem maskBit_of_getD {bits : List Bool} {r : Nat} (h : bits.getD r false = true) :
    maskBit (if getNumberOfBits bits ≠ 0 then some bits else Option.none) r = true := by
  rw [if_pos (getNumberOfBits_ne_zero h)]
  exact h

/-- A register the loop does not emit was emitted at most `kMaxDexRegisterMapSearchDistance` stack
maps before. -/
theorem distance_le_of_emitsDexRegister {current : List DexRegisterLocation} {st : DexRegisterStream}
    {r : Nat} (h : st.emitsDexRegister current r = false) :
    st.stackMaps.length - st.dexRegisterTimestamp.getD r 0 ≤ kMaxDexRegisterMapSearchDistance := by
  simp only [emitsDexRegister, Bool.or_eq_false_iff, decide_eq_false_iff_not] at h
  exact Nat.le_of_not_lt h.2

/-- What `EndStackMapEntry` does, in terms of the stream before it: one stack map more, whose
mask has the bit of each register the loop emits; the previous registers and timestamps grown to
the registers of the stack map; each emitted register with the new stack map as its timestamp and
the others with theirs. -/
structure Ended (current : List DexRegisterLocation) (st st' : DexRegisterStream) : Prop where
  stackMaps_eq : ∃ e, st'.stackMaps = st.stackMaps ++ [e]
  length_timestamp : st'.dexRegisterTimestamp.length =
    max st.dexRegisterTimestamp.length current.length
  length_previous : st'.previousDexRegisters.length =
    max st.previousDexRegisters.length current.length
  mask_self : ∀ r < current.length, st.emitsDexRegister current r = true →
    maskBit (st'.masks st.stackMaps.length) r = true
  timestamp : ∀ r, st'.dexRegisterTimestamp.getD r 0 =
    if r < current.length ∧ st.emitsDexRegister current r then st.stackMaps.length
    else st.dexRegisterTimestamp.getD r 0

section Ended

variable {current : List DexRegisterLocation} {st st' : DexRegisterStream}

theorem ended_endStackMapEntry
    (hlen : st.dexRegisterTimestamp.length = st.previousDexRegisters.length) :
    Ended current st (st.endStackMapEntry current) := by
  by_cases hempty : current.isEmpty = true
  · -- a stack map without registers: only `stack_maps_.Add`
    have hnil : current = [] := List.isEmpty_iff.mp hempty
    subst hnil
    simp only [endStackMapEntry, hempty, if_true]
    refine ⟨⟨_, rfl⟩, ?_, ?_, fun r hr => absurd hr (Nat.not_lt_zero r), fun r => ?_⟩
    · simp
    · simp
    · simp
  · have hc : Created current st (createDexRegisterMap current st) :=
      created_createDexRegisterMap hlen
    simp only [endStackMapEntry, hempty, Bool.false_eq_true, if_false]
    refine ⟨⟨_, by rw [hc.stackMaps_eq]⟩, hc.length_timestamp, hc.length_previous,
      fun r hr he => ?_, hc.timestamp⟩
    simp only [masks, hc.stackMaps_eq, getD_concat_length]
    exact maskBit_of_getD ((hc.mask r hr).trans he)

/-- The masks of the stack maps before `EndStackMapEntry` stay as they were. -/
theorem Ended.masks_eq (h : Ended current st st') {s : Nat} (hs : s < st.stackMaps.length) :
    st'.masks s = st.masks s := by
  obtain ⟨e, he⟩ := h.stackMaps_eq
  simp only [masks, he, masks_append hs]

/-- `EndStackMapEntry` keeps the invariant. -/
theorem Ended.streamInv (h : Ended current st st') (hinv : StreamInv st) : StreamInv st' := by
  obtain ⟨e, he⟩ := h.stackMaps_eq
  have hlength : st'.stackMaps.length = st.stackMaps.length + 1 := by
    simp only [he, List.length_append, List.length_singleton]
  refine ⟨by rw [h.length_timestamp, h.length_previous, hinv.length_timestamp], fun r _ => ?_,
    fun r _ => ?_⟩
  · -- the new timestamp is the new stack map, or an old one, or the `0` of `resize`
    rw [h.timestamp r, hlength]
    split_ifs
    · exact Nat.lt_succ_self _
    · by_cases hr : r < st.dexRegisterTimestamp.length
      · exact Nat.lt_succ_of_lt (hinv.timestamp_lt r hr)
      · rw [getD_of_length_le (Nat.le_of_not_lt hr)]
        exact Nat.succ_pos _
  · rw [h.timestamp r]
    split_ifs with hemit
    · exact .inl (h.mask_self r hemit.1 hemit.2)
    · by_cases hr : r < st.dexRegisterTimestamp.length
      · rw [h.masks_eq (hinv.timestamp_lt r hr)]
        exact hinv.timestamp_emitted r hr
      · exact .inr (getD_of_length_le (Nat.le_of_not_lt hr) 0)

/-- Every register of the stack map `EndStackMapEntry` adds has its bit set at most
`kMaxDexRegisterMapSearchDistance` stack maps back: at this one when the loop emits it, else at
the one its timestamp names, which the loop found close enough, or nowhere when the stack map is
among the first ones. -/
theorem Ended.foundWithin (h : Ended current st st') (hinv : StreamInv st) {r : Nat}
    (hr : r < current.length) : FoundWithin st'.masks st.stackMaps.length r := by
  cases he : st.emitsDexRegister current r with
  | true =>
    exact .inl ⟨st.stackMaps.length, Nat.le_refl _, by simp [kMaxDexRegisterMapSearchDistance],
      h.mask_self r hr he⟩
  | false =>
    have hdistance := distance_le_of_emitsDexRegister he
    by_cases hts : r < st.dexRegisterTimestamp.length
    · have hlt := hinv.timestamp_lt r hts
      rcases hinv.timestamp_emitted r hts with hbit | hzero
      · exact .inl ⟨_, Nat.le_of_lt hlt, hdistance, by rw [h.masks_eq hlt]; exact hbit⟩
      · rw [hzero] at hdistance
        exact .inr (by omega)
    · rw [getD_of_length_le (Nat.le_of_not_lt hts)] at hdistance
      exact .inr (by omega)

end Ended

/-- A run of `EndStackMapEntry` from a stream that added the stack maps `done` keeps the invariant,
adds one stack map per call, and leaves every register of every stack map found within the
distance.  The induction is on the stack maps still to add, with the ones added so far
generalised. -/
theorem foldl_endStackMapEntry :
    ∀ (maps done : List (List DexRegisterLocation)) (st : DexRegisterStream), StreamInv st →
      st.stackMaps.length = done.length →
      (∀ i < done.length, ∀ r < (done.getD i []).length, FoundWithin st.masks i r) →
      StreamInv (maps.foldl endStackMapEntry st) ∧
        (maps.foldl endStackMapEntry st).stackMaps.length = done.length + maps.length ∧
        ∀ i < done.length + maps.length, ∀ r < ((done ++ maps).getD i []).length,
          FoundWithin (maps.foldl endStackMapEntry st).masks i r
  | [], done, st, hinv, hlength, hfound => by
    simp only [List.foldl_nil, List.length_nil, Nat.add_zero, List.append_nil]
    exact ⟨hinv, hlength, hfound⟩
  | current :: maps, done, st, hinv, hlength, hfound => by
    have h : Ended current st (st.endStackMapEntry current) :=
      ended_endStackMapEntry hinv.length_timestamp
    obtain ⟨e, he⟩ := h.stackMaps_eq
    have hlength' : (st.endStackMapEntry current).stackMaps.length = (done ++ [current]).length := by
      simp only [he, List.length_append, List.length_singleton, hlength]
    -- the stack maps before keep their registers found; the new one has its own
    have hfound' : ∀ i < (done ++ [current]).length, ∀ r < ((done ++ [current]).getD i []).length,
        FoundWithin (st.endStackMapEntry current).masks i r := by
      intro i hi r hr
      by_cases hold : i < done.length
      · rw [getD_append_left hold] at hr
        exact FoundWithin.mono (hfound i hold r hr) fun s hs => by rw [h.masks_eq (by omega)]
      · have hi' : i = done.length := by
          simp only [List.length_append, List.length_singleton] at hi
          omega
        subst hi'
        rw [getD_concat_length] at hr
        rw [← hlength]
        exact h.foundWithin hinv hr
    have ih := foldl_endStackMapEntry maps (done ++ [current]) _ (h.streamInv hinv) hlength' hfound'
    simp only [List.foldl_cons, List.length_append, List.length_cons, List.length_nil,
      List.append_assoc, List.singleton_append] at ih ⊢
    refine ⟨ih.1, by omega, fun i hi r hr => ih.2.2 i (by omega) r hr⟩

end DexRegisterStream

/-- Over every run of the stream, every register of every stack map has its bit set at most
`kMaxDexRegisterMapSearchDistance` stack maps back, or the stack map is one of the first
`kMaxDexRegisterMapSearchDistance + 1`. -/
theorem foundWithin_runStream (maps : List (List DexRegisterLocation)) :
    ∀ i < maps.length, ∀ r < (maps.getD i []).length, FoundWithin (runStream maps).masks i r := by
  have h := DexRegisterStream.foldl_endStackMapEntry maps [] .initial
    DexRegisterStream.streamInv_initial rfl (fun i hi => absurd hi (Nat.not_lt_zero i))
  simpa [runStream] using h.2.2

/-! ### The backward scan -/

/-- `remaining_registers` counts the registers still `kInvalid`. -/
def Counted (st : DecodeState) : Prop :=
  st.remainingRegisters = st.regs.countP fun reg => reg.kind = .kInvalid

/-- Register `k` of the map is set: it is no longer `kInvalid`. -/
def IsSet (st : DecodeState) (k : Nat) : Prop :=
  (st.regs.getD k .none).kind ≠ .kInvalid

/-- `st'` is `st` with more registers set: as many registers, the same check, `remaining_registers`
still counting, and every register set in `st` still set. -/
structure Extends (st st' : DecodeState) : Prop where
  length_regs : st'.regs.length = st.regs.length
  unboundedSearch_eq : st'.unboundedSearch = st.unboundedSearch
  counted : Counted st → Counted st'
  isSet : ∀ k, IsSet st k → IsSet st' k

theorem Extends.refl (st : DecodeState) : Extends st st := ⟨rfl, rfl, id, fun _ => id⟩

theorem Extends.trans {st st' st'' : DecodeState} (h : Extends st st') (h' : Extends st' st'') :
    Extends st st'' :=
  ⟨h'.length_regs.trans h.length_regs, h'.unboundedSearch_eq.trans h.unboundedSearch_eq,
    h'.counted ∘ h.counted, fun k hk => h'.isSet k (h.isSet k hk)⟩

section Scan

variable {view : CodeInfoView}
  (hentries : ∀ k, (view.dexRegisterEntryAt k).kind ≠ .kInvalid)
include hentries

/-- One bit of the inner loop sets at most one register, and only one still `kInvalid`, which is
inside the map since reading past its end gives `None()`. -/
theorem decodeBit_extends (mask : List Bool) (first : Nat) (acc : DecodeState × Nat) (reg : Nat) :
    Extends acc.1 (decodeBit view mask first acc reg).1 := by
  unfold decodeBit
  split_ifs with hbit hinvalid
  · have hreg : reg < acc.1.regs.length := by
      by_contra hout
      rw [getD_of_length_le (Nat.le_of_not_lt hout)] at hinvalid
      exact absurd hinvalid (by simp [DexRegisterLocation.none])
    have hget : (acc.1.regs.getD reg .none) = acc.1.regs[reg] := by
      simp only [List.getD_eq_getElem?_getD, List.getElem?_eq_getElem hreg, Option.getD_some]
    refine ⟨List.length_set, rfl, fun hcounted => ?_, fun k hk => ?_⟩
    · -- the register leaves the count of `kInvalid` ones
      rw [hget] at hinvalid
      simp only [Counted, List.countP_set hreg, hinvalid, decide_true, if_true, hentries,
        decide_false, Bool.false_eq_true, if_false, Nat.add_zero] at hcounted ⊢
      rw [hcounted]
    · unfold IsSet
      rw [getD_set]
      split_ifs
      · exact hentries _
      · exact hk
  · exact Extends.refl _
  · exact Extends.refl _

/-- The bit of a register inside the map, once read, leaves it set. -/
theorem decodeBit_isSet {mask : List Bool} {first : Nat} (acc : DecodeState × Nat) {reg : Nat}
    (hbit : mask.getD (first + reg) false = true) :
    IsSet (decodeBit view mask first acc reg).1 reg := by
  unfold decodeBit
  rw [if_pos hbit]
  split_ifs with hinvalid
  · by_cases hreg : reg < acc.1.regs.length
    · unfold IsSet
      rw [getD_set, if_pos ⟨rfl, hreg⟩]
      exact hentries _
    · rw [getD_of_length_le (Nat.le_of_not_lt hreg)] at hinvalid
      exact absurd hinvalid (by simp [DexRegisterLocation.none])
  · exact hinvalid

theorem foldl_decodeBit_extends (mask : List Bool) (first : Nat) :
    ∀ (regs : List Nat) (acc : DecodeState × Nat),
      Extends acc.1 (regs.foldl (decodeBit view mask first) acc).1
  | [], _ => Extends.refl _
  | reg :: regs, acc =>
    (decodeBit_extends hentries mask first acc reg).trans
      (foldl_decodeBit_extends mask first regs _)

/-- The inner loop sets every register whose bit it reads. -/
theorem foldl_decodeBit_isSet (mask : List Bool) (first : Nat) :
    ∀ (regs : List Nat) (acc : DecodeState × Nat), ∀ reg ∈ regs,
      mask.getD (first + reg) false = true → IsSet (regs.foldl (decodeBit view mask first) acc).1 reg
  | [], _, reg, hmem, _ => absurd hmem List.not_mem_nil
  | x :: regs, acc, reg, hmem, hbit => by
    rw [List.foldl_cons]
    rcases List.mem_cons.mp hmem with rfl | hmem
    · exact (foldl_decodeBit_extends hentries mask first regs _).isSet _
        (decodeBit_isSet hentries acc hbit)
    · exact foldl_decodeBit_isSet mask first regs _ reg hmem hbit

theorem decodeStackMap_extends (first s : Nat) (st : DecodeState) :
    Extends st (decodeStackMap view first s st) := by
  unfold decodeStackMap
  split
  · exact Extends.refl _
  · split_ifs
    · exact Extends.refl _
    · dsimp only
      exact foldl_decodeBit_extends hentries _ first _ (st, _)

/-- The scan at a stack map sets every register of the map whose bit its mask has. -/
theorem decodeStackMap_isSet {first s : Nat} {st : DecodeState} {k : Nat}
    (hk : k < st.regs.length) (hbit : maskBit (view.dexRegisterMaskOf s) (first + k) = true) :
    IsSet (decodeStackMap view first s st) k := by
  unfold decodeStackMap
  split
  · rename_i hnone
    rw [hnone] at hbit
    exact absurd hbit (by simp [maskBit])
  · rename_i mask hmask
    rw [hmask] at hbit
    have hin : first + k < mask.length := by
      by_contra hout
      simp only [maskBit, getD_of_length_le (Nat.le_of_not_lt hout)] at hbit
      exact absurd hbit (by decide)
    rw [if_neg (by omega)]
    dsimp only
    exact foldl_decodeBit_isSet hentries mask first _ _ k
      (List.mem_range.mpr (by omega)) hbit

end Scan

/-- The scan before it visits the stack maps below `next`: the map keeps its `count` registers,
`remaining_registers` counts the `kInvalid` ones, and every register whose bit is set at a stack
map from `next` to `stackMapIndex` is set. -/
structure ScanInv (view : CodeInfoView) (stackMapIndex first count next : Nat) (st : DecodeState) :
    Prop where
  length_regs : st.regs.length = count
  counted : Counted st
  isSet : ∀ k < count, ∀ s, next ≤ s → s ≤ stackMapIndex →
    maskBit (view.dexRegisterMaskOf s) (first + k) = true → IsSet st k

section Bounded

variable {view : CodeInfoView} {stackMapIndex first count : Nat}

/-- When every register has its bit set at a stack map the scan visited, none remains. -/
theorem ScanInv.remaining_eq_zero {next : Nat} {st : DecodeState}
    (h : ScanInv view stackMapIndex first count next st)
    (hseen : ∀ k < count, ∃ s, next ≤ s ∧ s ≤ stackMapIndex ∧
      maskBit (view.dexRegisterMaskOf s) (first + k) = true) :
    st.remainingRegisters = 0 := by
  rw [h.counted, List.countP_eq_zero]
  intro reg hmem hinvalid
  obtain ⟨k, hk, rfl⟩ := List.getElem_of_mem hmem
  obtain ⟨s, hs, hs', hbit⟩ := hseen k (h.length_regs ▸ hk)
  have hset := h.isSet k (h.length_regs ▸ hk) s hs hs' hbit
  simp only [IsSet, List.getD_eq_getElem?_getD, List.getElem?_eq_getElem hk, Option.getD_some]
    at hset
  exact hset (of_decide_eq_true hinvalid)

/-- The scan at stack map `s` carries the invariant from the stack maps above `s` to `s`. -/
theorem ScanInv.decodeStackMap (hentries : ∀ k, (view.dexRegisterEntryAt k).kind ≠ .kInvalid)
    {s : Nat} {st : DecodeState} (h : ScanInv view stackMapIndex first count (s + 1) st)
    (flag : Bool) :
    ScanInv view stackMapIndex first count s
      (decodeStackMap view first s { st with unboundedSearch := flag }) := by
  have hext := decodeStackMap_extends hentries first s { st with unboundedSearch := flag }
  refine ⟨hext.length_regs.trans h.length_regs, hext.counted h.counted,
    fun k hk s' hs hs' hbit => ?_⟩
  by_cases hat : s' = s
  · subst hat
    exact decodeStackMap_isSet hentries (by simp only [h.length_regs]; exact hk) hbit
  · exact hext.isSet k (h.isSet k hk s' (by omega) hs' hbit)

/-- The backward scan never visits a stack map more than `kMaxDexRegisterMapSearchDistance` below
`stackMapIndex` when every register is found within that distance: by then all of them are set.
The induction is on the stack maps left to visit, with `ScanInv` as the invariant. -/
theorem scanStackMaps_bounded (hentries : ∀ k, (view.dexRegisterEntryAt k).kind ≠ .kInvalid)
    (hfound : ∀ k < count, FoundWithin view.dexRegisterMaskOf stackMapIndex (first + k)) :
    ∀ (next : Nat) (st : DecodeState), next ≤ stackMapIndex + 1 →
      ScanInv view stackMapIndex first count next st → st.unboundedSearch = false →
      (scanStackMaps view stackMapIndex first next st).unboundedSearch = false
  | 0, st, _, _, hflag => hflag
  | s + 1, st, hs, hinv, hflag => by
    simp only [scanStackMaps]
    split_ifs with hzero
    · exact hflag
    · -- were stack map `s` too far, every register would have been found above it
      have hwithin : ¬ stackMapIndex - s > kMaxDexRegisterMapSearchDistance := by
        intro hfar
        apply hzero
        apply hinv.remaining_eq_zero
        intro k hk
        rcases hfound k hk with ⟨s', hs', hdistance, hbit⟩ | hsmall
        · exact ⟨s', by omega, hs', hbit⟩
        · omega
      apply scanStackMaps_bounded hentries hfound s _ (by omega) (hinv.decodeStackMap hentries _)
      rw [(decodeStackMap_extends hentries first s _).unboundedSearch_eq]
      simp [hflag, hwithin]

/-- `DecodeDexRegisterMap` never fails its `Unbounded search` check when every register of the map
is found within `kMaxDexRegisterMapSearchDistance` stack maps. -/
theorem decodeDexRegisterMap_bounded
    (hentries : ∀ k, (view.dexRegisterEntryAt k).kind ≠ .kInvalid)
    (hfound : ∀ k < count, FoundWithin view.dexRegisterMaskOf stackMapIndex (first + k)) :
    (decodeDexRegisterMap view stackMapIndex first count).unboundedSearch = false := by
  have hinit : ScanInv view stackMapIndex first count (stackMapIndex + 1)
      ⟨List.replicate count .invalid, count, false⟩ :=
    ⟨List.length_replicate, by simp [Counted, List.countP_replicate, DexRegisterLocation.invalid],
      fun k _ s hs hs' _ => absurd hs' (by omega)⟩
  have hscan := scanStackMaps_bounded hentries hfound (stackMapIndex + 1) _ (Nat.le_refl _) hinit
    rfl
  simp only [decodeDexRegisterMap]
  split_ifs <;> exact hscan

end Bounded

/-- Over every run of the stream and every stack map `i` of it, a `DecodeDexRegisterMap` of any
range of its registers (from `0`, or from the first register of an inline depth) on a `CodeInfo`
whose masks have the bits the stream set and whose catalogue holds no `kInvalid` location finds
every register of the range at a stack map at most `kMaxDexRegisterMapSearchDistance` back (or
`i` is one of the first ones and the scan cannot go further), and its `Unbounded search` check
never fails. -/
theorem decodeDexRegisterMap_search_within_distance (maps : List (List DexRegisterLocation))
    (view : CodeInfoView)
    (hmask : ∀ s < maps.length, ∀ r,
      maskBit (view.dexRegisterMaskOf s) r = maskBit ((runStream maps).masks s) r)
    (hentries : ∀ k, (view.dexRegisterEntryAt k).kind ≠ .kInvalid)
    {i : Nat} (hi : i < maps.length) {first count : Nat}
    (hrange : first + count ≤ (maps.getD i []).length) :
    (∀ k < count, FoundWithin view.dexRegisterMaskOf i (first + k)) ∧
      (decodeDexRegisterMap view i first count).unboundedSearch = false := by
  have hfound : ∀ k < count, FoundWithin view.dexRegisterMaskOf i (first + k) := by
    intro k hk
    exact FoundWithin.mono (foundWithin_runStream maps i hi (first + k) (by omega))
      fun s hs => hmask s (by omega) (first + k)
  exact ⟨hfound, decodeDexRegisterMap_bounded hentries hfound⟩

/-- Forty stack maps that each hold the constant `7` in their one register: the stream emits it at
stack maps `0` and `33` only, and decoding it at stack map `39` stops at `33`. -/
theorem decodeDexRegisterMap_search_within_distance_at_39 :
    let maps : List (List DexRegisterLocation) := List.replicate 40 [⟨.kConstant, 7⟩]
    39 < maps.length ∧ 0 + 1 ≤ (maps.getD 39 []).length ∧
      (decodeDexRegisterMap ⟨(runStream maps).masks, fun _ => 0, fun _ => .none⟩ 39 0 1
        ).unboundedSearch = false := by
  intro maps
  have hi : 39 < maps.length := by simp [maps]
  have hrange : 0 + 1 ≤ (maps.getD 39 []).length := by simp [maps]
  exact ⟨hi, hrange, (decodeDexRegisterMap_search_within_distance maps
    ⟨(runStream maps).masks, fun _ => 0, fun _ => .none⟩ (fun _ _ _ => by dsimp only)
    (fun _ => by simp [DexRegisterLocation.none]) hi hrange).2⟩

end AndroidArt.Runtime
