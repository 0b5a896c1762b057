/-
Module: AndroidArt.Optimizing.IntrinsicsArm64
Purpose: The `System.arraycopy(char[], int, char[], int, int)` intrinsic of the ARM64 code
  generator (compiler/optimizing/intrinsics_arm64.cc): the locations its builder asks for, the
  code `VisitSystemArrayCopyChar` emits with `CheckSystemArrayCopyPosition` and
  `GenSystemArrayCopyAddresses`, and that code run on the machine of `AndroidArt.Lib.Aarch64`.
Trusted boundary: an object starts with an 8-byte header, so a `char[]` keeps its length at
  offset 8 and its chars from offset 12; an `int` in a register is held zero-extended in the `X`
  register; distinct arrays do not overlap and no object wraps around the address space; the
  register allocator gives the temporaries registers of their own.
Main exports: visitSystemArrayCopyChar, checkSystemArrayCopyPosition,
  genSystemArrayCopyAddresses, visitSystemArrayCopyCharLocations
-/
import AndroidArt.Lib.Aarch64

namespace AndroidArt.Optimizing

open AndroidArt.Lib.Aarch64

namespace IntrinsicsArm64

/-- The labels the code branches to: the slow path's entry and exit, and the copy loop's. -/
inductive Label where
  | slowPathEntry
  | slowPathExit
  | loop
  | done
deriving DecidableEq, Repr

/-- The `Location` of an int input: a core register, or an int constant. -/
inductive Location where
  | register (r : Reg)
  | constant (value : Int)
deriving DecidableEq, Repr

/-- `kSystemArrayCopyCharThreshold`, which mirrors `ARRAYCOPY_SHORT_CHAR_ARRAY_THRESHOLD`. -/
def kSystemArrayCopyCharThreshold : Int := 32

/-- `mirror::Array::LengthOffset()`, behind the object's `klass_` and `monitor_`. -/
def lengthOffset : Nat := 8

/-- `OFFSETOF_MEMBER(Array, first_element_)`. -/
def firstElementOffset : Nat := 12

/-- `mirror::Array::DataOffset(component_size)`: the first element, rounded up to its size. -/
def dataOffset (componentSize : Nat) : Nat :=
  (firstElementOffset + componentSize - 1) / componentSize * componentSize

/-- `OperandFrom(location, DataType::Type::kInt32)`. -/
def operandFrom : Location → Operand
  | .register r => .reg r
  | .constant value => .imm value

/-- `NFlag`: the flags `CCMP` sets when its condition fails, `N` alone. -/
def nFlag : Flags := ⟨true, false, false, false⟩

/-- `CheckSystemArrayCopyPosition(masm, pos, input, length, slow_path, temp,
length_is_input_length)`: the checks that `pos` and `length` lie within `input`. -/
def checkSystemArrayCopyPosition (pos : Location) (input : Reg) (length : Location) (temp : Reg)
    (lengthIsInputLength : Bool) : List (Instr Label) :=
  match pos with
  | .constant posConst =>
    if posConst = 0 then
      if lengthIsInputLength then []
      else
        -- length(input) >= length
        [.ldr .w temp input lengthOffset, .cmp .w temp (operandFrom length),
          .bCond .lt .slowPathEntry]
    else
      -- length(input) >= pos, then (length(input) - pos) >= length
      [.ldr .w temp input lengthOffset, .subs .w temp temp (.imm posConst),
        .bCond .lt .slowPathEntry, .cmp .w temp (operandFrom length), .bCond .lt .slowPathEntry]
  | .register posReg =>
    if lengthIsInputLength then
      -- the only way the copy can succeed is if pos is zero
      [.cbnz .w posReg .slowPathEntry]
    else
      -- pos >= 0, then pos <= length(input) && (length(input) - pos) >= length, the `CCMP`
      -- forcing `LT` when the first comparison fails
      [.tbnz posReg 31 .slowPathEntry, .ldr .w temp input lengthOffset,
        .subs .w temp temp (.reg posReg), .ccmp .w temp (operandFrom length) nFlag .ge,
        .bCond .lt .slowPathEntry]

/-- The addition of `base + position * element_size + offset` for one array. -/
def genArrayAddress (elementSizeShift : Nat) (array : Reg) (position : Location)
    (base : Reg) : List (Instr Label) :=
  let elementSize : Int := 2 ^ elementSizeShift
  let offset : Int := dataOffset (2 ^ elementSizeShift)
  match position with
  | .constant constant => [.add base array (.imm (elementSize * constant + offset))]
  | .register r => [.add base array (.imm offset), .add base base (.lsl r elementSizeShift)]

/-- `GenSystemArrayCopyAddresses(masm, type, src, src_pos, dst, dst_pos, copy_length, src_base,
dst_base, src_end)`, for elements of `2 ^ elementSizeShift` bytes. -/
def genSystemArrayCopyAddresses (elementSizeShift : Nat) (src : Reg) (srcPos : Location)
    (dst : Reg) (dstPos : Location) (copyLength : Location) (srcBase dstBase srcEnd : Reg) :
    List (Instr Label) :=
  genArrayAddress elementSizeShift src srcPos srcBase ++
    genArrayAddress elementSizeShift dst dstPos dstBase ++
    match copyLength with
    | .constant constant => [.add srcEnd srcBase (.imm (2 ^ elementSizeShift * constant))]
    | .register r => [.add srcEnd srcBase (.lsl r elementSizeShift)]

/-- The registers the code of the intrinsic uses: the inputs, the three temporaries of the
`LocationSummary`, and the scratch register `temps.AcquireW()` gives. -/
structure Locations where
  src : Reg
  srcPos : Location
  dst : Reg
  dstPos : Location
  length : Location
  temp0 : Reg
  temp1 : Reg
  temp2 : Reg
  scratch : Reg
deriving DecidableEq, Repr

/-- `Register length`: the checks of the length when it is in a register. -/
def checkLength : Location → List (Instr Label)
  | .register r =>
    -- a negative length is above the threshold as an unsigned value
    [.cmp .w r (.imm kSystemArrayCopyCharThreshold), .bCond .hi .slowPathEntry]
  | .constant _ => []

/-- The copy loop: a char at a time until the source address reaches its end. -/
def copyLoop (l : Locations) : List (Instr Label) :=
  [.bind .loop, .cmp .x l.temp0 (.reg l.temp2), .bCond .eq .done,
    .ldrhPost l.scratch l.temp0 2, .strhPost l.scratch l.temp1 2, .b .loop, .bind .done,
    .bind .slowPathExit]

/-- `IntrinsicCodeGeneratorARM64::VisitSystemArrayCopyChar`. -/
def visitSystemArrayCopyChar (l : Locations) : List (Instr Label) :=
  -- the same array, or a null one, goes to the slow path
  [.cmp .x l.src (.reg l.dst), .bCond .eq .slowPathEntry, .cbz .x l.src .slowPathEntry,
    .cbz .x l.dst .slowPathEntry] ++
  checkLength l.length ++
  checkSystemArrayCopyPosition l.srcPos l.src l.length l.temp0 false ++
  checkSystemArrayCopyPosition l.dstPos l.dst l.length l.temp0 false ++
  genSystemArrayCopyAddresses 1 l.src l.srcPos l.dst l.dstPos l.length l.temp0 l.temp1 l.temp2 ++
  copyLoop l

/-! ### The locations builder -/

/-- An int input of the invoke as the builder sees it: an `HIntConstant`, or another
instruction. -/
inductive Input where
  | intConstant (value : Int)
  | other
deriving DecidableEq, Repr

/-- `Assembler::IsImmAddSub(imm)`: an unsigned 12-bit immediate, or one shifted left by 12. -/
def isImmAddSub (imm : Int) : Bool :=
  decide (0 ≤ imm ∧ imm < 2 ^ 12) || decide (0 ≤ imm ∧ imm < 2 ^ 24 ∧ imm % 2 ^ 12 = 0)

/-- `SetSystemArrayCopyLocationRequires`: the constant a location may hold, `none` for a
register. -/
def locationRequires : Input → Option Int
  | .intConstant value => if isImmAddSub value then some value else none
  | .other => none

/-- `IntrinsicLocationsBuilderARM64::VisitSystemArrayCopyChar`: whether the call is intrinsified,
the bail-outs being a constant position below zero and a constant length out of
`[0, kSystemArrayCopyCharThreshold]`. -/
def visitSystemArrayCopyCharLocations (srcPos dstPos length : Input) : Bool :=
  let negative : Input → Bool
    | .intConstant value => decide (value < 0)
    | .other => false
  let lengthOut : Bool := match length with
    | .intConstant len => decide (len < 0 ∨ len > kSystemArrayCopyCharThreshold)
    | .other => false
  !(negative srcPos || negative dstPos) && !lengthOut

/-- The location the register allocator gave an input is of the kind the builder asked for. -/
def Location.Realizes (input : Input) : Location → Prop
  | .constant value => locationRequires input = some value
  | .register _ => locationRequires input = none

/-- A constant location holds the constant of its input. -/
theorem Location.Realizes.eq_intConstant {input : Input} {value : Int}
    (h : (Location.constant value).Realizes input) : input = .intConstant value := by
  cases input with
  | intConstant constant =>
    simp only [Location.Realizes, locationRequires] at h
    split_ifs at h
    cases h
    rfl
  | other => cases h

/-- What the builder's bail-outs leave to the code: a constant position is not negative, and a
constant length is within the threshold. -/
theorem accepted_constants {srcPosIn dstPosIn lengthIn : Input} {srcPos dstPos length : Location}
    (haccepted : visitSystemArrayCopyCharLocations srcPosIn dstPosIn lengthIn = true)
    (hrealizes : srcPos.Realizes srcPosIn ∧ dstPos.Realizes dstPosIn ∧ length.Realizes lengthIn) :
    (∀ value, srcPos = .constant value → 0 ≤ value) ∧
      (∀ value, dstPos = .constant value → 0 ≤ value) ∧
      (∀ value, length = .constant value → 0 ≤ value ∧ value ≤ kSystemArrayCopyCharThreshold) := by
  obtain ⟨hsrcPos, hdstPos, hlength⟩ := hrealizes
  simp only [visitSystemArrayCopyCharLocations, Bool.not_or, Bool.and_eq_true,
    Bool.not_eq_eq_eq_not, Bool.not_true] at haccepted
  obtain ⟨⟨hsrcNonneg, hdstNonneg⟩, hlengthIn⟩ := haccepted
  refine ⟨fun value hloc => ?_, fun value hloc => ?_, fun value hloc => ?_⟩
  · subst hloc
    rw [hsrcPos.eq_intConstant] at hsrcNonneg
    simpa using hsrcNonneg
  · subst hloc
    rw [hdstPos.eq_intConstant] at hdstNonneg
    simpa using hdstNonneg
  · subst hloc
    rw [hlength.eq_intConstant] at hlengthIn
    simpa using hlengthIn

/-! ### The values the code reads -/

/-- A Java `int`. -/
def IsInt32 (value : Int) : Prop := -2 ^ 31 ≤ value ∧ value < 2 ^ 31

instance : DecidablePred IsInt32 := fun _ => inferInstanceAs (Decidable (_ ∧ _))

/-- An int input as the code sees it: a constant location is the value itself, and a register
holds it zero-extended. -/
def HoldsInt (m : Machine) (value : Int) : Location → Prop
  | .register r => m.regs r = (BitVec.ofInt 32 value).setWidth 64
  | .constant c => c = value

/-- A `char[]` of `length` chars at `ref`, which does not wrap around the address space. -/
def CharArrayAt (mem : Memory) (ref : BitVec 64) (length : Nat) : Prop :=
  length < 2 ^ 31 ∧ ref.toNat + dataOffset 2 + 2 * length < 2 ^ 64 ∧
    mem.read (ref + BitVec.ofNat 64 lengthOffset) 4 = BitVec.ofNat 32 length

/-- The arguments of `arraycopy(src, srcPos, dst, dstPos, length)` as Java passes them, and the
lengths of the two arrays: a reference is an address, null being zero, and the three ints are
Java `int`s. -/
structure Call where
  src : BitVec 64
  srcPos : Int
  dst : BitVec 64
  dstPos : Int
  length : Int
  srcLength : Nat
  dstLength : Nat
  srcPosInt : IsInt32 srcPos
  dstPosInt : IsInt32 dstPos
  lengthInt : IsInt32 length

/-- The calls whose chars the intrinsic copies itself: the arrays distinct and not null, the length
in `[0, kSystemArrayCopyCharThreshold]`, and both ranges within their arrays, which with the
non-null arrays are Java's conditions for `arraycopy` not to throw. -/
def Call.FastPathOk (c : Call) : Prop :=
  c.src ≠ c.dst ∧ c.src ≠ 0 ∧ c.dst ≠ 0 ∧ 0 ≤ c.length ∧ c.length ≤ kSystemArrayCopyCharThreshold ∧
    0 ≤ c.srcPos ∧ 0 ≤ c.dstPos ∧ c.srcPos + c.length ≤ c.srcLength ∧
    c.dstPos + c.length ≤ c.dstLength

instance (c : Call) : Decidable c.FastPathOk := inferInstanceAs (Decidable (_ ∧ _))

/-- The address of char `index` of the `char[]` at `ref`. -/
def charAddress (ref : BitVec 64) (index : Int) : BitVec 64 :=
  ref + BitVec.ofNat 64 (dataOffset 2 + 2 * index.toNat)

/-- The register allocator's side: the three temporaries and the scratch register are four
registers, apart from the register of every input. -/
def Locations.RegistersApart (l : Locations) : Prop :=
  [l.temp0, l.temp1, l.temp2, l.scratch].Nodup ∧
    ∀ t ∈ [l.temp0, l.temp1, l.temp2, l.scratch], t ≠ l.src ∧ t ≠ l.dst ∧
      l.srcPos ≠ .register t ∧ l.dstPos ≠ .register t ∧ l.length ≠ .register t

instance (l : Locations) : Decidable l.RegistersApart := inferInstanceAs (Decidable (_ ∧ _))

/-- The machine on entry to the intrinsic's code for the call `c`: the builder accepted the call's
int inputs, the register allocator gave the locations the builder asked for, the registers hold
the arguments, and the heap holds the arrays, which lie apart when distinct. -/
structure Entry (l : Locations) (srcPosIn dstPosIn lengthIn : Input) (c : Call) (m : Machine) :
    Prop where
  accepted : visitSystemArrayCopyCharLocations srcPosIn dstPosIn lengthIn = true
  realizes : l.srcPos.Realizes srcPosIn ∧ l.dstPos.Realizes dstPosIn ∧ l.length.Realizes lengthIn
  registersApart : l.RegistersApart
  src : m.regs l.src = c.src
  dst : m.regs l.dst = c.dst
  srcPos : HoldsInt m c.srcPos l.srcPos
  dstPos : HoldsInt m c.dstPos l.dstPos
  length : HoldsInt m c.length l.length
  srcArray : c.src ≠ 0 → CharArrayAt m.mem c.src c.srcLength
  dstArray : c.dst ≠ 0 → CharArrayAt m.mem c.dst c.dstLength
  apart : c.src ≠ 0 → c.dst ≠ 0 → c.src ≠ c.dst →
    c.src.toNat + dataOffset 2 + 2 * c.srcLength ≤ c.dst.toNat ∨
      c.dst.toNat + dataOffset 2 + 2 * c.dstLength ≤ c.src.toNat
  start : m.pc = 0

section Values

variable {m : Machine}

theorem toInt_ofInt_of_isInt32 {value : Int} (h : IsInt32 value) :
    (BitVec.ofInt 32 value).toInt = value := by
  rw [BitVec.toInt_ofInt]
  exact Int.bmod_eq_of_le (by have := h.1; omega) (by have := h.2; omega)

theorem toInt_ofNat_32 {n : Nat} (h : n < 2 ^ 31) : (BitVec.ofNat 32 n).toInt = n := by
  rw [BitVec.toInt_eq_toNat_cond, BitVec.toNat_ofNat]
  simp only [show n % 2 ^ 32 = n by omega, show 2 * n < 2 ^ 32 by omega, if_true]

/-- The low word of an int operand is the int. -/
theorem HoldsInt.low {value : Int} {loc : Location} (h : HoldsInt m value loc) :
    (m.operand .w (operandFrom loc)).setWidth 32 = BitVec.ofInt 32 value := by
  cases loc with
  | register r =>
    simp only [HoldsInt] at h
    simp only [operandFrom, Machine.operand, Machine.get, h, BitVec.setWidth_setWidth_of_le _
      (show 32 ≤ 64 by decide), BitVec.setWidth_eq]
  | constant c =>
    simp only [HoldsInt] at h
    subst h
    apply BitVec.eq_of_toNat_eq
    simp only [operandFrom, Machine.operand, BitVec.toNat_setWidth, BitVec.toNat_ofInt]
    omega

/-- An int in a register that the code does not write stays there. -/
theorem HoldsInt.of_frame {m' : Machine} {value : Int} {loc : Location} {written : List Reg}
    {log : List Access} {steps : Nat} (h : HoldsInt m value loc) (hframe : m.Frame m' written log steps)
    (hloc : ∀ r ∈ written, loc ≠ .register r) : HoldsInt m' value loc := by
  cases loc with
  | register r =>
    simp only [HoldsInt] at h ⊢
    rw [hframe.regs r fun hr => hloc r hr rfl, h]
  | constant c => exact h

/-- An int not in the one register the code writes stays where it is. -/
theorem HoldsInt.of_frame_single {m' : Machine} {value : Int} {loc : Location} {r : Reg}
    {log : List Access} {steps : Nat} (h : HoldsInt m value loc) (hframe : m.Frame m' [r] log steps)
    (hloc : loc ≠ .register r) : HoldsInt m' value loc :=
  h.of_frame hframe fun r' hr' => by rwa [List.mem_singleton.mp hr']

/-- The sign bit of an int held in a register. -/
theorem getLsbD_31_of_int {value : Int} (h : IsInt32 value) :
    ((BitVec.ofInt 32 value).setWidth 64).getLsbD 31 = decide (value < 0) := by
  rw [BitVec.getLsbD_setWidth]
  simp only [show 31 < 64 by decide, decide_true, Bool.true_and]
  rw [← BitVec.msb_eq_getLsbD_last, BitVec.msb_eq_toInt, toInt_ofInt_of_isInt32 h]

/-- The address of a char within an array that does not wrap. -/
theorem charAddress_toNat {ref : BitVec 64} {index : Int} {length : Nat}
    (hwrap : ref.toNat + dataOffset 2 + 2 * length < 2 ^ 64) (hindex : index.toNat ≤ length) :
    (charAddress ref index).toNat = ref.toNat + dataOffset 2 + 2 * index.toNat := by
  rw [charAddress, BitVec.toNat_add, BitVec.toNat_ofNat]
  omega

end Values

/-! ### The code, run -/

section Run

variable {code : List (Instr Label)} {m : Machine}

/-- The same array or a null one goes to the slow path. -/
theorem prologue_spec {src dst : Reg} (hout : labelIndex code .slowPathEntry = none)
    (hat : SegmentAt code m.pc [.cmp .x src (.reg dst), .bCond .eq .slowPathEntry,
      .cbz .x src .slowPathEntry, .cbz .x dst .slowPathEntry]) :
    ∃ m', ReachesUnless code m (m.regs src ≠ m.regs dst ∧ m.regs src ≠ 0 ∧ m.regs dst ≠ 0)
      .slowPathEntry m' ∧ m.Frame m' [] [] 4 := by
  obtain ⟨m1, hcmp, hframe1, hflags1, hat1⟩ := Reaches.cmp hat
  have hsame := ReachesUnless.bCond hat1.head hout
  have hsrc := ReachesUnless.cbz (m := m1.next) hat1.tail.head hout
  have hdst := ReachesUnless.cbz (m := m1.next.next) hat1.tail.tail.head hout
  have hregs : ∀ r, m1.regs r = m.regs r := fun r => hframe1.regs r List.not_mem_nil
  refine ⟨m1.next.next.next, ((ReachesUnless.of_reaches hcmp).trans fun _ => hsame.trans fun _ =>
    hsrc.trans fun _ => hdst).congr ?_, ?_⟩
  · simp only [Cond.holds, hflags1, Machine.next, Machine.get, Machine.operand, subsFlags_eq_x,
      hregs, decide_eq_false_iff_not, true_and]
  · simpa using ((((hframe1.trans (Machine.Frame.next m1)).trans (Machine.Frame.next _)).trans
      (Machine.Frame.next _)))

/-- A length in a register goes to the slow path unless it is in
`[0, kSystemArrayCopyCharThreshold]`; the builder has checked a constant one. -/
theorem checkLength_spec {length : Location} {count : Int}
    (hout : labelIndex code .slowPathEntry = none) (hat : SegmentAt code m.pc (checkLength length))
    (hcount : HoldsInt m count length) (hcountInt : IsInt32 count)
    (hconstant : ∀ c, length = .constant c → 0 ≤ c ∧ c ≤ kSystemArrayCopyCharThreshold) :
    ∃ m', ReachesUnless code m (0 ≤ count ∧ count ≤ kSystemArrayCopyCharThreshold)
      .slowPathEntry m' ∧ m.Frame m' [] [] (checkLength length).length := by
  cases length with
  | register r =>
    obtain ⟨m1, hcmp, hframe1, hflags1, hat1⟩ := Reaches.cmp hat
    have hbranch := ReachesUnless.bCond hat1.head hout
    -- an unsigned comparison: a negative length is above the threshold
    have hhi : Cond.hi.holds m1.flags = decide (count < 0 ∨ kSystemArrayCopyCharThreshold < count) := by
      have hthreshold : ((m.operand .w (.imm kSystemArrayCopyCharThreshold)).setWidth 32).toNat = 32 :=
        rfl
      rw [hflags1, subsFlags_hi_w, hthreshold, show (m.get .w r).setWidth 32 = BitVec.ofInt 32 count from
        hcount.low, BitVec.toNat_ofInt]
      apply decide_eq_decide.mpr
      simp only [kSystemArrayCopyCharThreshold, IsInt32] at hcountInt ⊢
      omega
    refine ⟨m1.next, ((ReachesUnless.of_reaches hcmp).trans fun _ => hbranch).congr ?_,
      by simpa [checkLength] using hframe1.trans (Machine.Frame.next m1)⟩
    rw [hhi, decide_eq_false_iff_not, true_and]
    omega
  | constant c =>
    -- no code: the builder has checked the constant
    have hbounds := hconstant c rfl
    simp only [HoldsInt] at hcount
    subst hcount
    exact ⟨m, (ReachesUnless.of_reaches Relation.ReflTransGen.refl).congr (iff_of_true trivial hbounds),
      ⟨fun _ _ => rfl, rfl, (List.append_nil _).symm, rfl⟩⟩

/-- The load of the length field that every check of a position starts with. -/
theorem load_length_spec {input temp : Reg} {arrayLength : Nat} {rest : List (Instr Label)}
    (hat : SegmentAt code m.pc (.ldr .w temp input lengthOffset :: rest))
    (harray : CharArrayAt m.mem (m.regs input) arrayLength) :
    ∃ m', Reaches code m m' ∧
      m.Frame m' [temp] [⟨false, m.regs input + BitVec.ofNat 64 lengthOffset, 4⟩] 1 ∧
      (m'.get .w temp).setWidth 32 = BitVec.ofNat 32 arrayLength ∧ SegmentAt code m'.pc rest := by
  obtain ⟨m', hload, hframe, hfield, hat'⟩ := Reaches.ldr_w hat
  exact ⟨m', hload, hframe, hfield.trans harray.2.2, hat'⟩

theorem checkPosition_register_spec {r input temp : Reg} {length : Location} {pos count : Int}
    {arrayLength : Nat} (hout : labelIndex code .slowPathEntry = none)
    (hat : SegmentAt code m.pc
      (checkSystemArrayCopyPosition (.register r) input length temp false))
    (hpos : HoldsInt m pos (.register r)) (hposInt : IsInt32 pos)
    (hcount : HoldsInt m count length) (hcountRange : 0 ≤ count ∧ count ≤ 32)
    (harray : CharArrayAt m.mem (m.regs input) arrayLength)
    (htemp : temp ≠ r) (htempLength : length ≠ .register temp) :
    ∃ m', ReachesUnless code m (0 ≤ pos ∧ pos + count ≤ arrayLength) .slowPathEntry m' ∧
      m.Frame m' [temp] [⟨false, m.regs input + BitVec.ofNat 64 lengthOffset, 4⟩] 5 := by
  simp only [checkSystemArrayCopyPosition, Bool.false_eq_true, if_false] at hat
  have hsign := ReachesUnless.tbnz hat.head hout
  obtain ⟨m2, hload, hframe2, hfield, hat2⟩ := load_length_spec (m := m.next) hat.tail harray
  obtain ⟨m3, hsubs, hframe3, hflags3, hdifference, hat3⟩ := Reaches.subs_w hat2
  obtain ⟨m4, hccmp, hframe4, hflags4, hat4⟩ := Reaches.ccmp hat3
  have hbranch := ReachesUnless.bCond hat4.head hout
  have hframe : m.Frame m3 [temp] [⟨false, m.regs input + BitVec.ofNat 64 lengthOffset, 4⟩] 3 := by
    simpa [Machine.next] using (((Machine.Frame.next m).trans hframe2).trans hframe3).mono (by simp)
  -- what the instructions compute
  have hbit : (m.regs r).getLsbD 31 = decide (pos < 0) := by
    simp only [HoldsInt] at hpos
    rw [hpos, getLsbD_31_of_int hposInt]
  have hposLow : (m2.operand .w (.reg r)).setWidth 32 = BitVec.ofInt 32 pos :=
    (hpos.of_frame_single (((Machine.Frame.next m).trans hframe2).mono (by simp))
      fun h => htemp (Location.register.inj h).symm).low
  have hge : Cond.ge.holds m3.flags = decide (pos ≤ arrayLength) := by
    rw [hflags3, subsFlags_ge_w, hfield, hposLow, toInt_ofInt_of_isInt32 hposInt,
      toInt_ofNat_32 harray.1]
  have hcountLow : (m3.operand .w (operandFrom length)).setWidth 32 = BitVec.ofInt 32 count :=
    (hcount.of_frame_single hframe htempLength).low
  have hcountInt : IsInt32 count := ⟨by omega, by omega⟩
  have hlt : 0 ≤ pos → Cond.lt.holds m4.flags =
      if pos ≤ arrayLength then decide ((arrayLength : Int) - pos < count) else true := by
    intro hnonneg
    rw [hflags4, hge]
    simp only [decide_eq_true_eq]
    split_ifs with hle
    · rw [subsFlags_lt_w, show (m3.get .w temp).setWidth 32 = _ from hdifference, hfield, hposLow,
        hcountLow, BitVec.toInt_sub, toInt_ofNat_32 harray.1, toInt_ofInt_of_isInt32 hposInt,
        toInt_ofInt_of_isInt32 hcountInt,
        Int.bmod_eq_of_le (by have := harray.1; omega) (by have := harray.1; omega)]
    · rfl
  refine ⟨m4.next, (hsign.trans fun _ => (ReachesUnless.of_reaches
    (hload.trans (hsubs.trans hccmp))).trans fun _ => hbranch).congr ?_, ?_⟩
  · -- the sign bit, then the two comparisons
    rw [hbit, decide_eq_false_iff_not, Int.not_lt, true_and]
    constructor
    · rintro ⟨hnonneg, hcompare⟩
      rw [hlt hnonneg] at hcompare
      -- past the end of the array `CCMP` forced `LT`, which `split_ifs` discards
      split_ifs at hcompare with hle
      rw [decide_eq_false_iff_not] at hcompare
      exact ⟨hnonneg, by omega⟩
    · rintro ⟨hnonneg, hin⟩
      rw [hlt hnonneg, if_pos (by omega), decide_eq_false_iff_not]
      exact ⟨hnonneg, by omega⟩
  · simpa using (hframe.trans hframe4).trans (Machine.Frame.next m4) |>.mono (by simp)

theorem checkPosition_zero_spec {input temp : Reg} {length : Location} {pos count : Int}
    {arrayLength : Nat} (hout : labelIndex code .slowPathEntry = none)
    (hat : SegmentAt code m.pc
      (checkSystemArrayCopyPosition (.constant 0) input length temp false))
    (hpos : HoldsInt m pos (.constant 0)) (hcount : HoldsInt m count length)
    (hcountRange : 0 ≤ count ∧ count ≤ 32) (harray : CharArrayAt m.mem (m.regs input) arrayLength)
    (htempLength : length ≠ .register temp) :
    ∃ m', ReachesUnless code m (0 ≤ pos ∧ pos + count ≤ arrayLength) .slowPathEntry m' ∧
      m.Frame m' [temp] [⟨false, m.regs input + BitVec.ofNat 64 lengthOffset, 4⟩] 3 := by
  simp only [checkSystemArrayCopyPosition, if_true, Bool.false_eq_true, if_false] at hat
  simp only [HoldsInt] at hpos
  subst hpos
  obtain ⟨m1, hload, hframe1, hfield, hat1⟩ := load_length_spec hat harray
  obtain ⟨m2, hcmp, hframe2, hflags2, hat2⟩ := Reaches.cmp hat1
  have hbranch := ReachesUnless.bCond hat2.head hout
  have hcountLow : (m1.operand .w (operandFrom length)).setWidth 32 = BitVec.ofInt 32 count :=
    (hcount.of_frame_single hframe1 htempLength).low
  have hlt : Cond.lt.holds m2.flags = decide ((arrayLength : Int) < count) := by
    rw [hflags2, subsFlags_lt_w, hfield, hcountLow, toInt_ofNat_32 harray.1,
      toInt_ofInt_of_isInt32 ⟨by omega, by omega⟩]
  refine ⟨m2.next, ((ReachesUnless.of_reaches (hload.trans hcmp)).trans fun _ => hbranch).congr ?_,
    by simpa using (hframe1.trans hframe2).trans (Machine.Frame.next m2) |>.mono (by simp)⟩
  rw [hlt, decide_eq_false_iff_not, true_and]
  omega

theorem checkPosition_constant_spec {input temp : Reg} {length : Location} {c pos count : Int}
    {arrayLength : Nat} (hout : labelIndex code .slowPathEntry = none) (hc : c ≠ 0)
    (hat : SegmentAt code m.pc
      (checkSystemArrayCopyPosition (.constant c) input length temp false))
    (hpos : HoldsInt m pos (.constant c)) (hposInt : IsInt32 pos) (hnonneg : 0 ≤ c)
    (hcount : HoldsInt m count length) (hcountRange : 0 ≤ count ∧ count ≤ 32)
    (harray : CharArrayAt m.mem (m.regs input) arrayLength)
    (htempLength : length ≠ .register temp) :
    ∃ m', ReachesUnless code m (0 ≤ pos ∧ pos + count ≤ arrayLength) .slowPathEntry m' ∧
      m.Frame m' [temp] [⟨false, m.regs input + BitVec.ofNat 64 lengthOffset, 4⟩] 5 := by
  simp only [checkSystemArrayCopyPosition, if_neg hc] at hat
  have hconst : HoldsInt m c (.constant c) := rfl
  simp only [HoldsInt] at hpos
  subst hpos
  obtain ⟨m1, hload, hframe1, hfield, hat1⟩ := load_length_spec hat harray
  obtain ⟨m2, hsubs, hframe2, hflags2, hdifference, hat2⟩ := Reaches.subs_w hat1
  have hbelow := ReachesUnless.bCond hat2.head hout
  obtain ⟨m3, hcmp, hframe3, hflags3, hat3⟩ := Reaches.cmp (m := m2.next) hat2.tail
  have hbranch := ReachesUnless.bCond hat3.head hout
  have hframe : m.Frame m2.next [temp] [⟨false, m.regs input + BitVec.ofNat 64 lengthOffset, 4⟩] 3 := by
    simpa using ((hframe1.trans hframe2).trans (Machine.Frame.next m2)).mono (by simp)
  have hcLow : (m1.operand .w (.imm c)).setWidth 32 = BitVec.ofInt 32 c :=
    (hconst.of_frame_single hframe1 fun h => by cases h).low
  have hcountLow : (m2.next.operand .w (operandFrom length)).setWidth 32 = BitVec.ofInt 32 count :=
    (hcount.of_frame_single hframe htempLength).low
  have hbelowValue : Cond.lt.holds m2.flags = decide ((arrayLength : Int) < c) := by
    rw [hflags2, subsFlags_lt_w, hfield, hcLow, toInt_ofNat_32 harray.1,
      toInt_ofInt_of_isInt32 hposInt]
  have hlt : Cond.lt.holds m3.flags = decide ((arrayLength : Int) - c < count) := by
    rw [hflags3, subsFlags_lt_w, show (m2.next.get .w temp).setWidth 32 = _ from hdifference, hfield,
      hcLow, hcountLow, BitVec.toInt_sub, toInt_ofNat_32 harray.1, toInt_ofInt_of_isInt32 hposInt,
      toInt_ofInt_of_isInt32 ⟨by omega, by omega⟩,
      Int.bmod_eq_of_le (by have := harray.1; have := hposInt.2; omega)
        (by have := harray.1; omega)]
  refine ⟨m3.next, ((ReachesUnless.of_reaches (hload.trans hsubs)).trans fun _ =>
    hbelow.trans fun _ => (ReachesUnless.of_reaches hcmp).trans fun _ => hbranch).congr ?_,
    by simpa using (hframe.trans hframe3).trans (Machine.Frame.next m3) |>.mono (by simp)⟩
  rw [hbelowValue, hlt, decide_eq_false_iff_not, decide_eq_false_iff_not, true_and, true_and]
  omega

/-- `CheckSystemArrayCopyPosition` goes to the slow path unless `pos` and `length` lie within the
array, for a position in a register or a constant the builder accepted. -/
theorem checkSystemArrayCopyPosition_spec {pos length : Location} {input temp : Reg}
    {posValue count : Int} {arrayLength : Nat} (hout : labelIndex code .slowPathEntry = none)
    (hat : SegmentAt code m.pc (checkSystemArrayCopyPosition pos input length temp false))
    (hpos : HoldsInt m posValue pos) (hposInt : IsInt32 posValue)
    (hposConstant : ∀ c, pos = .constant c → 0 ≤ c)
    (hcount : HoldsInt m count length) (hcountRange : 0 ≤ count ∧ count ≤ 32)
    (harray : CharArrayAt m.mem (m.regs input) arrayLength)
    (htempPos : pos ≠ .register temp) (htempLength : length ≠ .register temp) :
    ∃ m', ReachesUnless code m (0 ≤ posValue ∧ posValue + count ≤ arrayLength) .slowPathEntry m' ∧
      m.Frame m' [temp] [⟨false, m.regs input + BitVec.ofNat 64 lengthOffset, 4⟩]
        (checkSystemArrayCopyPosition pos input length temp false).length := by
  cases pos with
  | register r =>
    exact checkPosition_register_spec hout hat hpos hposInt hcount hcountRange harray
      (fun h => htempPos (h ▸ rfl)) htempLength
  | constant c =>
    by_cases hc : c = 0
    · subst hc
      exact checkPosition_zero_spec hout hat hpos hcount hcountRange harray htempLength
    · simpa only [checkSystemArrayCopyPosition, if_neg hc, List.length_cons, List.length_nil]
        using checkPosition_constant_spec hout hc hat hpos hposInt (hposConstant c rfl) hcount
          hcountRange harray htempLength

/-- A non-negative int held zero-extended, shifted to a byte offset of chars. -/
theorem setWidth_ofInt_shiftLeft_one {value : Int} (h : 0 ≤ value ∧ value < 2 ^ 31) :
    (BitVec.ofInt 32 value).setWidth 64 <<< 1 = BitVec.ofNat 64 (2 * value.toNat) := by
  apply BitVec.eq_of_toNat_eq
  simp only [BitVec.toNat_shiftLeft, BitVec.toNat_setWidth, BitVec.toNat_ofInt, BitVec.toNat_ofNat]
  rw [Nat.shiftLeft_eq]
  omega

/-- The address of char `position` of the array at `array` in `base`. -/
theorem genArrayAddress_spec {array base : Reg} {position : Location} {p : Int}
    {rest : List (Instr Label)} (hat : SegmentAt code m.pc (genArrayAddress 1 array position base ++ rest))
    (hpos : HoldsInt m p position) (hp : 0 ≤ p ∧ p < 2 ^ 31) (hbase : position ≠ .register base) :
    ∃ m', Reaches code m m' ∧ m.Frame m' [base] [] (genArrayAddress 1 array position base).length ∧
      m'.regs base = m.regs array + BitVec.ofNat 64 (dataOffset 2 + 2 * p.toNat) ∧
      SegmentAt code m'.pc rest := by
  cases position with
  | constant c =>
    simp only [HoldsInt] at hpos
    subst hpos
    obtain ⟨m1, hadd, hframe, hbase1, hat1⟩ := Reaches.add hat
    refine ⟨m1, hadd, hframe, ?_, hat1⟩
    have hoffset : (2 ^ 1 * c + (dataOffset (2 ^ 1) : Int)) = ((dataOffset 2 + 2 * c.toNat : Nat) : Int) := by
      simp only [dataOffset, firstElementOffset]
      omega
    rw [hbase1, Machine.operand, hoffset, BitVec.ofInt_natCast]
  | register r =>
    have hr : r ≠ base := fun h => hbase (h ▸ rfl)
    obtain ⟨m1, hadd1, hframe1, hbase1, hat1⟩ := Reaches.add hat
    obtain ⟨m2, hadd2, hframe2, hbase2, hat2⟩ := Reaches.add hat1
    refine ⟨m2, hadd1.trans hadd2, (hframe1.trans hframe2).mono (by simp), ?_, hat2⟩
    have hindex : m1.regs r = (BitVec.ofInt 32 p).setWidth 64 := by
      rw [hframe1.regs r (by simpa using hr)]
      exact hpos
    have hoffset : dataOffset (2 ^ 1) = dataOffset 2 := rfl
    rw [hbase2, hbase1, Machine.operand, Machine.operand, Machine.get, hindex,
      setWidth_ofInt_shiftLeft_one hp, BitVec.add_assoc, BitVec.ofInt_natCast, ← BitVec.ofNat_add,
      hoffset]

/-- `GenSystemArrayCopyAddresses` for chars: the first source and destination addresses, and the
end of the source. -/
theorem genSystemArrayCopyAddresses_spec {src dst srcBase dstBase srcEnd : Reg}
    {srcPos dstPos length : Location} {p q k : Int} {rest : List (Instr Label)}
    (hat : SegmentAt code m.pc
      (genSystemArrayCopyAddresses 1 src srcPos dst dstPos length srcBase dstBase srcEnd ++ rest))
    (hp : HoldsInt m p srcPos) (hpRange : 0 ≤ p ∧ p < 2 ^ 31)
    (hq : HoldsInt m q dstPos) (hqRange : 0 ≤ q ∧ q < 2 ^ 31)
    (hk : HoldsInt m k length) (hkRange : 0 ≤ k ∧ k < 2 ^ 31)
    (hsrcBase : srcPos ≠ .register srcBase ∧ dst ≠ srcBase ∧ dstPos ≠ .register srcBase ∧
      length ≠ .register srcBase)
    (hdstBase : dstPos ≠ .register dstBase ∧ srcBase ≠ dstBase ∧ length ≠ .register dstBase)
    (hsrcEnd : srcBase ≠ srcEnd ∧ dstBase ≠ srcEnd) :
    ∃ m', Reaches code m m' ∧
      m.Frame m' [srcBase, dstBase, srcEnd] []
        (genSystemArrayCopyAddresses 1 src srcPos dst dstPos length srcBase dstBase srcEnd).length ∧
      m'.regs srcBase = m.regs src + BitVec.ofNat 64 (dataOffset 2 + 2 * p.toNat) ∧
      m'.regs dstBase = m.regs dst + BitVec.ofNat 64 (dataOffset 2 + 2 * q.toNat) ∧
      m'.regs srcEnd = m'.regs srcBase + BitVec.ofNat 64 (2 * k.toNat) ∧
      SegmentAt code m'.pc rest := by
  simp only [genSystemArrayCopyAddresses, List.append_assoc] at hat ⊢
  obtain ⟨m1, hsrc, hframe1, hsrcBase1, hat1⟩ := genArrayAddress_spec hat hp hpRange hsrcBase.1
  obtain ⟨m2, hdst, hframe2, hdstBase2, hat2⟩ :=
    genArrayAddress_spec hat1 (hq.of_frame_single hframe1 hsrcBase.2.2.1) hqRange hdstBase.1
  have hk2 : HoldsInt m2 k length :=
    (hk.of_frame_single hframe1 hsrcBase.2.2.2).of_frame_single hframe2 hdstBase.2.2
  have hsrcBase2 : m2.regs srcBase = m1.regs srcBase :=
    hframe2.regs srcBase (by simpa using hdstBase.2.1)
  have hdst1 : m1.regs dst = m.regs dst := hframe1.regs dst (by simpa using hsrcBase.2.1)
  -- the end of the source, from a constant or a register length
  obtain ⟨m3, hend, hframe3, hsrcEnd3, hat3⟩ : ∃ m3, Reaches code m2 m3 ∧
      m2.Frame m3 [srcEnd] [] 1 ∧ m3.regs srcEnd = m2.regs srcBase + BitVec.ofNat 64 (2 * k.toNat) ∧
      SegmentAt code m3.pc rest := by
    cases length with
    | constant c =>
      simp only [HoldsInt] at hk2
      subst hk2
      obtain ⟨m3, hadd, hframe3, hsrcEnd3, hat3⟩ := Reaches.add hat2
      refine ⟨m3, hadd, hframe3, ?_, hat3⟩
      rw [hsrcEnd3, Machine.operand, show (2 ^ 1 * c : Int) = ((2 * c.toNat : Nat) : Int) by omega,
        BitVec.ofInt_natCast]
    | register r =>
      obtain ⟨m3, hadd, hframe3, hsrcEnd3, hat3⟩ := Reaches.add hat2
      refine ⟨m3, hadd, hframe3, ?_, hat3⟩
      rw [hsrcEnd3, Machine.operand, Machine.get, show m2.regs r = _ from hk2,
        setWidth_ofInt_shiftLeft_one hkRange]
  have hsrcBase3 : m3.regs srcBase = m2.regs srcBase := hframe3.regs srcBase (by simpa using hsrcEnd.1)
  refine ⟨m3, (hsrc.trans hdst).trans hend, ?_, by rw [hsrcBase3, hsrcBase2, hsrcBase1], ?_,
    by rw [hsrcEnd3, hsrcBase3], hat3⟩
  · have hframe := (hframe1.trans hframe2).trans hframe3
    cases length <;> simpa [Nat.add_assoc] using hframe
  · rw [hframe3.regs dstBase (by simpa using hsrcEnd.2), hdstBase2, hdst1]

end Run

/-! ### The copy loop -/

/-- The accesses of the copy loop's first `count` iterations: a char loaded from the source, then
stored to the destination. -/
def copyAccesses (source target : BitVec 64) : Nat → List Access
  | 0 => []
  | j + 1 => copyAccesses source target j ++
      [⟨false, source + BitVec.ofNat 64 (2 * j), 2⟩, ⟨true, target + BitVec.ofNat 64 (2 * j), 2⟩]

/-- The copy loop stands in `code` from `start` on, binds its labels there, and ends the code. -/
structure CopyLoopAt (code : List (Instr Label)) (l : Locations) (start : Nat) : Prop where
  segment : SegmentAt code start (copyLoop l)
  loop : labelIndex code .loop = some start
  done : labelIndex code .done = some (start + 6)
  ends : code.length = start + 8

/-- The copy of `count` chars from `source` to `target`, at the loop's head after `j` iterations:
the addresses of the next chars and of the source's end in the temporaries, the first `j` chars
copied, and their accesses logged. -/
structure CopyLoopState (l : Locations) (start : Nat) (mem : Memory) (accesses : List Access)
    (source target : BitVec 64) (count j : Nat) (m : Machine) : Prop where
  pc : m.pc = start
  current : m.regs l.temp0 = source + BitVec.ofNat 64 (2 * j)
  destination : m.regs l.temp1 = target + BitVec.ofNat 64 (2 * j)
  stop : m.regs l.temp2 = source + BitVec.ofNat 64 (2 * count)
  copied : m.mem = mem.copy source target (2 * j)
  logged : m.accesses = accesses ++ copyAccesses source target j

section CopyLoop

variable {code : List (Instr Label)} {l : Locations} {start : Nat} {mem : Memory}
  {accesses : List Access} {source target : BitVec 64} {count : Nat} {m : Machine}

/-- The addresses of two chars of the source are equal only for the same char. -/
theorem add_ofNat_two_mul_inj {j j' : Nat} (hj : j ≤ count) (hj' : j' ≤ count)
    (hsource : source.toNat + 2 * count < 2 ^ 64) :
    source + BitVec.ofNat 64 (2 * j) = source + BitVec.ofNat 64 (2 * j') ↔ j = j' := by
  constructor
  · intro heq
    have := congrArg BitVec.toNat heq
    simp only [BitVec.toNat_add, BitVec.toNat_ofNat] at this
    omega
  · rintro rfl
    rfl

/-- One iteration: the next char loaded, stored, and both addresses moved on. -/
theorem copyLoop_iteration (hloop : CopyLoopAt code l start)
    (hregs : [l.temp0, l.temp1, l.temp2, l.scratch].Nodup)
    (hsource : source.toNat + 2 * count < 2 ^ 64) (htarget : target.toNat + 2 * count < 2 ^ 64)
    (hapart : source.toNat + 2 * count ≤ target.toNat ∨ target.toNat ≤ source.toNat)
    {j : Nat} (hj : j < count) (hstate : CopyLoopState l start mem accesses source target count j m) :
    ∃ m', Reaches code m m' ∧ CopyLoopState l start mem accesses source target count (j + 1) m' := by
  have hat : SegmentAt code m.pc (copyLoop l) := hstate.pc ▸ hloop.segment
  rw [copyLoop] at hat
  simp only [List.nodup_cons, List.mem_cons, List.not_mem_nil, or_false, not_or] at hregs
  obtain ⟨⟨h01, h02, h0s⟩, ⟨h12, h1s⟩, h2s, -⟩ := hregs
  have hbind : Reaches code m m.next := Reaches.head hat rfl
  obtain ⟨m2, hcmp, hframe2, hflags2, hat2⟩ := Reaches.cmp (m := m.next) hat.tail
  -- the source's end is not reached yet
  have hgo : Cond.eq.holds m2.flags = false := by
    rw [hflags2, Cond.holds, subsFlags_eq_x, decide_eq_false_iff_not]
    simp only [Machine.next, Machine.get, Machine.operand, hstate.current, hstate.stop]
    rw [add_ofNat_two_mul_inj (Nat.le_of_lt hj) (Nat.le_refl count) hsource]
    omega
  have hnext := Reaches.bCond_not_taken hat2.head hgo
  obtain ⟨m3, hload, hframe3, hscratch3, hcurrent3, hat3⟩ := Reaches.ldrhPost (m := m2.next)
    (Ne.symm h0s) hat2.tail
  obtain ⟨m4, hstore, hregs4, hdestination4, hmem4, haccesses4, hat4⟩ := Reaches.strhPost hat3
  have hback := Reaches.b hat4.head hloop.loop
  refine ⟨{ m4 with pc := start },
    hbind.trans (hcmp.trans (hnext.trans (hload.trans (hstore.trans hback)))), ?_⟩
  -- the comparison left registers, memory and log as they were
  have hregs2 : ∀ r, m2.regs r = m.regs r := fun r => hframe2.regs r List.not_mem_nil
  have hmem3 : m3.mem = m.mem := hframe3.mem.trans hframe2.mem
  have hcurrent : m2.next.regs l.temp0 = source + BitVec.ofNat 64 (2 * j) :=
    (hregs2 l.temp0).trans hstate.current
  have hdestination3 : m3.regs l.temp1 = target + BitVec.ofNat 64 (2 * j) := by
    rw [hframe3.regs l.temp1 (by simp [h1s, Ne.symm h01]), Machine.next, hregs2, hstate.destination]
  have hstep : ∀ a : BitVec 64, a + BitVec.ofNat 64 (2 * j) + BitVec.ofNat 64 2 =
      a + BitVec.ofNat 64 (2 * (j + 1)) := fun a => by
    rw [BitVec.add_assoc, ← BitVec.ofNat_add, Nat.mul_succ]
  refine ⟨rfl, ?_, ?_, ?_, ?_, ?_⟩
  · rw [hregs4 l.temp0 h01, hcurrent3, hcurrent, hstep]
  · rw [hdestination4, hdestination3, hstep]
  · rw [hregs4 l.temp2 (Ne.symm h12), hframe3.regs l.temp2 (by simp [h2s, Ne.symm h02]), Machine.next,
      hregs2, hstate.stop]
  · -- the char read from the source is the one the copy so far left there
    have hhalf : (m3.regs l.scratch).setWidth 16 =
        (mem.copy source target (2 * j)).read (source + BitVec.ofNat 64 (2 * j)) 2 := by
      rw [hscratch3, hcurrent, BitVec.setWidth_setWidth_of_le _ (by decide), BitVec.setWidth_eq,
        show m2.next.mem = m.mem from hframe2.mem, hstate.copied]
    show m4.mem = _
    rw [hmem4, hmem3, hstate.copied, hdestination3, hhalf, Memory.write_read_copy (by omega) (by omega)
      (by omega), Nat.mul_succ]
  · show m4.accesses = _
    rw [haccesses4, hframe3.accesses, hdestination3, hcurrent,
      show m2.next.accesses = m.accesses from hframe2.accesses.trans (List.append_nil _),
      hstate.logged, copyAccesses, List.append_assoc, List.append_assoc]
    rfl

/-- The last pass through the loop's head: the source's end is reached, and the code runs off its
end. -/
theorem copyLoop_exit (hloop : CopyLoopAt code l start)
    (hstate : CopyLoopState l start mem accesses source target count count m) :
    ∃ m', Runs code m (.finish m') ∧ m'.mem = mem.copy source target (2 * count) ∧
      m'.accesses = accesses ++ copyAccesses source target count := by
  have hat : SegmentAt code m.pc (copyLoop l) := hstate.pc ▸ hloop.segment
  rw [copyLoop] at hat
  have hbind : Reaches code m m.next := Reaches.head hat rfl
  obtain ⟨m2, hcmp, hframe2, hflags2, -⟩ := Reaches.cmp (m := m.next) hat.tail
  have hstop : Cond.eq.holds m2.flags = true := by
    rw [hflags2, Cond.holds, subsFlags_eq_x, decide_eq_true_iff]
    simp only [Machine.next, Machine.get, Machine.operand, hstate.current, hstate.stop]
  have hexit : Reaches code m2 { m2 with pc := start + 6 } := by
    apply Reaches.bCond_taken _ hstop hloop.done
    rw [hframe2.pc]
    exact hat.tail.tail.head
  -- the two labels bound at the end of the code
  have hat6 : SegmentAt code (start + 6) [.bind .done, .bind .slowPathExit] := by
    have hat6 := hat.tail.tail.tail.tail.tail.tail
    rwa [hstate.pc] at hat6
  have hdone : Reaches code { m2 with pc := start + 6 } { m2 with pc := start + 7 } :=
    Reaches.head hat6 rfl
  have hend : Reaches code { m2 with pc := start + 7 } { m2 with pc := start + 8 } :=
    Reaches.head hat6.tail rfl
  refine ⟨{ m2 with pc := start + 8 }, (hbind.trans (hcmp.trans (hexit.trans (hdone.trans
    hend)))).runs (Runs.finish hloop.ends.symm), ?_, ?_⟩
  · exact hframe2.mem.trans hstate.copied
  · exact (hframe2.accesses.trans (List.append_nil _)).trans hstate.logged

/-- The copy loop from its first iteration: it copies the `count` chars, logs their accesses and
runs off the end of the code. -/
theorem copyLoop_spec (hloop : CopyLoopAt code l start)
    (hregs : [l.temp0, l.temp1, l.temp2, l.scratch].Nodup)
    (hsource : source.toNat + 2 * count < 2 ^ 64) (htarget : target.toNat + 2 * count < 2 ^ 64)
    (hapart : source.toNat + 2 * count ≤ target.toNat ∨ target.toNat ≤ source.toNat)
    (hstate : CopyLoopState l start mem accesses source target count 0 m) :
    ∃ m', Runs code m (.finish m') ∧ m'.mem = mem.copy source target (2 * count) ∧
      m'.accesses = accesses ++ copyAccesses source target count := by
  obtain ⟨m1, hreach, hstate1⟩ := Reaches.of_loop
    (fun j m hj (hstate : CopyLoopState l start mem accesses source target count j m) =>
      copyLoop_iteration hloop hregs hsource htarget hapart hj hstate) (Nat.zero_le count) hstate
  obtain ⟨m', hruns, hmem, haccesses⟩ := copyLoop_exit hloop hstate1
  exact ⟨m', hreach.runs hruns, hmem, haccesses⟩

end CopyLoop

/-! ### The whole code -/

/-- The checks and the address computation bind no label. -/
theorem checkLength_binds (length : Location) (label : Label) :
    ∀ instr ∈ checkLength length, instr.binds label = false := by
  cases length <;> simp [checkLength, Instr.binds]

theorem checkSystemArrayCopyPosition_binds (pos : Location) (input : Reg) (length : Location)
    (temp : Reg) (lengthIsInputLength : Bool) (label : Label) :
    ∀ instr ∈ checkSystemArrayCopyPosition pos input length temp lengthIsInputLength,
      instr.binds label = false := by
  cases pos <;> simp only [checkSystemArrayCopyPosition] <;> split_ifs <;> simp [Instr.binds]

theorem genSystemArrayCopyAddresses_binds (elementSizeShift : Nat) (src : Reg) (srcPos : Location)
    (dst : Reg) (dstPos : Location) (copyLength : Location) (srcBase dstBase srcEnd : Reg)
    (label : Label) :
    ∀ instr ∈ genSystemArrayCopyAddresses elementSizeShift src srcPos dst dstPos copyLength srcBase
      dstBase srcEnd, instr.binds label = false := by
  cases srcPos <;> cases dstPos <;> cases copyLength <;>
    simp [genSystemArrayCopyAddresses, genArrayAddress, Instr.binds]

/-- Where the code binds its labels: the slow path's entry is out of the code, and the copy loop,
with its labels, is the code's last eight instructions. -/
theorem visitSystemArrayCopyChar_layout (l : Locations) :
    labelIndex (visitSystemArrayCopyChar l) .slowPathEntry = none ∧
      CopyLoopAt (visitSystemArrayCopyChar l) l ((visitSystemArrayCopyChar l).length - 8) := by
  -- the checks and the address computation, which bind no label, then the loop
  obtain ⟨pre, hcode, hpre⟩ : ∃ pre, visitSystemArrayCopyChar l = pre ++ copyLoop l ∧
      ∀ label, ∀ instr ∈ pre, instr.binds label = false := by
    refine ⟨[.cmp .x l.src (.reg l.dst), .bCond .eq .slowPathEntry, .cbz .x l.src .slowPathEntry,
      .cbz .x l.dst .slowPathEntry] ++ checkLength l.length ++
      checkSystemArrayCopyPosition l.srcPos l.src l.length l.temp0 false ++
      checkSystemArrayCopyPosition l.dstPos l.dst l.length l.temp0 false ++
      genSystemArrayCopyAddresses 1 l.src l.srcPos l.dst l.dstPos l.length l.temp0 l.temp1 l.temp2,
      by simp only [visitSystemArrayCopyChar, List.append_assoc], fun label instr hinstr => ?_⟩
    simp only [List.mem_append] at hinstr
    rcases hinstr with (((hprologue | hlength) | hsrc) | hdst) | haddresses
    · simp only [List.mem_cons, List.not_mem_nil, or_false] at hprologue
      rcases hprologue with rfl | rfl | rfl | rfl <;> rfl
    · exact checkLength_binds _ _ _ hlength
    · exact checkSystemArrayCopyPosition_binds _ _ _ _ _ _ _ hsrc
    · exact checkSystemArrayCopyPosition_binds _ _ _ _ _ _ _ hdst
    · exact genSystemArrayCopyAddresses_binds _ _ _ _ _ _ _ _ _ _ _ haddresses
  have hstart : (pre ++ copyLoop l).length - 8 = pre.length := by
    simp [copyLoop]
  rw [hcode, hstart]
  refine ⟨?_, ⟨?_, ?_, ?_, by simp [copyLoop]⟩⟩
  · rw [labelIndex_append (hpre _)]
    rfl
  · simpa using (SegmentAt.self : SegmentAt (pre ++ copyLoop l) 0 _).right
  · rw [labelIndex_append (hpre _), show labelIndex (copyLoop l) .loop = some 0 from rfl,
      Option.map_some, Nat.zero_add]
  · rw [labelIndex_append (hpre _), show labelIndex (copyLoop l) .done = some 6 from rfl,
      Option.map_some, Nat.add_comm]

section Call

variable {l : Locations} {srcPosIn dstPosIn lengthIn : Input} {c : Call} {m : Machine}

/-- The checks: the code goes to the slow path unless the call is one for the fast path, and
then it has written only `temp0`, loaded the two length fields, and stands at the address
computation. -/
theorem checks_spec (hentry : Entry l srcPosIn dstPosIn lengthIn c m) :
    ∃ m', ReachesUnless (visitSystemArrayCopyChar l) m c.FastPathOk .slowPathEntry m' ∧
      (c.FastPathOk → m.Frame m' [l.temp0]
        [⟨false, c.src + BitVec.ofNat 64 lengthOffset, 4⟩,
          ⟨false, c.dst + BitVec.ofNat 64 lengthOffset, 4⟩]
        (4 + (checkLength l.length).length +
          (checkSystemArrayCopyPosition l.srcPos l.src l.length l.temp0 false).length +
          (checkSystemArrayCopyPosition l.dstPos l.dst l.length l.temp0 false).length) ∧
        SegmentAt (visitSystemArrayCopyChar l) m'.pc
          (genSystemArrayCopyAddresses 1 l.src l.srcPos l.dst l.dstPos l.length l.temp0 l.temp1
            l.temp2 ++ copyLoop l)) := by
  obtain ⟨code, hcode⟩ : ∃ code, code = visitSystemArrayCopyChar l := ⟨_, rfl⟩
  obtain ⟨hout, -⟩ := visitSystemArrayCopyChar_layout l
  rw [← hcode] at hout ⊢
  have hat : SegmentAt code m.pc (visitSystemArrayCopyChar l) := by
    rw [hentry.start, ← hcode]
    exact SegmentAt.self
  simp only [visitSystemArrayCopyChar, List.append_assoc] at hat
  obtain ⟨hsrcPosConstant, hdstPosConstant, hlengthConstant⟩ :=
    accepted_constants hentry.accepted hentry.realizes
  obtain ⟨htempSrc, htempDst, htempSrcPos, htempDstPos, htempLength⟩ :=
    hentry.registersApart.2 l.temp0 List.mem_cons_self
  -- the same array or a null one, then the length
  obtain ⟨m1, hprologue, hframe1⟩ := prologue_spec hout hat.left
  have hat1 := hat.of_frame hframe1
  obtain ⟨m2, hlength, hframe2⟩ := checkLength_spec hout hat1.left
    (hentry.length.of_frame hframe1 (by simp)) c.lengthInt hlengthConstant
  have hat2 := hat1.of_frame hframe2
  have hframe12 := hframe1.trans hframe2
  have hsrc2 : m2.regs l.src = c.src := (hframe12.regs l.src (by simp)).trans hentry.src
  -- the source position, once the arrays are not null and the length is in range
  obtain ⟨m3, hupTo3, hframe3⟩ := (hprologue.trans fun _ => hlength).trans_exists
    (P := fun m3 => m2.Frame m3 [l.temp0] [⟨false, c.src + BitVec.ofNat 64 lengthOffset, 4⟩]
      (checkSystemArrayCopyPosition l.srcPos l.src l.length l.temp0 false).length)
    fun ⟨⟨_, hsrc, _⟩, hrange⟩ => by
      have harray : CharArrayAt m2.mem (m2.regs l.src) c.srcLength := by
        rw [hframe12.mem, hsrc2]
        exact hentry.srcArray (hentry.src ▸ hsrc)
      have hcheck := checkSystemArrayCopyPosition_spec hout hat2.left
        (hentry.srcPos.of_frame hframe12 (by simp)) c.srcPosInt hsrcPosConstant
        (hentry.length.of_frame hframe12 (by simp)) hrange harray htempSrcPos htempLength
      rwa [hsrc2] at hcheck
  -- the destination position
  obtain ⟨m4, hupTo4, hframe4⟩ := hupTo3.trans_exists
    (P := fun m4 => m3.Frame m4 [l.temp0] [⟨false, c.dst + BitVec.ofNat 64 lengthOffset, 4⟩]
      (checkSystemArrayCopyPosition l.dstPos l.dst l.length l.temp0 false).length)
    fun ⟨⟨⟨_, _, hdst⟩, hrange⟩, hsrcRange⟩ => by
      have hframe3' := hframe3 ⟨⟨‹_›, ‹_›, hdst⟩, hrange⟩
      have hdst3 : m3.regs l.dst = c.dst :=
        ((hframe3'.regs l.dst (by simpa using Ne.symm htempDst)).trans
          (hframe12.regs l.dst (by simp))).trans hentry.dst
      have harray : CharArrayAt m3.mem (m3.regs l.dst) c.dstLength := by
        rw [hframe3'.mem, hframe12.mem, hdst3]
        exact hentry.dstArray (hentry.dst ▸ hdst)
      have hcheck := checkSystemArrayCopyPosition_spec hout (hat2.of_frame hframe3').left
        ((hentry.dstPos.of_frame hframe12 (by simp)).of_frame_single hframe3' htempDstPos)
        c.dstPosInt hdstPosConstant
        ((hentry.length.of_frame hframe12 (by simp)).of_frame_single hframe3' htempLength)
        hrange harray htempDstPos htempLength
      rwa [hdst3] at hcheck
  refine ⟨m4, hupTo4.congr ?_, fun hok => ?_⟩
  · rw [hentry.src, hentry.dst]
    constructor
    · rintro ⟨⟨⟨⟨hne, hsrc, hdst⟩, hlow, hhigh⟩, hsrcLow, hsrcHigh⟩, hdstLow, hdstHigh⟩
      exact ⟨hne, hsrc, hdst, hlow, hhigh, hsrcLow, hdstLow, hsrcHigh, hdstHigh⟩
    · rintro ⟨hne, hsrc, hdst, hlow, hhigh, hsrcLow, hdstLow, hsrcHigh, hdstHigh⟩
      exact ⟨⟨⟨⟨hne, hsrc, hdst⟩, hlow, hhigh⟩, hsrcLow, hsrcHigh⟩, hdstLow, hdstHigh⟩
  · obtain ⟨hne, hsrc, hdst, hlow, hhigh, hsrcLow, hdstLow, hsrcHigh, hdstHigh⟩ := hok
    have hok3 : ((c.src ≠ c.dst ∧ c.src ≠ 0 ∧ c.dst ≠ 0) ∧ 0 ≤ c.length ∧
        c.length ≤ kSystemArrayCopyCharThreshold) := ⟨⟨hne, hsrc, hdst⟩, hlow, hhigh⟩
    rw [← hentry.src, ← hentry.dst] at hok3
    have hframe := (hframe12.trans (hframe3 hok3)).trans (hframe4 ⟨hok3, hsrcLow, hsrcHigh⟩)
    exact ⟨by simpa [Nat.add_assoc] using hframe.mono (by simp),
      (hat2.of_frame (hframe3 hok3)).of_frame (hframe4 ⟨hok3, hsrcLow, hsrcHigh⟩)⟩

/-- The fast path: for a call the checks let through, the address computation and the loop copy
the chars, and the code runs off its end. -/
theorem fastPath_spec (hentry : Entry l srcPosIn dstPosIn lengthIn c m) (hok : c.FastPathOk) :
    ∃ m', Runs (visitSystemArrayCopyChar l) m (.finish m') ∧
      m'.mem = m.mem.copy (charAddress c.src c.srcPos) (charAddress c.dst c.dstPos)
        (2 * c.length.toNat) ∧
      m'.accesses = m.accesses ++ [⟨false, c.src + BitVec.ofNat 64 lengthOffset, 4⟩,
          ⟨false, c.dst + BitVec.ofNat 64 lengthOffset, 4⟩] ++
        copyAccesses (charAddress c.src c.srcPos) (charAddress c.dst c.dstPos) c.length.toNat := by
  obtain ⟨m4, hchecks, hafter⟩ := checks_spec hentry
  obtain ⟨hframe, hat4⟩ := hafter hok
  have hreach4 := hchecks.1 hok
  obtain ⟨-, hloop⟩ := visitSystemArrayCopyChar_layout l
  obtain ⟨hne, hsrc, hdst, hlow, hhigh, hsrcLow, hdstLow, hsrcHigh, hdstHigh⟩ := hok
  have hsrcArray := hentry.srcArray hsrc
  have hdstArray := hentry.dstArray hdst
  obtain ⟨htemps, hinputs⟩ := hentry.registersApart
  obtain ⟨htempSrc, htempDst, htempSrcPos, htempDstPos, htempLength⟩ :=
    hinputs l.temp0 List.mem_cons_self
  obtain ⟨-, -, -, htemp1DstPos, htemp1Length⟩ := hinputs l.temp1 (by simp)
  have htemps' := htemps
  simp only [List.nodup_cons, List.mem_cons, List.not_mem_nil, or_false, not_or] at htemps'
  obtain ⟨⟨h01, h02, -⟩, ⟨h12, -⟩, -⟩ := htemps'
  -- the addresses, from the arguments where the checks left them
  have hsrc4 : m4.regs l.src = c.src :=
    (hframe.regs l.src (by simpa using Ne.symm htempSrc)).trans hentry.src
  have hdst4 : m4.regs l.dst = c.dst :=
    (hframe.regs l.dst (by simpa using Ne.symm htempDst)).trans hentry.dst
  obtain ⟨m5, haddresses, hframe5, hsrcBase, hdstBase, hsrcEnd, hat5⟩ :=
    genSystemArrayCopyAddresses_spec hat4 (hentry.srcPos.of_frame_single hframe htempSrcPos)
      ⟨hsrcLow, c.srcPosInt.2⟩ (hentry.dstPos.of_frame_single hframe htempDstPos)
      ⟨hdstLow, c.dstPosInt.2⟩ (hentry.length.of_frame_single hframe htempLength)
      ⟨hlow, c.lengthInt.2⟩ ⟨htempSrcPos, Ne.symm htempDst, htempDstPos, htempLength⟩
      ⟨htemp1DstPos, h01, htemp1Length⟩ ⟨h02, h12⟩
  -- the loop's first iteration
  have hstate : CopyLoopState l ((visitSystemArrayCopyChar l).length - 8) m.mem
      (m.accesses ++ [⟨false, c.src + BitVec.ofNat 64 lengthOffset, 4⟩,
        ⟨false, c.dst + BitVec.ofNat 64 lengthOffset, 4⟩])
      (charAddress c.src c.srcPos) (charAddress c.dst c.dstPos) c.length.toNat 0 m5 := by
    refine ⟨?_, ?_, ?_, ?_, ?_, ?_⟩
    · rw [hframe5.pc, hframe.pc, hentry.start]
      simp [visitSystemArrayCopyChar, copyLoop]
      omega
    · rw [hsrcBase, hsrc4, Nat.mul_zero, BitVec.add_zero]
      rfl
    · rw [hdstBase, hdst4, Nat.mul_zero, BitVec.add_zero]
      rfl
    · rw [hsrcEnd, hsrcBase, hsrc4]
      rfl
    · rw [hframe5.mem, hframe.mem, Nat.mul_zero, Memory.copy_zero]
    · rw [hframe5.accesses, hframe.accesses, copyAccesses, List.append_nil]
  -- the two ranges lie within their arrays, apart
  have hsrcWrap := hsrcArray.2.1
  have hdstWrap := hdstArray.2.1
  have hsrcAt := charAddress_toNat hsrcWrap (show c.srcPos.toNat ≤ c.srcLength by omega)
  have hdstAt := charAddress_toNat hdstWrap (show c.dstPos.toNat ≤ c.dstLength by omega)
  have hapart := hentry.apart hsrc hdst hne
  obtain ⟨m', hruns, hmem, haccesses⟩ := copyLoop_spec hloop htemps (by omega) (by omega)
    (by omega) hstate
  exact ⟨m', (hreach4.trans haddresses).runs hruns, hmem, haccesses⟩

end Call

/-- `arraycopy(src, 0, dst, 0, 0)` on two empty `char[]`s at `0x1000` and `0x2000`, with constant
positions and length. -/
def zeroLengthLocations : Locations :=
  ⟨0, .constant 0, 1, .constant 0, .constant 0, 2, 3, 4, 16⟩

/-- The arguments of the zero-length call. -/
def zeroLengthCall : Call :=
  ⟨0x1000, 0, 0x2000, 0, 0, 0, 0, by decide, by decide, by decide⟩

/-- The machine on entry to the zero-length call. -/
def zeroLengthMachine : Machine :=
  ⟨fun r => if r = 0 then 0x1000 else if r = 1 then 0x2000 else 0, ⟨false, false, false, false⟩,
    fun _ => 0, [], 0⟩

theorem zeroLength_entry : Entry zeroLengthLocations (.intConstant 0) (.intConstant 0)
    (.intConstant 0) zeroLengthCall zeroLengthMachine where
  accepted := rfl
  realizes := ⟨rfl, rfl, rfl⟩
  registersApart := by decide
  src := rfl
  dst := rfl
  srcPos := rfl
  dstPos := rfl
  length := rfl
  srcArray := fun _ => ⟨by decide, by decide, by decide⟩
  dstArray := fun _ => ⟨by decide, by decide, by decide⟩
  apart := fun _ _ _ => .inl (by decide)
  start := rfl

end IntrinsicsArm64

end AndroidArt.Optimizing
