/-
Module: AndroidArt.Lib.Aarch64
Purpose: A small-step semantics of the AArch64 instructions that compiled code uses to check
  bounds and to copy memory: flag-setting subtraction (`SUBS`, `CMP`, `CCMP`) with the
  `AddWithCarry` of the Arm Architecture Reference Manual, the condition codes, conditional and
  compare-and-branch instructions (`B.cond`, `CBZ`, `CBNZ`, `TBNZ`), 64-bit `ADD` with an
  immediate or a shifted register, and byte-addressed little-endian loads and stores (`LDR`,
  post-indexed `LDRH`, `STRH`).
Trusted boundary: only the instructions and operand forms listed are modelled; writes to a `W`
  register clear the upper half, as the architecture defines.
Main exports: Flags, addWithCarry, Cond.holds, Memory.read
-/
import Mathlib

namespace AndroidArt.Lib

namespace Aarch64

/-! ### Flags and `AddWithCarry` -/

/-- The condition flags `NZCV`. -/
structure Flags where
  n : Bool
  z : Bool
  c : Bool
  v : Bool
deriving DecidableEq, Repr

/-- `AddWithCarry(x, y, carry_in)`: the sum, and the flags it sets. -/
def addWithCarry {w : Nat} (x y : BitVec w) (carry : Bool) : BitVec w × Flags :=
  let unsignedSum := x.toNat + y.toNat + carry.toNat
  let signedSum := x.toInt + y.toInt + carry.toNat
  let result := BitVec.ofNat w unsignedSum
  (result, ⟨result.msb, decide (result = 0), decide (result.toNat ≠ unsignedSum),
    decide (result.toInt ≠ signedSum)⟩)

section AddWithCarry

variable {w : Nat} (x y : BitVec w)

theorem two_pow_eq_two_mul (hw : 0 < w) : 2 ^ w = 2 * 2 ^ (w - 1) := by
  rw [← Nat.pow_succ']
  congr 1
  omega

theorem toInt_not_eq (hw : 0 < w) : (~~~y).toInt = -y.toInt - 1 := by
  have hy := y.isLt
  rw [BitVec.toInt_eq_toNat_cond, BitVec.toInt_eq_toNat_cond, BitVec.toNat_not]
  rw [two_pow_eq_two_mul hw] at hy ⊢
  split_ifs <;> omega

/-- `SUBS` adds the complement and a carry: the result is the difference. -/
theorem addWithCarry_not_fst : (addWithCarry x (~~~y) true).1 = x - y := by
  apply BitVec.eq_of_toNat_eq
  simp only [addWithCarry, BitVec.toNat_ofNat, BitVec.toNat_not, BitVec.toNat_sub, Bool.toNat_true]
  have := y.isLt
  congr 1
  omega

/-- `Z` is set exactly for equal operands. -/
theorem addWithCarry_not_z : (addWithCarry x (~~~y) true).2.z = decide (x = y) := by
  have hfst := addWithCarry_not_fst x y
  simp only [addWithCarry] at hfst ⊢
  rw [hfst]
  apply decide_eq_decide.mpr
  constructor
  · intro hzero
    rw [← BitVec.sub_add_cancel x y, hzero]
    simp
  · intro heq
    rw [heq, BitVec.sub_self]
    rfl

/-- `C` is set exactly when no borrow occurs: `x` is at least `y`, unsigned. -/
theorem addWithCarry_not_c : (addWithCarry x (~~~y) true).2.c = decide (y.toNat ≤ x.toNat) := by
  simp only [addWithCarry, BitVec.toNat_ofNat, BitVec.toNat_not, Bool.toNat_true]
  have hx := x.isLt
  have hy := y.isLt
  apply decide_eq_decide.mpr
  by_cases h : y.toNat ≤ x.toNat
  · rw [Nat.mod_eq_sub_mod (by omega), Nat.mod_eq_of_lt (by omega)]
    omega
  · rw [Nat.mod_eq_of_lt (by omega)]
    omega

/-- `N` differs from `V` exactly when `x` is below `y`, signed: the difference is negative, or it
overflowed from a negative `x`. -/
theorem addWithCarry_not_lt (hw : 0 < w) :
    ((addWithCarry x (~~~y) true).2.n != (addWithCarry x (~~~y) true).2.v) =
      decide (x.toInt < y.toInt) := by
  have hfst := addWithCarry_not_fst x y
  simp only [addWithCarry] at hfst ⊢
  rw [hfst, BitVec.msb_eq_toInt, toInt_not_eq y hw, Bool.toNat_true]
  have hlow := BitVec.toInt_sub_toInt_lt_twoPow_iff (x := x) (y := y)
  have hhigh := BitVec.twoPow_le_toInt_sub_toInt_iff (x := x) (y := y)
  have hsub := BitVec.toInt_sub (x := x) (y := y)
  have hpos : (0 : Int) < 2 ^ (w - 1) := Int.pow_pos (by decide)
  rw [Bool.eq_iff_iff]
  simp only [bne_iff_ne, ne_eq, decide_eq_decide, decide_eq_true_eq]
  -- the three ways the signed difference relates to the result
  by_cases hunder : x.toInt - y.toInt < -2 ^ (w - 1)
  · have := (hlow.mp hunder).2.2
    rw [← hsub] at this
    omega
  · by_cases hover : 2 ^ (w - 1) ≤ x.toInt - y.toInt
    · have := (hhigh.mp hover).2.2
      rw [← hsub] at this
      omega
    · have hno : ¬ BitVec.ssubOverflow x y = true := by
        simp only [BitVec.ssubOverflow, Bool.or_eq_true, decide_eq_true_eq]
        omega
      rw [BitVec.toInt_sub_of_not_ssubOverflow hno]
      omega

end AddWithCarry

/-! ### Condition codes -/

/-- The condition codes of `B.cond` and `CCMP`. -/
inductive Cond where
  | eq | ne | hs | lo | mi | pl | vs | vc | hi | ls | ge | lt | gt | le | al
deriving DecidableEq, Repr

/-- `ConditionHolds(cond)`. -/
def Cond.holds (flags : Flags) : Cond → Bool
  | .eq => flags.z
  | .ne => !flags.z
  | .hs => flags.c
  | .lo => !flags.c
  | .mi => flags.n
  | .pl => !flags.n
  | .vs => flags.v
  | .vc => !flags.v
  | .hi => flags.c && !flags.z
  | .ls => !(flags.c && !flags.z)
  | .ge => flags.n == flags.v
  | .lt => flags.n != flags.v
  | .gt => !flags.z && flags.n == flags.v
  | .le => !(!flags.z && flags.n == flags.v)
  | .al => true

/-! ### Memory -/

/-- Byte-addressed memory. -/
abbrev Memory := BitVec 64 → BitVec 8

namespace Memory

/-- The `n` bytes from `address` on, the first the least significant. -/
def read (mem : Memory) (address : BitVec 64) : (n : Nat) → BitVec (8 * n)
  | 0 => 0#0
  | n + 1 => mem.read (address + 1) n ++ mem address

/-- `value` written low byte first at the `n` bytes from `address` on. -/
def write (mem : Memory) (address : BitVec 64) (n : Nat) (value : BitVec (8 * n)) : Memory :=
  fun a => if (a - address).toNat < n then value.extractLsb' (8 * (a - address).toNat) 8 else mem a

theorem write_apply_of_not_lt {mem : Memory} {address a : BitVec 64} {n : Nat}
    {value : BitVec (8 * n)} (h : ¬ (a - address).toNat < n) :
    mem.write address n value a = mem a := by
  simp only [write, h, if_false]

theorem write_apply_of_lt {mem : Memory} {address a : BitVec 64} {n : Nat}
    {value : BitVec (8 * n)} (h : (a - address).toNat < n) :
    mem.write address n value a = value.extractLsb' (8 * (a - address).toNat) 8 := by
  simp only [write, h, if_true]

theorem add_ofNat_succ (a : BitVec 64) (i : Nat) :
    a + BitVec.ofNat 64 (i + 1) = a + 1 + BitVec.ofNat 64 i := by
  apply BitVec.eq_of_toNat_eq
  simp only [BitVec.toNat_add, BitVec.toNat_ofNat, BitVec.ofNat_eq_ofNat]
  omega

/-- Byte `j` of a read is the byte at `address + j`. -/
theorem extractLsb'_read (mem : Memory) (address : BitVec 64) {n j : Nat} (hj : j < n) :
    (mem.read address n).extractLsb' (8 * j) 8 = mem (address + BitVec.ofNat 64 j) := by
  induction n generalizing address j with
  | zero => omega
  | succ n ih =>
    rw [read]
    cases j with
    | zero =>
      rw [BitVec.ofNat_eq_ofNat, BitVec.add_zero]
      ext i hi
      simp only [BitVec.getElem_extractLsb', BitVec.getLsbD_append]
      simp [hi]
    | succ j =>
      rw [add_ofNat_succ, ← ih (address + 1) (by omega)]
      ext i hi
      simp only [BitVec.getElem_extractLsb', BitVec.getLsbD_append,
        show ¬ (8 * (j + 1) + i < 8) by omega, if_false]
      congr 1
      omega

/-- `mem` with the `count` bytes from `target` on replaced by the bytes from `source` on. -/
def copy (mem : Memory) (source target : BitVec 64) (count : Nat) : Memory :=
  fun a => if (a - target).toNat < count then mem (source + (a - target)) else mem a

@[simp] theorem copy_zero (mem : Memory) (source target : BitVec 64) :
    mem.copy source target 0 = mem := by
  funext a
  simp [copy]

/-- Copying `size` more bytes: read them at the end of the source and write them at the end of
the target, when the bytes read lie apart from the bytes already written. -/
theorem write_read_copy {mem : Memory} {source target : BitVec 64} {count size : Nat}
    (hsource : source.toNat + count + size < 2 ^ 64) (htarget : target.toNat + count + size < 2 ^ 64)
    (hapart : source.toNat + count + size ≤ target.toNat ∨ target.toNat + count ≤ source.toNat + count) :
    (mem.copy source target count).write (target + BitVec.ofNat 64 count) size
        ((mem.copy source target count).read (source + BitVec.ofNat 64 count) size) =
      mem.copy source target (count + size) := by
  funext a
  have hmod : ∀ b c : BitVec 64, (b - c).toNat = (2 ^ 64 - c.toNat + b.toNat) % 2 ^ 64 :=
    fun b c => BitVec.toNat_sub b c
  by_cases hnew : (a - (target + BitVec.ofNat 64 count)).toNat < size
  · -- a byte of the last piece: read from the source, which nothing has overwritten yet
    rw [write_apply_of_lt hnew, extractLsb'_read _ _ hnew]
    have hoffset : (a - target).toNat = count + (a - (target + BitVec.ofNat 64 count)).toNat := by
      simp only [hmod, BitVec.toNat_add, BitVec.toNat_ofNat] at hnew ⊢
      omega
    generalize (a - (target + BitVec.ofNat 64 count)).toNat = j at hnew hoffset ⊢
    have hunwritten : ¬ (source + BitVec.ofNat 64 count + BitVec.ofNat 64 j - target).toNat < count := by
      simp only [hmod, BitVec.toNat_add, BitVec.toNat_ofNat]
      omega
    have haddress : source + BitVec.ofNat 64 count + BitVec.ofNat 64 j = source + (a - target) := by
      apply BitVec.eq_of_toNat_eq
      rw [BitVec.toNat_add _ (a - target), hoffset]
      simp only [BitVec.toNat_add, BitVec.toNat_ofNat]
      omega
    simp only [copy]
    rw [if_neg hunwritten, hoffset, if_pos (show count + j < count + size by omega), haddress]
  · -- outside the last piece the copy is the one of `count` bytes
    rw [write_apply_of_not_lt hnew]
    have hsame : (a - target).toNat < count + size ↔ (a - target).toNat < count := by
      simp only [hmod, BitVec.toNat_add, BitVec.toNat_ofNat] at hnew ⊢
      omega
    simp only [copy, hsame]

end Memory

/-! ### Instructions -/

/-- A general-purpose register, `X0` to `X30`. -/
abbrev Reg := Fin 31

/-- The 32-bit (`W`) or 64-bit (`X`) view of a register. -/
inductive Width where
  | w
  | x
deriving DecidableEq, Repr

/-- The second source of a data-processing instruction: an immediate, a register, or a register
shifted left. -/
inductive Operand where
  | imm (value : Int)
  | reg (r : Reg)
  | lsl (r : Reg) (amount : Nat)
deriving DecidableEq, Repr

/-- The instructions, over the labels `L` that branches name. -/
inductive Instr (L : Type) where
  | add (rd rn : Reg) (op : Operand)
  | subs (width : Width) (rd rn : Reg) (op : Operand)
  | cmp (width : Width) (rn : Reg) (op : Operand)
  | ccmp (width : Width) (rn : Reg) (op : Operand) (nzcv : Flags) (cond : Cond)
  | b (target : L)
  | bCond (cond : Cond) (target : L)
  | cbz (width : Width) (rn : Reg) (target : L)
  | cbnz (width : Width) (rn : Reg) (target : L)
  | tbnz (rt : Reg) (bit : Nat) (target : L)
  | ldr (width : Width) (rt rn : Reg) (offset : Nat)
  | ldrhPost (rt rn : Reg) (offset : Nat)
  | strhPost (rt rn : Reg) (offset : Nat)
  | bind (label : L)
deriving Repr

/-- A load or a store of `size` bytes at `address`. -/
structure Access where
  store : Bool
  address : BitVec 64
  size : Nat
deriving DecidableEq, Repr

/-- The registers, flags and memory, the accesses made so far, and the index of the next
instruction. -/
structure Machine where
  regs : Reg → BitVec 64
  flags : Flags
  mem : Memory
  accesses : List Access
  pc : Nat

namespace Machine

/-- A register, read through the given view: a `W` read sees the low half. -/
def get (m : Machine) (width : Width) (r : Reg) : BitVec 64 :=
  match width with
  | .w => (m.regs r).setWidth 32 |>.setWidth 64
  | .x => m.regs r

/-- The value of an operand. -/
def operand (m : Machine) (width : Width) : Operand → BitVec 64
  | .imm value => BitVec.ofInt 64 value
  | .reg r => m.get width r
  | .lsl r amount => m.get width r <<< amount

/-- A register written through the given view: a `W` write clears the upper half. -/
def set (m : Machine) (width : Width) (r : Reg) (value : BitVec 64) : Machine :=
  match width with
  | .w => { m with regs := Function.update m.regs r (value.setWidth 32 |>.setWidth 64) }
  | .x => { m with regs := Function.update m.regs r value }

/-- The low word of a register just written, through either view. -/
theorem low_get_set (m : Machine) (width : Width) (r : Reg) (value : BitVec 64) :
    ((m.set width r value).get .w r).setWidth 32 = value.setWidth 32 := by
  cases width <;> simp [set, get]

/-- On to the next instruction. -/
def next (m : Machine) : Machine := { m with pc := m.pc + 1 }

end Machine

namespace Machine

/-- `m'` is `m` after `steps` instructions that wrote only the registers `written` (and the
flags), kept memory, and made the accesses `log`. -/
structure Frame (m m' : Machine) (written : List Reg) (log : List Access) (steps : Nat) : Prop where
  regs : ∀ r, r ∉ written → m'.regs r = m.regs r
  mem : m'.mem = m.mem
  accesses : m'.accesses = m.accesses ++ log
  pc : m'.pc = m.pc + steps

theorem Frame.trans {m m' m'' : Machine} {written written' : List Reg} {log log' : List Access}
    {steps steps' : Nat} (h : Frame m m' written log steps) (h' : Frame m' m'' written' log' steps') :
    Frame m m'' (written ++ written') (log ++ log') (steps + steps') := by
  refine ⟨fun r hr => ?_, by rw [h'.mem, h.mem], by rw [h'.accesses, h.accesses, List.append_assoc],
    by rw [h'.pc, h.pc, Nat.add_assoc]⟩
  rw [List.mem_append, not_or] at hr
  rw [h'.regs r hr.2, h.regs r hr.1]

end Machine

/-- `SUBS` at a width: the difference, zero-extended, and the flags. -/
def subsFlags (width : Width) (a b : BitVec 64) : BitVec 64 × Flags :=
  match width with
  | .w =>
    let (result, flags) := addWithCarry (a.setWidth 32) (~~~(b.setWidth 32)) true
    (result.setWidth 64, flags)
  | .x => addWithCarry a (~~~b) true

/-! ### The flags of a comparison -/

section Compare

variable (a b : BitVec 64)

/-- A comparison sets `Z` exactly for equal operands at its width. -/
theorem subsFlags_eq_x : ((subsFlags .x a b).2.z) = decide (a = b) :=
  addWithCarry_not_z a b

/-- The 32-bit difference `SUBS` writes. -/
theorem subsFlags_w_fst : (subsFlags .w a b).1.setWidth 32 = a.setWidth 32 - b.setWidth 32 := by
  simp only [subsFlags, addWithCarry_not_fst]
  exact BitVec.setWidth_setWidth_of_le _ (by decide) |>.trans (BitVec.setWidth_eq _)

/-- After a 32-bit comparison, `LT` holds exactly when the first operand is below the second as
signed 32-bit values. -/
theorem subsFlags_lt_w :
    Cond.lt.holds (subsFlags .w a b).2 = decide ((a.setWidth 32).toInt < (b.setWidth 32).toInt) :=
  addWithCarry_not_lt _ _ (by decide)

/-- After a 32-bit comparison, `GE` holds exactly when the first operand is at least the second
as signed 32-bit values. -/
theorem subsFlags_ge_w :
    Cond.ge.holds (subsFlags .w a b).2 =
      decide ((b.setWidth 32).toInt ≤ (a.setWidth 32).toInt) := by
  have hlt := subsFlags_lt_w a b
  simp only [Cond.holds] at hlt ⊢
  rw [Bool.eq_iff_iff] at hlt ⊢
  simp only [bne_iff_ne, ne_eq, decide_eq_true_eq] at hlt ⊢
  rw [beq_iff_eq, ← Int.not_lt, ← hlt, not_not]

/-- After a 32-bit comparison, `HI` holds exactly when the first operand is above the second as
unsigned 32-bit values. -/
theorem subsFlags_hi_w :
    Cond.hi.holds (subsFlags .w a b).2 =
      decide ((b.setWidth 32).toNat < (a.setWidth 32).toNat) := by
  simp only [Cond.holds, subsFlags, addWithCarry_not_c, addWithCarry_not_z]
  rw [Bool.eq_iff_iff]
  simp only [Bool.and_eq_true, Bool.not_eq_true', decide_eq_true_eq, decide_eq_false_iff_not]
  rw [← BitVec.toNat_inj]
  omega

end Compare

/-- The label a branch names is bound where the first `bind` of it stands. -/
def Instr.binds {L : Type} [DecidableEq L] (label : L) : Instr L → Bool
  | .bind l => decide (l = label)
  | _ => false

/-- Where `label` is bound in the code, if it is. -/
def labelIndex {L : Type} [DecidableEq L] (code : List (Instr L)) (label : L) : Option Nat :=
  code.findIdx? (Instr.binds label)

/-- What one step leads to: the next machine, or a branch out of the code to a label it does not
bind. -/
inductive Step (L : Type) where
  | cont (m : Machine)
  | leave (target : L) (m : Machine)

/-! ### Segments of code -/

section Segments

variable {L : Type} {code : List (Instr L)}

/-- `seg` stands in `code` from index `k` on. -/
def SegmentAt (code : List (Instr L)) (k : Nat) (seg : List (Instr L)) : Prop :=
  ∀ i (h : i < seg.length), code[k + i]? = some seg[i]

theorem SegmentAt.self : SegmentAt code 0 code := by
  intro i h
  rw [Nat.zero_add, List.getElem?_eq_getElem h]

theorem SegmentAt.left {k : Nat} {seg seg' : List (Instr L)} (h : SegmentAt code k (seg ++ seg')) :
    SegmentAt code k seg := by
  intro i hi
  rw [h i (by rw [List.length_append]; omega), List.getElem_append_left hi]

theorem SegmentAt.right {k : Nat} {seg seg' : List (Instr L)}
    (h : SegmentAt code k (seg ++ seg')) : SegmentAt code (k + seg.length) seg' := by
  intro i hi
  rw [Nat.add_assoc, h (seg.length + i) (by rw [List.length_append]; omega),
    List.getElem_append_right (by omega)]
  simp only [Nat.add_sub_cancel_left]

theorem SegmentAt.head {k : Nat} {instr : Instr L} {rest : List (Instr L)}
    (h : SegmentAt code k (instr :: rest)) : code[k]? = some instr :=
  h 0 (by simp)

theorem SegmentAt.tail {k : Nat} {instr : Instr L} {rest : List (Instr L)}
    (h : SegmentAt code k (instr :: rest)) : SegmentAt code (k + 1) rest := by
  intro i hi
  rw [Nat.add_assoc, Nat.add_comm 1 i]
  exact h (i + 1) (by simp only [List.length_cons]; omega)

/-- The code after a segment, at the machine that ran through it. -/
theorem SegmentAt.of_frame {m m' : Machine} {seg rest : List (Instr L)} {written : List Reg}
    {log : List Access} (hat : SegmentAt code m.pc (seg ++ rest))
    (hframe : m.Frame m' written log seg.length) : SegmentAt code m'.pc rest :=
  hframe.pc ▸ hat.right

end Segments

section Execution

variable {L : Type} [DecidableEq L]

/-- A branch to `target`. -/
def branch (code : List (Instr L)) (m : Machine) (target : L) : Step L :=
  match labelIndex code target with
  | some index => .cont { m with pc := index }
  | none => .leave target m

/-- One instruction. -/
def exec (code : List (Instr L)) (m : Machine) : Instr L → Step L
  | .add rd rn op => .cont (m.set .x rd (m.get .x rn + m.operand .x op)).next
  | .subs width rd rn op =>
    let (result, flags) := subsFlags width (m.get width rn) (m.operand width op)
    .cont { m.set width rd result with flags := flags }.next
  | .cmp width rn op =>
    .cont { m with flags := (subsFlags width (m.get width rn) (m.operand width op)).2 }.next
  | .ccmp width rn op nzcv cond =>
    -- the comparison when the condition holds, else the given flags
    let flags :=
      if cond.holds m.flags then (subsFlags width (m.get width rn) (m.operand width op)).2
      else nzcv
    .cont { m with flags := flags }.next
  | .b target => branch code m target
  | .bCond cond target => if cond.holds m.flags then branch code m target else .cont m.next
  | .cbz width rn target => if m.get width rn = 0 then branch code m target else .cont m.next
  | .cbnz width rn target => if m.get width rn = 0 then .cont m.next else branch code m target
  | .tbnz rt bit target =>
    if (m.regs rt).getLsbD bit then branch code m target else .cont m.next
  | .ldr width rt rn offset =>
    let address := m.regs rn + BitVec.ofNat 64 offset
    let size := match width with | .w => 4 | .x => 8
    let value := match width with
      | .w => (m.mem.read address 4).setWidth 64
      | .x => (m.mem.read address 8).setWidth 64
    .cont { m.set .x rt value with accesses := m.accesses ++ [Access.mk false address size] }.next
  | .ldrhPost rt rn offset =>
    let address := m.regs rn
    let value := (m.mem.read address 2).setWidth 64
    .cont { (m.set .x rt value).set .x rn (address + BitVec.ofNat 64 offset) with
      accesses := m.accesses ++ [Access.mk false address 2] }.next
  | .strhPost rt rn offset =>
    let address := m.regs rn
    .cont { m.set .x rn (address + BitVec.ofNat 64 offset) with
      mem := m.mem.write address 2 ((m.regs rt).setWidth 16),
      accesses := m.accesses ++ [Access.mk true address 2] }.next
  | .bind _ => .cont m.next

/-- The step from the instruction at `pc`; `none` past the end. -/
def step (code : List (Instr L)) (m : Machine) : Option (Step L) :=
  code[m.pc]?.map (exec code m)

/-- How a run of code ends: by a branch out of it, or by running off its end. -/
inductive Outcome (L : Type) where
  | leave (target : L) (m : Machine)
  | finish (m : Machine)

/-- The code, run from `m`, ends with `outcome`. -/
inductive Runs (code : List (Instr L)) : Machine → Outcome L → Prop where
  | finish {m : Machine} : m.pc = code.length → Runs code m (.finish m)
  | leave {m m' : Machine} {target : L} :
      step code m = some (.leave target m') → Runs code m (.leave target m')
  | cont {m m' : Machine} {outcome : Outcome L} :
      step code m = some (.cont m') → Runs code m' outcome → Runs code m outcome

/-- The code, run from `m`, reaches `m'` without leaving. -/
def Reaches (code : List (Instr L)) : Machine → Machine → Prop :=
  Relation.ReflTransGen fun m m' => step code m = some (.cont m')

variable {code : List (Instr L)} {m m' : Machine}

theorem Reaches.runs {outcome : Outcome L} (hreach : Reaches code m m')
    (hruns : Runs code m' outcome) : Runs code m outcome := by
  induction hreach using Relation.ReflTransGen.head_induction_on with
  | refl => exact hruns
  | head hstep _ ih => exact .cont hstep ih

/-- An instruction that continues. -/
theorem Reaches.single {instr : Instr L} (hfetch : code[m.pc]? = some instr)
    (hexec : exec code m instr = .cont m') : Reaches code m m' :=
  Relation.ReflTransGen.single (by simp only [step, hfetch, Option.map_some, hexec])

theorem Reaches.trans {m'' : Machine} (h : Reaches code m m') (h' : Reaches code m' m'') :
    Reaches code m m'' :=
  Relation.ReflTransGen.trans h h'

/-- A loop run to its bound: an invariant indexed by the iterations done, which one iteration
takes from `j` to `j + 1` while `j < count`, holds after all of them. -/
theorem Reaches.of_loop {Inv : Nat → Machine → Prop} {count j : Nat}
    (hstep : ∀ j m, j < count → Inv j m → ∃ m', Reaches code m m' ∧ Inv (j + 1) m')
    (hj : j ≤ count) (hinv : Inv j m) : ∃ m', Reaches code m m' ∧ Inv count m' := by
  -- induction on the iterations left
  obtain ⟨left, hleft⟩ : ∃ left, count - j = left := ⟨_, rfl⟩
  induction left generalizing j m with
  | zero =>
    obtain rfl : j = count := by omega
    exact ⟨m, Relation.ReflTransGen.refl, hinv⟩
  | succ left ih =>
    obtain ⟨m₁, hreach₁, hinv₁⟩ := hstep j m (by omega) hinv
    obtain ⟨m₂, hreach₂, hinv₂⟩ := ih (by omega) hinv₁ (by omega)
    exact ⟨m₂, hreach₁.trans hreach₂, hinv₂⟩

/-- The machine is deterministic: a run has one outcome. -/
theorem Runs.determ {outcome outcome' : Outcome L} (h : Runs code m outcome)
    (h' : Runs code m outcome') : outcome = outcome' := by
  have hpast : ∀ {m : Machine}, m.pc = code.length → step code m = none := fun hpc => by
    simp only [step, hpc, List.getElem?_eq_none (Nat.le_refl _), Option.map_none]
  induction h generalizing outcome' with
  | finish hpc =>
    cases h' with
    | finish _ => rfl
    | leave hstep => rw [hpast hpc] at hstep; cases hstep
    | cont hstep _ => rw [hpast hpc] at hstep; cases hstep
  | leave hstep =>
    cases h' with
    | finish hpc => rw [hpast hpc] at hstep; cases hstep
    | leave hstep' => rw [hstep] at hstep'; cases hstep'; rfl
    | cont hstep' _ => rw [hstep] at hstep'; cases hstep'
  | cont hstep _ ih =>
    cases h' with
    | finish hpc => rw [hpast hpc] at hstep; cases hstep
    | leave hstep' => rw [hstep] at hstep'; cases hstep'
    | cont hstep' hruns' =>
      rw [hstep] at hstep'
      cases hstep'
      exact ih hruns'

/-- An instruction that branches out of the code. -/
theorem Runs.of_leave {instr : Instr L} {target : L} (hfetch : code[m.pc]? = some instr)
    (hexec : exec code m instr = .leave target m') : Runs code m (.leave target m') :=
  .leave (by simp only [step, hfetch, Option.map_some, hexec])

/-- A branch to a label that the code does not bind leaves it. -/
theorem branch_of_labelIndex_none {target : L} (h : labelIndex code target = none) :
    branch code m target = .leave target m := by
  simp only [branch, h]

/-- A branch to a label that the code binds continues there. -/
theorem branch_of_labelIndex_some {target : L} {index : Nat}
    (h : labelIndex code target = some index) :
    branch code m target = .cont { m with pc := index } := by
  simp only [branch, h]

/-- An instruction that continues at the next one, at the head of a segment. -/
theorem Reaches.head {instr : Instr L} {rest : List (Instr L)}
    (h : SegmentAt code m.pc (instr :: rest)) (hexec : exec code m instr = .cont m') :
    Reaches code m m' :=
  Reaches.single h.head hexec

/-- A label bound in the second part of the code, and not in the first. -/
theorem labelIndex_append {target : L} {pre post : List (Instr L)}
    (h : ∀ instr ∈ pre, instr.binds target = false) :
    labelIndex (pre ++ post) target = (labelIndex post target).map (· + pre.length) := by
  simp only [labelIndex, List.findIdx?_append, List.findIdx?_eq_none_iff.mpr h, Option.none_or]

/-! ### One instruction that goes on -/

theorem Machine.Frame.mono {m m' : Machine} {written written' : List Reg} {log : List Access}
    {steps : Nat} (h : m.Frame m' written log steps) (hsub : ∀ r ∈ written, r ∈ written') :
    m.Frame m' written' log steps :=
  ⟨fun r hr => h.regs r fun hw => hr (hsub r hw), h.mem, h.accesses, h.pc⟩

theorem Machine.Frame.next (m : Machine) : m.Frame m.next [] [] 1 :=
  ⟨fun _ _ => rfl, rfl, (List.append_nil _).symm, rfl⟩

theorem Reaches.cmp {width : Width} {rn : Reg} {op : Operand} {rest : List (Instr L)}
    (hat : SegmentAt code m.pc (.cmp width rn op :: rest)) :
    ∃ m', Reaches code m m' ∧ m.Frame m' [] [] 1 ∧
      m'.flags = (subsFlags width (m.get width rn) (m.operand width op)).2 ∧
      SegmentAt code m'.pc rest :=
  ⟨_, Reaches.head hat rfl, ⟨fun _ _ => rfl, rfl, (List.append_nil _).symm, rfl⟩, rfl, hat.tail⟩

theorem Reaches.ccmp {width : Width} {rn : Reg} {op : Operand} {nzcv : Flags} {cond : Cond}
    {rest : List (Instr L)} (hat : SegmentAt code m.pc (.ccmp width rn op nzcv cond :: rest)) :
    ∃ m', Reaches code m m' ∧ m.Frame m' [] [] 1 ∧
      m'.flags = (if cond.holds m.flags then
        (subsFlags width (m.get width rn) (m.operand width op)).2 else nzcv) ∧
      SegmentAt code m'.pc rest :=
  ⟨_, Reaches.head hat rfl, ⟨fun _ _ => rfl, rfl, (List.append_nil _).symm, rfl⟩, rfl, hat.tail⟩

/-- `SUBS` of `W` registers. -/
theorem Reaches.subs_w {rd rn : Reg} {op : Operand} {rest : List (Instr L)}
    (hat : SegmentAt code m.pc (.subs .w rd rn op :: rest)) :
    ∃ m', Reaches code m m' ∧ m.Frame m' [rd] [] 1 ∧
      m'.flags = (subsFlags .w (m.get .w rn) (m.operand .w op)).2 ∧
      (m'.get .w rd).setWidth 32 = (m.get .w rn).setWidth 32 - (m.operand .w op).setWidth 32 ∧
      SegmentAt code m'.pc rest := by
  refine ⟨_, Reaches.head hat rfl, ⟨fun r hr => ?_, rfl, (List.append_nil _).symm, rfl⟩,
    rfl, ?_, hat.tail⟩
  · exact Function.update_of_ne (fun h => hr (List.mem_singleton.mpr h)) _ _
  · show ((m.set .w rd (subsFlags .w (m.get .w rn) (m.operand .w op)).1).get .w rd).setWidth 32 = _
    rw [Machine.low_get_set, subsFlags_w_fst]

/-- `LDR` of a `W` register. -/
theorem Reaches.ldr_w {rt rn : Reg} {offset : Nat} {rest : List (Instr L)}
    (hat : SegmentAt code m.pc (.ldr .w rt rn offset :: rest)) :
    ∃ m', Reaches code m m' ∧
      m.Frame m' [rt] [⟨false, m.regs rn + BitVec.ofNat 64 offset, 4⟩] 1 ∧
      (m'.get .w rt).setWidth 32 = m.mem.read (m.regs rn + BitVec.ofNat 64 offset) 4 ∧
      SegmentAt code m'.pc rest := by
  refine ⟨_, Reaches.head hat rfl, ⟨fun r hr => ?_, rfl, rfl, rfl⟩, ?_, hat.tail⟩
  · exact Function.update_of_ne (fun h => hr (List.mem_singleton.mpr h)) _ _
  · show ((m.set .x rt ((m.mem.read (m.regs rn + BitVec.ofNat 64 offset) 4).setWidth 64)).get .w
      rt).setWidth 32 = _
    rw [Machine.low_get_set, BitVec.setWidth_setWidth_of_le _ (by decide), BitVec.setWidth_eq]

/-- `ADD` of `X` registers. -/
theorem Reaches.add {rd rn : Reg} {op : Operand} {rest : List (Instr L)}
    (hat : SegmentAt code m.pc (.add rd rn op :: rest)) :
    ∃ m', Reaches code m m' ∧ m.Frame m' [rd] [] 1 ∧ m'.regs rd = m.regs rn + m.operand .x op ∧
      SegmentAt code m'.pc rest := by
  refine ⟨_, Reaches.head hat rfl, ⟨fun r hr => ?_, rfl, (List.append_nil _).symm, rfl⟩,
    Function.update_self _ _ _, hat.tail⟩
  exact Function.update_of_ne (fun h => hr (List.mem_singleton.mpr h)) _ _

/-- `LDRH` with a post-index: the half-word at the address register, zero-extended, and the
address register moved on. -/
theorem Reaches.ldrhPost {rt rn : Reg} {offset : Nat} {rest : List (Instr L)} (hne : rt ≠ rn)
    (hat : SegmentAt code m.pc (.ldrhPost rt rn offset :: rest)) :
    ∃ m', Reaches code m m' ∧ m.Frame m' [rt, rn] [⟨false, m.regs rn, 2⟩] 1 ∧
      m'.regs rt = (m.mem.read (m.regs rn) 2).setWidth 64 ∧
      m'.regs rn = m.regs rn + BitVec.ofNat 64 offset ∧ SegmentAt code m'.pc rest := by
  refine ⟨_, Reaches.head hat rfl, ⟨fun r hr => ?_, rfl, rfl, rfl⟩, ?_,
    Function.update_self _ _ _, hat.tail⟩
  · rw [List.mem_cons, List.mem_singleton, not_or] at hr
    exact (Function.update_of_ne hr.2 _ _).trans (Function.update_of_ne hr.1 _ _)
  · exact (Function.update_of_ne hne _ _).trans (Function.update_self _ _ _)

/-- `STRH` with a post-index: the low half-word of `rt` stored at the address register, which
moves on. -/
theorem Reaches.strhPost {rt rn : Reg} {offset : Nat} {rest : List (Instr L)}
    (hat : SegmentAt code m.pc (.strhPost rt rn offset :: rest)) :
    ∃ m', Reaches code m m' ∧ (∀ r, r ≠ rn → m'.regs r = m.regs r) ∧
      m'.regs rn = m.regs rn + BitVec.ofNat 64 offset ∧
      m'.mem = m.mem.write (m.regs rn) 2 ((m.regs rt).setWidth 16) ∧
      m'.accesses = m.accesses ++ [⟨true, m.regs rn, 2⟩] ∧ SegmentAt code m'.pc rest :=
  ⟨_, Reaches.head hat rfl, fun _ hr => Function.update_of_ne hr _ _, Function.update_self _ _ _,
    rfl, rfl, hat.tail⟩

/-- `B` to a label the code binds. -/
theorem Reaches.b {target : L} {index : Nat} (hfetch : code[m.pc]? = some (.b target))
    (hin : labelIndex code target = some index) : Reaches code m { m with pc := index } :=
  Reaches.single hfetch (branch_of_labelIndex_some hin)

/-- `B.cond` taken, to a label the code binds. -/
theorem Reaches.bCond_taken {cond : Cond} {target : L} {index : Nat}
    (hfetch : code[m.pc]? = some (.bCond cond target)) (hholds : cond.holds m.flags = true)
    (hin : labelIndex code target = some index) : Reaches code m { m with pc := index } := by
  apply Reaches.single hfetch
  simp only [exec, hholds, if_true, branch_of_labelIndex_some hin]

/-- `B.cond` not taken. -/
theorem Reaches.bCond_not_taken {cond : Cond} {target : L}
    (hfetch : code[m.pc]? = some (.bCond cond target)) (hnot : cond.holds m.flags = false) :
    Reaches code m m.next := by
  apply Reaches.single hfetch
  simp only [exec, hnot, Bool.false_eq_true, if_false]

/-! ### Code that either goes on or branches out -/

/-- From `m` the code reaches `m'` when `ok` holds, and otherwise branches out to `target`. -/
def ReachesUnless (code : List (Instr L)) (m : Machine) (ok : Prop) (target : L)
    (m' : Machine) : Prop :=
  (ok → Reaches code m m') ∧ (¬ ok → ∃ m'', Runs code m (.leave target m''))

/-- Two pieces of code that each go on or branch out to the same label. -/
theorem ReachesUnless.trans {ok ok' : Prop} {target : L} {m'' : Machine}
    (h : ReachesUnless code m ok target m') (h' : ok → ReachesUnless code m' ok' target m'') :
    ReachesUnless code m (ok ∧ ok') target m'' := by
  refine ⟨fun hok => (h.1 hok.1).trans ((h' hok.1).1 hok.2), fun hnot => ?_⟩
  by_cases hok : ok
  · obtain ⟨m₁, hleave⟩ := (h' hok).2 fun hok' => hnot ⟨hok, hok'⟩
    exact ⟨m₁, (h.1 hok).runs hleave⟩
  · exact h.2 hok

/-- Code that only goes on. -/
theorem ReachesUnless.of_reaches {target : L} (h : Reaches code m m') :
    ReachesUnless code m True target m' :=
  ⟨fun _ => h, fun hnot => absurd trivial hnot⟩

/-- `B.cond` to a label out of the code: on unless the condition holds. -/
theorem ReachesUnless.bCond {cond : Cond} {target : L}
    (hfetch : code[m.pc]? = some (.bCond cond target)) (hout : labelIndex code target = none) :
    ReachesUnless code m (cond.holds m.flags = false) target m.next := by
  refine ⟨Reaches.bCond_not_taken hfetch, fun hholds => ⟨m, Runs.of_leave hfetch ?_⟩⟩
  · simp only [exec, Bool.not_eq_false] at hholds ⊢
    simp only [hholds, if_true, branch_of_labelIndex_none hout]

/-- `CBZ` to a label out of the code: on unless the register is zero. -/
theorem ReachesUnless.cbz {width : Width} {rn : Reg} {target : L}
    (hfetch : code[m.pc]? = some (.cbz width rn target)) (hout : labelIndex code target = none) :
    ReachesUnless code m (m.get width rn ≠ 0) target m.next := by
  refine ⟨fun hne => Reaches.single hfetch ?_, fun hzero => ⟨m, Runs.of_leave hfetch ?_⟩⟩
  · simp only [exec, hne, if_false]
  · rw [not_not] at hzero
    simp only [exec, hzero, if_true, branch_of_labelIndex_none hout]

/-- `TBNZ` to a label out of the code: on unless the bit is set. -/
theorem ReachesUnless.tbnz {rt : Reg} {bit : Nat} {target : L}
    (hfetch : code[m.pc]? = some (.tbnz rt bit target)) (hout : labelIndex code target = none) :
    ReachesUnless code m ((m.regs rt).getLsbD bit = false) target m.next := by
  refine ⟨fun hclear => Reaches.single hfetch ?_, fun hset => ⟨m, Runs.of_leave hfetch ?_⟩⟩
  · simp only [exec, hclear, Bool.false_eq_true, if_false]
  · rw [Bool.not_eq_false] at hset
    simp only [exec, hset, if_true, branch_of_labelIndex_none hout]

/-- The same condition, stated otherwise. -/
theorem ReachesUnless.congr {ok ok' : Prop} {target : L} (h : ReachesUnless code m ok target m')
    (hiff : ok ↔ ok') : ReachesUnless code m ok' target m' :=
  ⟨fun hok => h.1 (hiff.mpr hok), fun hnot => h.2 fun hok => hnot (hiff.mp hok)⟩

/-- `trans`, where the machine the second piece reaches is known only when the first goes on. -/
theorem ReachesUnless.trans_exists {ok ok' : Prop} {target : L} {P : Machine → Prop}
    (h : ReachesUnless code m ok target m')
    (h' : ok → ∃ m'', ReachesUnless code m' ok' target m'' ∧ P m'') :
    ∃ m'', ReachesUnless code m (ok ∧ ok') target m'' ∧ (ok → P m'') := by
  by_cases hok : ok
  · obtain ⟨m'', hnext, hP⟩ := h' hok
    exact ⟨m'', h.trans fun _ => hnext, fun _ => hP⟩
  · -- the first piece branches out, so any machine will do
    exact ⟨m, ⟨fun hboth => absurd hboth.1 hok, fun _ => h.2 hok⟩, fun hok' => absurd hok' hok⟩

end Execution

end Aarch64

end AndroidArt.Lib
