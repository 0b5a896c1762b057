/-
Module: AndroidArt.Llvm.BlockGeneration
Purpose: The control-flow skeleton that HGraphToLLVM builds for the inner function at the end of
  PopulateInnerMethod (compiler/mcr_cc/llvm/hgraph_to_llvm.cc, hgraph_converter.cc,
  hgraph_helper.cc): one LLVM block per HGraph block with one PHINode per HPhi
  (GenerateBasicBlocksAndPhis), the code the visitors append while GenerateInstructions walks the
  blocks in reverse post order, the PHI inputs of PopulatePhis, and the branch of LinkEntryBlock.
Trusted boundary: hgraph_to_llvm.h defines SUSPEND_CHECK_USE_METHOD, so a suspend check is a call
  and phi_sc_additions_ stays empty; the #else path (HandleGoto, GenerateSuspendCheck,
  GenerateGotoForSuspendCheck) is not compiled and is not modelled. The visitors of the
  instructions that are not control flow emit straight-line code, as the backend's design
  requires, and their code is shown as one plain instruction; a suspend check is the call it is.
  SuspendCheckSimplify, which runs after LinkEntryBlock and only deletes suspend-check calls, is
  in Llvm.SuspendCheck; the layout of the blocks in the function is not modelled.
Main exports: LBlock, LInst, LPhi, LFunction
-/
import Mathlib.Data.List.Nodup
import AndroidArt.Lib.KeyedFold
import AndroidArt.Optimizing.Graph

namespace AndroidArt.Llvm

open AndroidArt.Optimizing AndroidArt.Lib

/-! ### The inner function

An LLVM block is either the inner function's own entry block, where the arguments are
loaded, or `getBasicBlock` of an HGraph block.  The map `lblocks_` that `addBasicBlock` fills
gives every HGraph block its own fresh `BasicBlock::Create`, so it is modelled by the block
id itself. -/

/-- An LLVM basic block of the inner function. -/
inductive LBlock where
  | entry
  | block (id : Nat)
deriving Repr, DecidableEq

/-- `getBasicBlock` gives distinct HGraph blocks distinct LLVM blocks. -/
theorem LBlock.block_injective : Function.Injective LBlock.block :=
  fun _ _ h => LBlock.block.inj h

/-- An LLVM instruction as far as control flow goes: straight-line code, the call of the
suspend-check function (`fh_->SuspendCheckASM`), or one of the terminators the visitors
create. -/
inductive LInst where
  | plain
  | suspendCheck
  | br (target : LBlock)
  | condBr (ifTrue ifFalse : LBlock)
  | switch (defaultDest : LBlock) (cases : List (Int × LBlock))
  | ret
  | unreachable
deriving Repr, DecidableEq

namespace LInst

/-- `llvm::Instruction::isTerminator`. -/
def isTerminator : LInst → Bool
  | .plain | .suspendCheck => false
  | _ => true

/-- The successors of a terminator, one per edge in operand order; a switch lists its
default destination first. -/
def successors : LInst → List LBlock
  | .br target => [target]
  | .condBr ifTrue ifFalse => [ifTrue, ifFalse]
  | .switch defaultDest cases => defaultDest :: cases.map Prod.snd
  | .plain | .suspendCheck | .ret | .unreachable => []

end LInst

/-- A PHINode: the id of the HPhi it translates (the key of `phis_`) and its incoming
(value, block) pairs in the order `addIncoming` added them. -/
structure LPhi where
  id : Nat
  incoming : List (Nat × LBlock)
deriving Repr, DecidableEq

/-- The inner function while it is built: the instructions and the PHINodes of each block. -/
structure LFunction where
  code : LBlock → List LInst
  phis : LBlock → List LPhi

namespace LFunction

/-- `SetInsertPoint(lb)` followed by the `Create*` calls of `insts`. -/
def appendCode (f : LFunction) (lb : LBlock) (insts : List LInst) : LFunction :=
  { f with code := Function.update f.code lb (f.code lb ++ insts) }

@[simp] theorem appendCode_phis (f : LFunction) (lb : LBlock) (insts : List LInst) :
    (f.appendCode lb insts).phis = f.phis := rfl

@[simp] theorem appendCode_code_self (f : LFunction) (lb : LBlock) (insts : List LInst) :
    (f.appendCode lb insts).code lb = f.code lb ++ insts := by
  simp [appendCode]

theorem appendCode_code_of_ne (f : LFunction) {lb lb' : LBlock} (insts : List LInst)
    (h : lb' ≠ lb) : (f.appendCode lb insts).code lb' = f.code lb' := by
  simp [appendCode, Function.update_of_ne h]

end LFunction

/-! ### The visitors

`cur_lblock_` is `getBasicBlock` of the block being visited, so a visitor is given the block's
id and the block itself, and, for the two that look at them, the instruction before or after
it (`GetPrevious`, `GetNext`). -/

section Visitors

variable (g : Graph) (isOuter : Bool)

/-- `GenerateSuspendCheckMethod` in the LLVM block of block `blockId`: nothing in the entry block
of a method that is being inlined (`llcu_->IsOuter()` is false), a call otherwise. -/
def generateSuspendCheckMethod (blockId : Nat) : List LInst :=
  if !isOuter && blockId == g.entryBlock then [] else [.suspendCheck]

/-- `HandleGotoMethod` for the `HGoto` of block `blockId`: a suspend check on a back edge of a
loop that has one, or in the entry block right after its `HSuspendCheck`, unless the successor
is the exit block; then the branch, which is emitted in every case, to the next block and to the
exit block too. -/
def handleGotoMethod (blockId : Nat) (b : BasicBlock) (previous : Option Instruction) :
    List LInst :=
  let successor := b.successors.getD 0 0
  let onBackEdge : Bool :=
    match b.loopInformation with
    | some header =>
      (g.loop header).isBackEdge blockId && (g.loop header).suspendCheck.isSome
    | none => false
  let afterSuspendCheck : Bool :=
    blockId == g.entryBlock && previous.map (·.kind) == some .suspendCheck
  let suspendCheck :=
    if g.exitBlock == some successor then []
    else if onBackEdge || afterSuspendCheck then generateSuspendCheckMethod g isOuter blockId
    else []
  suspendCheck ++ [.br (.block successor)]

/-- `VisitSuspendCheck`: nothing in a loop (the back edge emits the check) or in the entry
block before a goto (the goto emits it), a call otherwise. -/
def visitSuspendCheck (blockId : Nat) (b : BasicBlock) (next : Option Instruction) :
    List LInst :=
  if b.loopInformation.isSome then []
  else if blockId == g.entryBlock && next.map (·.kind) == some .goto then []
  else generateSuspendCheckMethod g isOuter blockId

/-- `VisitPackedSwitch`: a switch to the default block, successor `numEntries`, with the case
`startValue + i` for every successor `i`, the default block included.  The case values are not
reduced to 32 bits. -/
def visitPackedSwitch (b : BasicBlock) (startValue : Int) (numEntries : Nat) : List LInst :=
  [.switch (.block (b.successors.getD numEntries 0))
    (b.successors.mapIdx fun i s => (startValue + i, .block s))]

/-- The code the visitor of `instr`, an instruction of block `blockId`, appends. -/
def emitInstruction (blockId : Nat) (b : BasicBlock) (previous next : Option Instruction)
    (instr : Instruction) : List LInst :=
  match instr.kind with
  | .goto => handleGotoMethod g isOuter blockId b previous
  | .suspendCheck => visitSuspendCheck g isOuter blockId b next
  -- `VisitTryBoundary` branches to the normal-flow successor only, also to the exit block
  | .tryBoundary => [.br (.block (b.successors.getD 0 0))]
  -- `VisitIf`: the comparison of the condition with false, then `CreateCondBr`
  | .ifBranch =>
    [.plain, .condBr (.block (b.successors.getD 0 0)) (.block (b.successors.getD 1 0))]
  | .packedSwitch startValue numEntries => visitPackedSwitch b startValue numEntries
  -- `VisitReturn`: the cast to the method's return type, then `CreateRet`
  | .returnValue => [.plain, .ret]
  | .returnVoid => [.ret]
  -- `VisitThrow`: `ArtCallDeliverException`, then `CreateUnreachable`
  | .throw => [.plain, .unreachable]
  -- `VisitExit`: `CallExit`, the call of exit followed by `CreateUnreachable`
  | .exit => [.plain, .unreachable]
  | .other => [.plain]

/-- `HGraphVisitor::VisitBasicBlock` over an instruction list, each instruction visited with
the one before it and the one after it. -/
def emitInstructions (blockId : Nat) (b : BasicBlock) :
    Option Instruction → List Instruction → List LInst
  | _, [] => []
  | previous, instr :: rest =>
    emitInstruction g isOuter blockId b previous rest.head? instr ++
      emitInstructions blockId b (some instr) rest

/-- The code of block `blockId`: the phis emit nothing (`VisitPhi`), then the instructions in
order. -/
def emitBlock (blockId : Nat) (b : BasicBlock) : List LInst :=
  emitInstructions g isOuter blockId b none b.instructions

end Visitors

/-! ### The passes -/

section Passes

variable (g : Graph) (isOuter : Bool)

/-- `GenerateBasicBlocksAndPhis`: every live block gets its LLVM block, and a PHINode without
incoming entries for each of its phis; the function's entry block holds the argument loads. -/
def generateBasicBlocksAndPhis : LFunction where
  code
    | .entry => [.plain]
    | .block _ => []
  phis
    | .entry => []
    | .block id => ((g.block? id).map fun b => b.phis.map fun p => ⟨p.id, []⟩).getD []

/-- `HGraphToLLVM::VisitBasicBlock`: the code of block `blockId` appended to its LLVM block. -/
def visitBasicBlock (f : LFunction) (blockId : Nat) : LFunction :=
  match g.block? blockId with
  | some b => f.appendCode (.block blockId) (emitBlock g isOuter blockId b)
  | none => f

/-- `GenerateInstructions`: `VisitReversePostOrder`. -/
def generateInstructions (reversePostOrder : List Nat) (f : LFunction) : LFunction :=
  reversePostOrder.foldl (visitBasicBlock g isOuter) f

/-- The incoming entries `PopulatePhi` adds for `phi`: input `i` from `getBasicBlock` of
predecessor `i`. -/
def phiIncoming (preds : List Nat) (phi : Phi) : List (Nat × LBlock) :=
  (phi.inputs.zip preds).map fun (input, pred) => (input, LBlock.block pred)

/-- `PopulatePhi` of `phi`, a phi of block `blockId` with predecessors `preds`: its incoming
entries added to the PHINode that `getPhi` finds for it. -/
def populatePhi (blockId : Nat) (preds : List Nat) (f : LFunction) (phi : Phi) : LFunction :=
  let addIncoming (lphi : LPhi) : LPhi :=
    if lphi.id = phi.id then { lphi with incoming := lphi.incoming ++ phiIncoming preds phi }
    else lphi
  { f with
    phis := Function.update f.phis (.block blockId) ((f.phis (.block blockId)).map addIncoming) }

/-- The phis of block `blockId`, as the inner loop of `PopulatePhis` visits them. -/
def populateBlockPhis (f : LFunction) (blockId : Nat) : LFunction :=
  match g.block? blockId with
  | some b => b.phis.foldl (populatePhi blockId b.predecessors) f
  | none => f

/-- `PopulatePhis`: every live block in block-id order. -/
def populatePhis (f : LFunction) : LFunction :=
  (List.range g.blocks.length).foldl (populateBlockPhis g) f

/-- `LinkEntryBlock`: the function's entry block branches to the graph's entry block. -/
def linkEntryBlock (f : LFunction) : LFunction :=
  f.appendCode .entry [.br (.block g.entryBlock)]

/-- The four passes that end `PopulateInnerMethod`. -/
def populateInnerMethod (reversePostOrder : List Nat) : LFunction :=
  linkEntryBlock g
    (populatePhis g (generateInstructions g isOuter reversePostOrder
      (generateBasicBlocksAndPhis g)))

end Passes

/-! ### What the graph is assumed to satisfy

The backend receives a graph that the `GraphChecker` accepts: every block ends in its one
control-flow instruction, with the successors that instruction needs, and a phi has one input
per predecessor.  Phi ids are instruction ids, so they are distinct within a block. -/

/-- The number of successors the last instruction `kind` of a block needs: one for a goto,
two for an if, one per entry and the default for a packed switch, and at least the normal-flow
successor for a try boundary. -/
def successorsFit (kind : InstructionKind) (n : Nat) : Bool :=
  match kind with
  | .goto => n == 1
  | .ifBranch => n == 2
  | .packedSwitch _ numEntries => n == numEntries + 1
  | .tryBoundary => 1 ≤ n
  | _ => true

/-- A block ends in a control-flow instruction, has none before it, and has the successors
it needs. -/
def blockFits (b : BasicBlock) : Bool :=
  match b.instructions.getLast? with
  | some last =>
    last.kind.isControlFlow && b.instructions.dropLast.all (fun i => !i.kind.isControlFlow) &&
      successorsFit last.kind b.successors.length
  | none => false

/-- The phis of a block have distinct ids and one input per predecessor. -/
def phisFit (b : BasicBlock) : Bool :=
  (b.phis.map (·.id)).Nodup && b.phis.all fun p => p.inputs.length == b.predecessors.length

/-- What the results assume of the graph and of the order `GenerateInstructions` walks: the
order lists every live block exactly once, as the reverse post order does, and every live block
and its phis fit. -/
structure Translatable (g : Graph) (reversePostOrder : List Nat) : Prop where
  nodup : reversePostOrder.Nodup
  complete : ∀ id < g.blocks.length, (g.block? id).isSome → id ∈ reversePostOrder
  blocksFit : ∀ ob ∈ g.blocks, ob.all blockFits = true
  blockPhisFit : ∀ ob ∈ g.blocks, ob.all phisFit = true

section Assumptions

variable {g : Graph} {reversePostOrder : List Nat} {id : Nat} {b : BasicBlock}

/-- A live block is an entry of the block vector at its id. -/
theorem mem_blocks_of_block? (h : g.block? id = some b) :
    id < g.blocks.length ∧ some b ∈ g.blocks := by
  unfold Graph.block? at h
  cases hget : g.blocks[id]? with
  | none => simp [hget] at h
  | some ob =>
    simp only [hget, Option.join_some] at h
    subst h
    exact ⟨(List.getElem?_eq_some_iff.mp hget).1, List.mem_of_getElem? hget⟩

theorem Translatable.mem (h : Translatable g reversePostOrder) (hb : g.block? id = some b) :
    id ∈ reversePostOrder :=
  h.complete id (mem_blocks_of_block? hb).1 (by simp [hb])

theorem Translatable.blockFits (h : Translatable g reversePostOrder)
    (hb : g.block? id = some b) : blockFits b = true := by
  simpa using h.blocksFit _ (mem_blocks_of_block? hb).2

theorem Translatable.phisFit (h : Translatable g reversePostOrder)
    (hb : g.block? id = some b) : phisFit b = true := by
  simpa using h.blockPhisFit _ (mem_blocks_of_block? hb).2

end Assumptions

/-! ### Terminators and successors of one block -/

/-- A block that fits is straight-line instructions followed by its last instruction, which is
control flow and has the successors it needs. -/
theorem blockFits_split {b : BasicBlock} (hfit : blockFits b = true) :
    ∃ body last, b.instructions = body ++ [last] ∧ b.instructions.getLast? = some last ∧
      last.kind.isControlFlow = true ∧ (∀ i ∈ body, i.kind.isControlFlow = false) ∧
      successorsFit last.kind b.successors.length = true := by
  unfold blockFits at hfit
  cases hlast : b.instructions.getLast? with
  | none => simp [hlast] at hfit
  | some last =>
    obtain ⟨body, hinsns⟩ := List.getLast?_eq_some_iff.mp hlast
    simp only [hlast] at hfit
    simp only [hinsns, List.dropLast_concat, Bool.and_eq_true, List.all_eq_true,
      Bool.not_eq_eq_eq_not, Bool.not_true] at hfit
    obtain ⟨⟨hcf, hbody⟩, hsucc⟩ := hfit
    exact ⟨body, last, hinsns, rfl, hcf, hbody, hsucc⟩

section Terminators

variable (g : Graph) (isOuter : Bool) (blockId : Nat) (b : BasicBlock)

omit b in
theorem generateSuspendCheckMethod_straight :
    ∀ x ∈ generateSuspendCheckMethod g isOuter blockId, x.isTerminator = false := by
  unfold generateSuspendCheckMethod
  split <;> simp [LInst.isTerminator]

theorem visitSuspendCheck_straight (next : Option Instruction) :
    ∀ x ∈ visitSuspendCheck g isOuter blockId b next, x.isTerminator = false := by
  unfold visitSuspendCheck
  split_ifs
  · simp
  · simp
  · exact generateSuspendCheckMethod_straight g isOuter blockId

/-- A goto's code is straight-line code followed by the branch to its successor. -/
theorem handleGotoMethod_split (previous : Option Instruction) :
    ∃ pre, handleGotoMethod g isOuter blockId b previous =
        pre ++ [.br (.block (b.successors.getD 0 0))] ∧
      ∀ x ∈ pre, x.isTerminator = false := by
  refine ⟨_, rfl, ?_⟩
  split_ifs
  · simp
  · exact generateSuspendCheckMethod_straight g isOuter blockId
  · simp

/-- The visitors of the instructions that are not control flow emit straight-line code. -/
theorem emitInstruction_straight {instr : Instruction} (previous next : Option Instruction)
    (h : instr.kind.isControlFlow = false) :
    ∀ x ∈ emitInstruction g isOuter blockId b previous next instr, x.isTerminator = false := by
  unfold emitInstruction
  cases hk : instr.kind with
  | suspendCheck => exact visitSuspendCheck_straight g isOuter blockId b next
  | other => simp [LInst.isTerminator]
  | _ => simp [hk, InstructionKind.isControlFlow] at h

/-- The case targets of a packed switch are its successors in order. -/
theorem mapIdx_case_targets (f : Nat → Int) (l : List Nat) :
    (l.mapIdx fun i s => (f i, LBlock.block s)).map Prod.snd = l.map .block := by
  induction l generalizing f with
  | nil => rfl
  | cons s l ih => simp [List.mapIdx_cons, ih (fun i => f (i + 1))]

/-- The visitor of a block's last, control-flow, instruction ends the block's code with one
terminator whose successors are the LLVM blocks of the block's normal-flow successors, and
none when control leaves the method. -/
theorem emitInstruction_terminator {last : Instruction} (previous next : Option Instruction)
    (hlast : b.instructions.getLast? = some last) (hcf : last.kind.isControlFlow = true)
    (hfit : successorsFit last.kind b.successors.length = true) :
    ∃ pre t, emitInstruction g isOuter blockId b previous next last = pre ++ [t] ∧
      (∀ x ∈ pre, x.isTerminator = false) ∧ t.isTerminator = true ∧
      ∀ lb, lb ∈ t.successors ↔
        last.kind.leavesMethod = false ∧ ∃ s ∈ b.normalSuccessors, lb = .block s := by
  have hnormal : b.normalSuccessors =
      if last.kind = .tryBoundary then b.successors.take 1 else b.successors := by
    simp [BasicBlock.normalSuccessors, BasicBlock.endsWithTryBoundary, hlast]
  unfold emitInstruction
  cases hk : last.kind with
  | goto =>
    obtain ⟨s, hs⟩ := List.length_eq_one_iff.mp (by simpa [successorsFit, hk] using hfit)
    obtain ⟨pre, hcode, hpre⟩ := handleGotoMethod_split g isOuter blockId b previous
    refine ⟨pre, _, hcode, hpre, rfl, fun lb => ?_⟩
    simp [hnormal, hk, hs, LInst.successors, InstructionKind.leavesMethod]
  | tryBoundary =>
    obtain ⟨s, rest, hs⟩ : ∃ s rest, b.successors = s :: rest := by
      have : 1 ≤ b.successors.length := by simpa [successorsFit, hk] using hfit
      cases hsucc : b.successors with
      | nil => simp [hsucc] at this
      | cons s rest => exact ⟨s, rest, rfl⟩
    refine ⟨[], _, rfl, by simp, rfl, fun lb => ?_⟩
    simp [hnormal, hk, hs, LInst.successors, InstructionKind.leavesMethod]
  | ifBranch =>
    obtain ⟨s0, s1, hs⟩ := List.length_eq_two.mp (by simpa [successorsFit, hk] using hfit)
    refine ⟨[.plain], _, rfl, by simp [LInst.isTerminator], rfl, fun lb => ?_⟩
    simp [hnormal, hk, hs, LInst.successors, InstructionKind.leavesMethod]
  | packedSwitch startValue numEntries =>
    have hlen : b.successors.length = numEntries + 1 := by simpa [successorsFit, hk] using hfit
    -- the default block is the last successor, so listing it again adds no new target
    have hdefault : b.successors.getD numEntries 0 ∈ b.successors := by
      rw [List.getD_eq_getElem?_getD, List.getElem?_eq_getElem (by omega)]
      exact List.getElem_mem _
    refine ⟨[], _, rfl, by simp, rfl, fun lb => ?_⟩
    simp only [LInst.successors, mapIdx_case_targets, hnormal, hk, InstructionKind.leavesMethod,
      List.mem_cons, List.mem_map, true_and, reduceCtorEq, if_false]
    constructor
    · rintro (rfl | ⟨s, hs, rfl⟩)
      · exact ⟨_, hdefault, rfl⟩
      · exact ⟨s, hs, rfl⟩
    · rintro ⟨s, hs, rfl⟩
      exact Or.inr ⟨s, hs, rfl⟩
  | returnValue =>
    refine ⟨[.plain], _, rfl, by simp [LInst.isTerminator], rfl, fun lb => ?_⟩
    simp [LInst.successors, InstructionKind.leavesMethod]
  | returnVoid =>
    refine ⟨[], _, rfl, by simp, rfl, fun lb => ?_⟩
    simp [LInst.successors, InstructionKind.leavesMethod]
  | throw =>
    refine ⟨[.plain], _, rfl, by simp [LInst.isTerminator], rfl, fun lb => ?_⟩
    simp [LInst.successors, InstructionKind.leavesMethod]
  | exit =>
    refine ⟨[.plain], _, rfl, by simp [LInst.isTerminator], rfl, fun lb => ?_⟩
    simp [LInst.successors, InstructionKind.leavesMethod]
  | suspendCheck => simp [hk, InstructionKind.isControlFlow] at hcf
  | other => simp [hk, InstructionKind.isControlFlow] at hcf

/-- Visiting straight-line instructions and then a last one: straight-line code, then the
code of the last instruction, which sees no next instruction. -/
theorem emitInstructions_append_last (last : Instruction) {body : List Instruction}
    (hbody : ∀ i ∈ body, i.kind.isControlFlow = false) (previous : Option Instruction) :
    ∃ pre previous', emitInstructions g isOuter blockId b previous (body ++ [last]) =
        pre ++ emitInstruction g isOuter blockId b previous' none last ∧
      ∀ x ∈ pre, x.isTerminator = false := by
  induction body generalizing previous with
  | nil => exact ⟨[], previous, by simp [emitInstructions], by simp⟩
  | cons i body ih =>
    obtain ⟨pre, previous', hcode, hpre⟩ :=
      ih (fun j hj => hbody j (List.mem_cons_of_mem i hj)) (some i)
    have hi := emitInstruction_straight g isOuter blockId b previous (body ++ [last]).head?
      (hbody i List.mem_cons_self)
    refine ⟨emitInstruction g isOuter blockId b previous (body ++ [last]).head? i ++ pre,
      previous', ?_, ?_⟩
    · rw [List.cons_append, emitInstructions, hcode, List.append_assoc]
    · intro x hx
      rcases List.mem_append.mp hx with hx | hx
      · exact hi x hx
      · exact hpre x hx

/-- The code of a block that fits ends in exactly one terminator, whose successors are the
LLVM blocks of the block's normal-flow successors, and none when control leaves the method. -/
theorem emitBlock_terminator (hfit : blockFits b = true) :
    ∃ pre t, emitBlock g isOuter blockId b = pre ++ [t] ∧
      (∀ x ∈ pre, x.isTerminator = false) ∧ t.isTerminator = true ∧
      ∀ lb, lb ∈ t.successors ↔
        b.leavesMethod = false ∧ ∃ s ∈ b.normalSuccessors, lb = .block s := by
  obtain ⟨body, last, hinsns, hlast, hcf, hbody, hsucc⟩ := blockFits_split hfit
  obtain ⟨pre, previous', hcode, hpre⟩ :=
    emitInstructions_append_last g isOuter blockId b last hbody none
  obtain ⟨pre', t, hlastCode, hpre', ht, hsuccs⟩ :=
    emitInstruction_terminator g isOuter blockId b previous' none hlast hcf hsucc
  refine ⟨pre ++ pre', t, ?_, ?_, ht, ?_⟩
  · rw [emitBlock, hinsns, hcode, hlastCode, List.append_assoc]
  · intro x hx
    rcases List.mem_append.mp hx with hx | hx
    · exact hpre x hx
    · exact hpre' x hx
  · simpa [BasicBlock.leavesMethod, hlast] using hsuccs

end Terminators

/-! ### The passes, block by block -/

section Runs

variable (g : Graph) (isOuter : Bool)

/-- One visited block rewrites the code of its own LLVM block only. -/
theorem visitBasicBlock_keyed :
    KeyedStep (visitBasicBlock g isOuter) LFunction.code LBlock.block
      (fun blockId old => old ++ ((g.block? blockId).map (emitBlock g isOuter blockId)).getD [])
    where
  atKey f blockId := by
    cases hb : g.block? blockId <;> simp [visitBasicBlock, hb]
  frame f blockId lb hne := by
    cases hb : g.block? blockId with
    | none => simp [visitBasicBlock, hb]
    | some b => simp [visitBasicBlock, hb, LFunction.appendCode_code_of_ne _ _ hne]

theorem generateInstructions_phis (reversePostOrder : List Nat) (f : LFunction) :
    (generateInstructions g isOuter reversePostOrder f).phis = f.phis := by
  refine foldl_frame LFunction.phis (fun f blockId => ?_) reversePostOrder f
  cases hb : g.block? blockId <;> simp [visitBasicBlock, hb]

/-- The phis of one block fill the PHINodes of their own LLVM block: each PHINode receives the
incoming entries of every phi that carries its id. -/
theorem foldl_populatePhi_phis (blockId : Nat) (preds : List Nat) :
    ∀ (phis : List Phi) (f : LFunction),
      (phis.foldl (populatePhi blockId preds) f).phis =
        Function.update f.phis (.block blockId) ((f.phis (.block blockId)).map fun lphi =>
          { lphi with
            incoming := lphi.incoming ++
              (phis.filter (·.id == lphi.id)).flatMap (phiIncoming preds) })
  | [], f => by simp
  | phi :: phis, f => by
    rw [List.foldl_cons, foldl_populatePhi_phis blockId preds phis]
    funext lb
    by_cases hlb : lb = .block blockId
    · subst hlb
      simp only [populatePhi, Function.update_self, List.map_map]
      congr 1
      funext lphi
      by_cases hid : lphi.id = phi.id
      · simp [hid]
      · simp [hid, Ne.symm hid]
    · simp [populatePhi, Function.update_of_ne hlb]

theorem populatePhi_code (blockId : Nat) (preds : List Nat) (f : LFunction) (phi : Phi) :
    (populatePhi blockId preds f phi).code = f.code := rfl

theorem populateBlockPhis_code (f : LFunction) (blockId : Nat) :
    (populateBlockPhis g f blockId).code = f.code := by
  unfold populateBlockPhis
  split
  · exact foldl_frame LFunction.code (populatePhi_code blockId _) _ f
  · rfl

/-- The phis of one block rewrite the PHINodes of its own LLVM block only. -/
theorem populateBlockPhis_keyed :
    KeyedStep (populateBlockPhis g) LFunction.phis LBlock.block
      (fun blockId old => match g.block? blockId with
        | some b => old.map fun lphi =>
          { lphi with
            incoming := lphi.incoming ++
              (b.phis.filter (·.id == lphi.id)).flatMap (phiIncoming b.predecessors) }
        | none => old)
    where
  atKey f blockId := by
    cases hb : g.block? blockId <;> simp [populateBlockPhis, hb, foldl_populatePhi_phis]
  frame f blockId lb hne := by
    cases hb : g.block? blockId <;>
      simp [populateBlockPhis, hb, foldl_populatePhi_phis, Function.update_of_ne hne]

/-- With distinct ids, the only phi that carries a phi's id is the phi itself. -/
theorem filter_id_eq_singleton {phis : List Phi} {phi : Phi} (hnd : (phis.map (·.id)).Nodup)
    (hmem : phi ∈ phis) : phis.filter (·.id == phi.id) = [phi] := by
  induction phis with
  | nil => cases hmem
  | cons q phis ih =>
    rw [List.map_cons, List.nodup_cons] at hnd
    rcases List.mem_cons.mp hmem with rfl | hrest
    · have hnone : phis.filter (·.id == phi.id) = [] := by
        rw [List.filter_eq_nil_iff]
        intro p hp hid
        exact hnd.1 (List.mem_map.mpr ⟨p, hp, by simpa using hid⟩)
      simp [hnone]
    · have hne : q.id ≠ phi.id := fun h => hnd.1 (h ▸ List.mem_map_of_mem hrest)
      simp [hne, ih hnd.2 hrest]

end Runs

/-! ### The inner function after the four passes -/

section Spec

variable {g : Graph} {reversePostOrder : List Nat} (isOuter : Bool)

/-- The function's entry block loads the arguments and branches to the graph's entry block. -/
theorem populateInnerMethod_code_entry :
    (populateInnerMethod g isOuter reversePostOrder).code .entry =
      [.plain, .br (.block g.entryBlock)] := by
  have hgen : (generateInstructions g isOuter reversePostOrder
      (generateBasicBlocksAndPhis g)).code .entry = [.plain] :=
    (visitBasicBlock_keyed g isOuter).foldl_of_not_mem reversePostOrder _
      (fun _ _ h => LBlock.noConfusion h)
  have hpop : ∀ f, (populatePhis g f).code = f.code :=
    foldl_frame LFunction.code (populateBlockPhis_code g) _
  simp [populateInnerMethod, linkEntryBlock, hpop, hgen]

/-- The LLVM block of a live block holds exactly the code its visitors emit. -/
theorem populateInnerMethod_code_block (h : Translatable g reversePostOrder) {id : Nat}
    {b : BasicBlock} (hb : g.block? id = some b) :
    (populateInnerMethod g isOuter reversePostOrder).code (.block id) =
      emitBlock g isOuter id b := by
  have hnd : (reversePostOrder.map LBlock.block).Nodup :=
    List.Nodup.map LBlock.block_injective h.nodup
  have hgen := (visitBasicBlock_keyed g isOuter).foldl_of_mem reversePostOrder
    (generateBasicBlocksAndPhis g) hnd id (h.mem hb)
  have hpop : ∀ f, (populatePhis g f).code = f.code :=
    foldl_frame LFunction.code (populateBlockPhis_code g) _
  rw [populateInnerMethod, linkEntryBlock, LFunction.appendCode_code_of_ne _ _ LBlock.noConfusion,
    hpop, generateInstructions, hgen]
  simp [hb, generateBasicBlocksAndPhis]

/-- The PHINodes of a live block are those of its phis, in order, and the PHINode of phi `p`
has one incoming entry per predecessor `i`: input `i` of `p` from the LLVM block of
predecessor `i`. -/
theorem populateInnerMethod_phis_block (h : Translatable g reversePostOrder) {id : Nat}
    {b : BasicBlock} (hb : g.block? id = some b) :
    (populateInnerMethod g isOuter reversePostOrder).phis (.block id) =
      b.phis.map fun p => ⟨p.id, phiIncoming b.predecessors p⟩ := by
  have hrange : id ∈ List.range g.blocks.length :=
    List.mem_range.mpr (mem_blocks_of_block? hb).1
  have hnd : ((List.range g.blocks.length).map LBlock.block).Nodup :=
    List.Nodup.map LBlock.block_injective List.nodup_range
  have hpop := (populateBlockPhis_keyed g).foldl_of_mem _
    (generateInstructions g isOuter reversePostOrder (generateBasicBlocksAndPhis g)) hnd id hrange
  have hids : (b.phis.map (·.id)).Nodup := by
    have := h.phisFit hb
    simp only [phisFit, Bool.and_eq_true, decide_eq_true_eq] at this
    exact this.1
  rw [populateInnerMethod, linkEntryBlock, LFunction.appendCode_phis, populatePhis, hpop,
    generateInstructions_phis]
  simp only [hb, generateBasicBlocksAndPhis, Option.map_some, Option.getD_some, List.map_map]
  apply List.map_congr_left
  intro p hp
  simp [filter_id_eq_singleton hids hp]

/-- After the four passes the function's entry block branches to the graph's entry block;
the LLVM block of every live block ends in exactly one terminator, whose successors are the
LLVM blocks of the block's normal-flow successors, and none when control leaves the method
there; and the PHINode of each phi has one incoming entry per predecessor, carrying the phi's
input from that predecessor. -/
theorem populateInnerMethod_cfg (h : Translatable g reversePostOrder) :
    (populateInnerMethod g isOuter reversePostOrder).code .entry =
        [.plain, .br (.block g.entryBlock)] ∧
      ∀ id b, g.block? id = some b →
        (∃ pre t, (populateInnerMethod g isOuter reversePostOrder).code (.block id) = pre ++ [t] ∧
          (∀ x ∈ pre, x.isTerminator = false) ∧ t.isTerminator = true ∧
          ∀ lb, lb ∈ t.successors ↔
            b.leavesMethod = false ∧ ∃ s ∈ b.normalSuccessors, lb = .block s) ∧
        (populateInnerMethod g isOuter reversePostOrder).phis (.block id) =
          b.phis.map fun p => ⟨p.id, phiIncoming b.predecessors p⟩ := by
  refine ⟨populateInnerMethod_code_entry isOuter, fun id b hb => ⟨?_, ?_⟩⟩
  · rw [populateInnerMethod_code_block isOuter h hb]
    exact emitBlock_terminator g isOuter id b (h.blockFits hb)
  · exact populateInnerMethod_phis_block isOuter h hb

end Spec

/-- A diamond: the entry block 0 checks for suspension and branches to 1 or 2, which define
values 5 and 6 and join at block 3, whose phi 7 merges them before it returns; 4 is the exit
block. -/
def diamondGraph : Graph where
  blocks :=
    [some { predecessors := [], successors := [1, 2], phis := [],
            instructions := [⟨0, .suspendCheck⟩, ⟨1, .ifBranch⟩], loopInformation := none },
     some { predecessors := [0], successors := [3], phis := [],
            instructions := [⟨5, .other⟩, ⟨2, .goto⟩], loopInformation := none },
     some { predecessors := [0], successors := [3], phis := [],
            instructions := [⟨6, .other⟩, ⟨3, .goto⟩], loopInformation := none },
     some { predecessors := [1, 2], successors := [4], phis := [⟨7, [5, 6]⟩],
            instructions := [⟨8, .returnValue⟩], loopInformation := none },
     some { predecessors := [3], successors := [], phis := [],
            instructions := [⟨9, .exit⟩], loopInformation := none }]
  entryBlock := 0
  exitBlock := some 4
  loops := fun _ => none
  nextInstructionId := 10

theorem populateInnerMethod_cfg_diamond :
    Translatable diamondGraph [0, 1, 2, 3, 4] ∧
      ((populateInnerMethod diamondGraph true [0, 1, 2, 3, 4]).code .entry =
          [.plain, .br (.block diamondGraph.entryBlock)] ∧
        ∀ id b, diamondGraph.block? id = some b →
          (∃ pre t, (populateInnerMethod diamondGraph true [0, 1, 2, 3, 4]).code (.block id) =
              pre ++ [t] ∧
            (∀ x ∈ pre, x.isTerminator = false) ∧ t.isTerminator = true ∧
            ∀ lb, lb ∈ t.successors ↔
              b.leavesMethod = false ∧ ∃ s ∈ b.normalSuccessors, lb = .block s) ∧
          (populateInnerMethod diamondGraph true [0, 1, 2, 3, 4]).phis (.block id) =
            b.phis.map fun p => ⟨p.id, phiIncoming b.predecessors p⟩) :=
  have h : Translatable diamondGraph [0, 1, 2, 3, 4] := ⟨by decide, by decide, by decide, by decide⟩
  ⟨h, populateInnerMethod_cfg true h⟩

/-- Block 3 of the diamond returns: in the HGraph its successor is the exit block, while its
LLVM code ends in a ret, which has no successor. -/
theorem populateInnerMethod_diamond_drops_exit_edge :
    (diamondGraph.block 3).successors = [4] ∧
      (populateInnerMethod diamondGraph true [0, 1, 2, 3, 4]).code (.block 3) = [.plain, .ret] := by
  decide

end AndroidArt.Llvm
