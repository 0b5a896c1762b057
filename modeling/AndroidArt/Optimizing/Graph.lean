/-
Module: AndroidArt.Optimizing.Graph
Purpose: The control-flow part of the optimizing compiler's HGraph: blocks with ordered
  predecessor and successor lists, phis whose inputs are aligned with the predecessor list, the
  loop information recorded for loop headers, and the block-level edits of
  `compiler/optimizing/nodes.h` (AddBlock, AddSuccessor, ReplaceSuccessor, InsertBetween,
  RemovePredecessor) together with the phi-input edits of `HVariableInputSizeInstruction`.
Trusted boundary: none
Main exports: InstructionKind, Instruction, Phi, BasicBlock
-/
import Mathlib.Data.List.Basic

namespace AndroidArt.Optimizing

/-!
Blocks live in `HGraph::blocks_`, indexed by their block id; removed blocks stay in the
vector as null entries, which is why `Graph.blocks` holds `Option BasicBlock`.  Instructions
and phis are identified by the ids that `HBasicBlock::AddInstruction` and `AddPhi` draw from
`HGraph::GetNextInstructionId`, and a phi input is the id of the instruction it reads.

Only what the CFG passes and the LLVM backend's control-flow visitors read is kept: the kind
of an instruction matters for `GetFirstInstruction()->IsSuspendCheck()`, for
`EndsWithTryBoundary` and for the terminator an LLVM visitor emits; dex pcs, types and use
lists are not modelled.
-/

/-- The instruction kinds that the CFG passes and the LLVM backend distinguish: the
control-flow instructions `HGoto`, `HIf`, `HPackedSwitch` (with its start value and number of
entries), `HReturn`, `HReturnVoid`, `HThrow`, `HTryBoundary` and `HExit`, `HSuspendCheck`, and
every other instruction. -/
inductive InstructionKind where
  | goto
  | suspendCheck
  | tryBoundary
  | ifBranch
  | packedSwitch (startValue : Int) (numEntries : Nat)
  | returnValue
  | returnVoid
  | throw
  | exit
  | other
deriving Repr, DecidableEq, Inhabited

/-- `HInstruction::IsControlFlow`: the instructions that end a block. -/
def InstructionKind.isControlFlow : InstructionKind → Bool
  | .goto | .tryBoundary | .ifBranch | .packedSwitch _ _ | .returnValue | .returnVoid | .throw
  | .exit => true
  | .suspendCheck | .other => false

/-- `HReturn`, `HReturnVoid`, `HThrow` and `HExit`, after which control leaves the method. -/
def InstructionKind.leavesMethod : InstructionKind → Bool
  | .returnValue | .returnVoid | .throw | .exit => true
  | _ => false

/-- An instruction of a block's instruction list. -/
structure Instruction where
  id : Nat
  kind : InstructionKind
deriving Repr, DecidableEq, Inhabited

/-- A phi: its own id and its inputs, one per predecessor of its block, in predecessor
order. -/
structure Phi where
  id : Nat
  inputs : List Nat
deriving Repr, DecidableEq, Inhabited

/-- `HLoopInformation`: the recorded back edges, the populated block set (empty until
`AnalyzeLoops` runs) and the suspend check of the header. -/
structure LoopInformation where
  backEdges : List Nat
  blocks : List Nat
  suspendCheck : Option Nat
deriving Repr, DecidableEq, Inhabited

/-- `HBasicBlock`.  `loopInformation` is the header id of the `HLoopInformation` object the
block points to, so a block is a loop header exactly when it points to its own loop. -/
structure BasicBlock where
  predecessors : List Nat
  successors : List Nat
  phis : List Phi
  instructions : List Instruction
  loopInformation : Option Nat
deriving Repr, DecidableEq, Inhabited

/-- A block as `new HBasicBlock(graph)` creates it: no edges, no code, no loop. -/
def BasicBlock.empty : BasicBlock :=
  { predecessors := [], successors := [], phis := [], instructions := [],
    loopInformation := none }

/-- `HGraph`: the block vector, the entry and exit blocks, the loop information objects
keyed by their header, and the next free instruction id. -/
structure Graph where
  blocks : List (Option BasicBlock)
  entryBlock : Nat
  exitBlock : Option Nat
  loops : Nat → Option LoopInformation
  nextInstructionId : Nat

namespace LoopInformation

/-- `HLoopInformation::IsBackEdge`. -/
def isBackEdge (info : LoopInformation) (block : Nat) : Bool :=
  info.backEdges.contains block

/-- `HLoopInformation::Contains`: membership in the populated block set. -/
def containsBlock (info : LoopInformation) (block : Nat) : Bool :=
  info.blocks.contains block

/-- `HLoopInformation::NumberOfBackEdges`. -/
def numberOfBackEdges (info : LoopInformation) : Nat :=
  info.backEdges.length

/-- `HLoopInformation::RemoveBackEdge`, which erases the first occurrence. -/
def removeBackEdge (info : LoopInformation) (block : Nat) : LoopInformation :=
  { info with backEdges := info.backEdges.erase block }

/-- `HLoopInformation::AddBackEdge`. -/
def addBackEdge (info : LoopInformation) (block : Nat) : LoopInformation :=
  { info with backEdges := info.backEdges ++ [block] }

end LoopInformation

namespace BasicBlock

/-- `HBasicBlock::GetPredecessorIndexOf`: the first position of `block`. -/
def predecessorIndexOf (b : BasicBlock) (block : Nat) : Nat :=
  b.predecessors.idxOf block

/-- `HBasicBlock::GetSuccessorIndexOf`: the first position of `block`. -/
def successorIndexOf (b : BasicBlock) (block : Nat) : Nat :=
  b.successors.idxOf block

/-- `HBasicBlock::GetFirstInstruction`. -/
def firstInstruction (b : BasicBlock) : Option Instruction :=
  b.instructions.head?

/-- `HBasicBlock::EndsWithTryBoundary`. -/
def endsWithTryBoundary (b : BasicBlock) : Bool :=
  match b.instructions.getLast? with
  | some last => last.kind == .tryBoundary
  | none => false

/-- `HBasicBlock::GetNormalSuccessors`: the normal-flow successor of a `TryBoundary` is
stored at index zero, and every successor of another block is normal. -/
def normalSuccessors (b : BasicBlock) : List Nat :=
  if b.endsWithTryBoundary then b.successors.take 1 else b.successors

/-- The block ends in an instruction after which control leaves the method; its successor is
the exit block (the exit block itself has none). -/
def leavesMethod (b : BasicBlock) : Bool :=
  match b.instructions.getLast? with
  | some last => last.kind.leavesMethod
  | none => false

/-- `HBasicBlock::RemovePredecessor`. -/
def removePredecessor (b : BasicBlock) (block : Nat) : BasicBlock :=
  { b with predecessors := b.predecessors.eraseIdx (b.predecessorIndexOf block) }

end BasicBlock

namespace Graph

/-- The block with id `id`, if it exists and was not removed. -/
def block? (g : Graph) (id : Nat) : Option BasicBlock :=
  (g.blocks[id]?).join

/-- The block with id `id`, or an empty block for a null entry. -/
def block (g : Graph) (id : Nat) : BasicBlock :=
  (g.block? id).getD BasicBlock.empty

/-- Apply `f` to the block with id `id`; null entries stay null. -/
def modifyBlock (g : Graph) (id : Nat) (f : BasicBlock → BasicBlock) : Graph :=
  { g with blocks := g.blocks.modify id (Option.map f) }

/-- The loop information of header `header`, or an empty one. -/
def loop (g : Graph) (header : Nat) : LoopInformation :=
  (g.loops header).getD default

/-- Apply `f` to the loop information object of header `header`. -/
def modifyLoop (g : Graph) (header : Nat) (f : LoopInformation → LoopInformation) : Graph :=
  { g with loops := Function.update g.loops header ((g.loops header).map f) }

/-- `HBasicBlock::IsLoopHeader`: the block points to the loop information it heads. -/
def isLoopHeader (g : Graph) (id : Nat) : Bool :=
  (g.block id).loopInformation == some id

/-- `HGraph::AddBlock`: the new block gets the next block id. -/
def addBlock (g : Graph) (b : BasicBlock) : Graph × Nat :=
  ({ g with blocks := g.blocks ++ [some b] }, g.blocks.length)

/-- `HBasicBlock::AddInstruction` of a new instruction, which draws its id from
`HGraph::GetNextInstructionId`. -/
def addInstruction (g : Graph) (id : Nat) (kind : InstructionKind) : Graph :=
  let g' := g.modifyBlock id fun b =>
    { b with instructions := b.instructions ++ [{ id := g.nextInstructionId, kind := kind }] }
  { g' with nextInstructionId := g.nextInstructionId + 1 }

/-- `HBasicBlock::AddPhi` of a new phi with the given inputs; returns the phi's id. -/
def addPhi (g : Graph) (id : Nat) (inputs : List Nat) : Graph × Nat :=
  let g' := g.modifyBlock id fun b =>
    { b with phis := b.phis ++ [{ id := g.nextInstructionId, inputs := inputs }] }
  ({ g' with nextInstructionId := g.nextInstructionId + 1 }, g.nextInstructionId)

/-- `HBasicBlock::AddSuccessor`: append to both edge lists. -/
def addSuccessor (g : Graph) (src dst : Nat) : Graph :=
  let g' := g.modifyBlock src fun b => { b with successors := b.successors ++ [dst] }
  g'.modifyBlock dst fun b => { b with predecessors := b.predecessors ++ [src] }

/-- `HBasicBlock::ReplaceSuccessor` called on `src`: the edge `src → existing` becomes
`src → newBlock`, with `src` appended to the predecessors of `newBlock`. -/
def replaceSuccessor (g : Graph) (src existing newBlock : Nat) : Graph :=
  let successorIndex := (g.block src).successorIndexOf existing
  let g1 := g.modifyBlock existing fun b => b.removePredecessor src
  let g2 := g1.modifyBlock newBlock fun b => { b with predecessors := b.predecessors ++ [src] }
  g2.modifyBlock src fun b => { b with successors := b.successors.set successorIndex newBlock }

/-- `HBasicBlock::InsertBetween` called on `newBlock`: the first edge `predecessor →
successor` is routed through `newBlock`, keeping both list positions. -/
def insertBetween (g : Graph) (newBlock predecessor successor : Nat) : Graph :=
  let predecessorIndex := (g.block successor).predecessorIndexOf predecessor
  let successorIndex := (g.block predecessor).successorIndexOf successor
  let g1 := g.modifyBlock successor fun b =>
    { b with predecessors := b.predecessors.set predecessorIndex newBlock }
  let g2 := g1.modifyBlock predecessor fun b =>
    { b with successors := b.successors.set successorIndex newBlock }
  g2.modifyBlock newBlock fun b =>
    { b with successors := b.successors ++ [successor],
             predecessors := b.predecessors ++ [predecessor] }

end Graph

namespace Phi

/-- `HInstruction::ReplaceInput(replacement, index)`. -/
def replaceInput (phi : Phi) (replacement index : Nat) : Phi :=
  { phi with inputs := phi.inputs.set index replacement }

/-- `HVariableInputSizeInstruction::RemoveInputAt`. -/
def removeInputAt (phi : Phi) (index : Nat) : Phi :=
  { phi with inputs := phi.inputs.eraseIdx index }

/-- `HVariableInputSizeInstruction::AddInput`. -/
def addInput (phi : Phi) (input : Nat) : Phi :=
  { phi with inputs := phi.inputs ++ [input] }

end Phi

end AndroidArt.Optimizing
