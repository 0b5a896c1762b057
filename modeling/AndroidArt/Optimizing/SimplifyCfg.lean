/-
Module: AndroidArt.Optimizing.SimplifyCfg
Purpose: `HGraph::SimplifyCFG` of `compiler/optimizing/nodes.cc`: critical-edge splitting, the
  single-preheader transformation of loops with its phi rewriting, and the reordering of
  loop-header predecessors, with the phi-arity property the pass is meant to keep.
Trusted boundary: none
Main exports: Graph.splitCriticalEdge, Graph.transformLoopToSinglePreheaderFormat,
  Graph.simplifyLoop, Graph.simplifyCFG
-/
import AndroidArt.Optimizing.Graph

namespace AndroidArt.Optimizing

namespace Graph

/-- `HGraph::SplitEdge`: a fresh empty block is inserted on the first edge
`block → successor`. -/
def splitEdge (g : Graph) (block successor : Nat) : Graph × Nat :=
  let (g1, newBlock) := g.addBlock BasicBlock.empty
  (g1.insertBetween newBlock block successor, newBlock)

/-- `HGraph::SplitCriticalEdge`: split the edge, give the new block its `HGoto`, and when the
edge was a back edge of a loop headed by `successor`, let the new block be the back edge. -/
def splitCriticalEdge (g : Graph) (block successor : Nat) : Graph :=
  let (g1, newBlock) := g.splitEdge block successor
  let g2 := g1.addInstruction newBlock .goto
  if g2.isLoopHeader successor && (g2.loop successor).isBackEdge block then
    g2.modifyLoop successor fun info => (info.removeBackEdge block).addBackEdge newBlock
  else
    g2

/-- `FixPhisAfterPredecessorsReodering`: swap the inputs at `first` and `second` of every phi
of `block`. -/
def fixPhisAfterPredecessorsReodering (g : Graph) (block first second : Nat) : Graph :=
  g.modifyBlock block fun b =>
    { b with
      phis := b.phis.map fun phi =>
        let firstInstr := phi.inputs.getD first 0
        let secondInstr := phi.inputs.getD second 0
        (phi.replaceInput firstInstr second).replaceInput secondInstr first }

/-- `HGraph::OrderLoopHeaderPredecessors`: when the first predecessor of `header` is a back
edge, swap it with the first later predecessor that is not one. -/
def orderLoopHeaderPredecessors (g : Graph) (header : Nat) : Graph :=
  let info := g.loop header
  match (g.block header).predecessors with
  | [] => g
  | toSwap :: rest =>
    if info.isBackEdge toSwap then
      match rest.findIdx? (fun p => !info.isBackEdge p) with
      | some i =>
        let pred := i + 1
        let predecessor := rest.getD i 0
        let g1 := g.modifyBlock header fun b =>
          { b with predecessors := (b.predecessors.set pred toSwap).set 0 predecessor }
        g1.fixPhisAfterPredecessorsReodering header 0 pred
      | none => g
    else
      g

/-- The loop of `FixControlForNewSinglePreheader` at index `pred`: a predecessor that is
neither a back edge nor the new preheader is redirected to the preheader, which removes it
from the header's list, so the index stays where it is (`pred--` before `++pred`).  Each
round removes an entry or advances `pred`, so the length of the list plus one is enough
fuel. -/
def fixControlForNewSinglePreheaderFrom (header newPreheader : Nat) :
    Nat → Nat → Graph → Graph
  | 0, _, g => g
  | fuel + 1, pred, g =>
    match (g.block header).predecessors[pred]? with
    | none => g
    | some predecessor =>
      if !(g.loop header).isBackEdge predecessor && predecessor != newPreheader then
        fixControlForNewSinglePreheaderFrom header newPreheader fuel pred
          (g.replaceSuccessor predecessor header newPreheader)
      else
        fixControlForNewSinglePreheaderFrom header newPreheader fuel (pred + 1) g

/-- `FixControlForNewSinglePreheader`: redirect every incoming non-back edge of `header`
to `newPreheader`. -/
def fixControlForNewSinglePreheader (g : Graph) (header newPreheader : Nat) : Graph :=
  fixControlForNewSinglePreheaderFrom header newPreheader
    ((g.block header).predecessors.length + 1) 0 g

/-- The inner loop of the data-flow fix of `TransformLoopToSinglePreheaderFormat`, over
`input_pos` from the first non-back-edge position plus one.  The predecessor of an input is
looked up in `preds`, the header's predecessor list as it stood before the control flow is
rewired, at the current input position; an input whose predecessor is outside the loop moves
to the preheader phi and is erased from the header phi, and `input_pos` stays put. -/
def movePreheaderInputs (loopInfo : LoopInformation) (preds : List Nat) :
    Nat → Nat → List Nat → List Nat → List Nat × List Nat
  | 0, _, headerInputs, preheaderInputs => (headerInputs, preheaderInputs)
  | fuel + 1, inputPos, headerInputs, preheaderInputs =>
    match headerInputs[inputPos]? with
    | none => (headerInputs, preheaderInputs)
    | some input =>
      let predBlock := preds.getD inputPos 0
      if loopInfo.containsBlock predBlock then
        movePreheaderInputs loopInfo preds fuel (inputPos + 1) headerInputs preheaderInputs
      else
        movePreheaderInputs loopInfo preds fuel inputPos (headerInputs.eraseIdx inputPos)
          (preheaderInputs ++ [input])

/-- One round of the phi loop of `TransformLoopToSinglePreheaderFormat` for the header phi at
`phiIndex`: a new preheader phi takes over the input at `firstPos`, and the inputs that
`movePreheaderInputs` selects follow it into the preheader phi. -/
def fixHeaderPhi (loopInfo : LoopInformation) (header preheader firstPos : Nat) (g : Graph)
    (phiIndex : Nat) : Graph :=
  let headerPhi := (g.block header).phis.getD phiIndex default
  let preheaderPhi := g.nextInstructionId
  let origInput := headerPhi.inputs.getD firstPos 0
  let (headerInputs, preheaderInputs) :=
    movePreheaderInputs loopInfo (g.block header).predecessors (headerPhi.inputs.length + 1)
      (firstPos + 1) (headerPhi.replaceInput preheaderPhi firstPos).inputs [origInput]
  let (g1, _) := g.addPhi preheader preheaderInputs
  g1.modifyBlock header fun b =>
    { b with phis := b.phis.modify phiIndex fun phi => { phi with inputs := headerInputs } }

/-- `HGraph::TransformLoopToSinglePreheaderFormat`. -/
def transformLoopToSinglePreheaderFormat (g : Graph) (header : Nat) : Graph :=
  let loopInfo := g.loop header
  let (g1, preheader) := g.addBlock BasicBlock.empty
  let g2 := g1.addInstruction preheader .goto
  if (g2.block header).phis.isEmpty then
    -- If the old header has no phis only the control flow is fixed.
    (g2.fixControlForNewSinglePreheader header preheader).addSuccessor preheader header
  else
    let firstPos :=
      ((g2.block header).predecessors.findIdx? fun p => !loopInfo.isBackEdge p).getD 0
    let g3 := (List.range (g2.block header).phis.length).foldl
      (fixHeaderPhi loopInfo header preheader firstPos) g2
    let firstPred := (g3.block header).predecessors.getD firstPos 0
    (g3.insertBetween preheader firstPred header).fixControlForNewSinglePreheader header
      preheader

/-- `HGraph::SimplifyLoop`.  `number_of_incomings` is a `size_t` difference; when it would
wrap, the truncated `Nat` difference is `0`, which takes the same branch. -/
def simplifyLoop (g : Graph) (header : Nat) : Graph :=
  let info := g.loop header
  let numberOfIncomings := (g.block header).predecessors.length - info.numberOfBackEdges
  let g1 :=
    if numberOfIncomings != 1 || (g.block g.entryBlock).successors.head? == some header then
      g.transformLoopToSinglePreheaderFormat header
    else
      g
  let g2 := g1.orderLoopHeaderPredecessors header
  match (g2.block header).firstInstruction with
  | some first =>
    if first.kind == .suspendCheck then
      g2.modifyLoop header fun info => { info with suspendCheck := some first.id }
    else
      g2
  | none => g2

/-- The loop over the normal successors of `block` in `SimplifyCFG`, from position `j`, for
`count` more positions.  The successor list is read afresh at every position, as the
`ArrayRef` in the source is a view of it and is re-acquired after each split. -/
def splitNormalSuccessorEdges (block : Nat) : Nat → Nat → Graph → Graph
  | 0, _, g => g
  | count + 1, j, g =>
    let successor := (g.block block).normalSuccessors.getD j 0
    let g' :=
      if some successor == g.exitBlock then
        -- (Throw/Return/ReturnVoid)->TryBoundary->Exit is not split.
        g
      else if 1 < (g.block successor).predecessors.length then
        g.splitCriticalEdge block successor
      else
        g
    splitNormalSuccessorEdges block count (j + 1) g'

/-- The body of the loop of `HGraph::SimplifyCFG` for the block with id `blockId`. -/
def simplifyCFGBlock (g : Graph) (blockId : Nat) : Graph :=
  match g.block? blockId with
  | none => g
  | some b =>
    let g1 :=
      if 1 < b.successors.length then
        splitNormalSuccessorEdges blockId b.normalSuccessors.length 0 g
      else
        g
    if g1.isLoopHeader blockId then
      g1.simplifyLoop blockId
    else if blockId != g1.entryBlock &&
        ((g1.block blockId).firstInstruction.map (·.kind)) == some .suspendCheck then
      -- What used to be a loop got dismantled: drop its suspend check.
      g1.modifyBlock blockId fun b => { b with instructions := b.instructions.tail }
    else
      g1

/-- `HGraph::SimplifyCFG`: visit the blocks that exist when the pass starts, by index, since
the pass appends new blocks. -/
def simplifyCFG (g : Graph) : Graph :=
  (List.range g.blocks.length).foldl simplifyCFGBlock g

/-- Every phi of every block has exactly one input per predecessor of its block. -/
def phisMatchPredecessors (g : Graph) : Bool :=
  g.blocks.all fun
    | some b => b.phis.all fun phi => phi.inputs.length == b.predecessors.length
    | none => true

/-- A loop entered from two blocks: `B0` branches to `B1` and `B2`, both jump to the header
`B3`, whose predecessors are `[B1, B2, B4]` with `B4 → B3` the back edge, and whose phi reads
`v1`, `v3` and `v8`, defined in `B1`, `B2` and `B4`.  `B3` exits to `B5`, which returns to the
exit block `B6`. -/
def twoEntryLoop : Graph where
  blocks :=
    [ some { predecessors := [], successors := [1, 2], phis := [],
             instructions := [⟨0, .other⟩], loopInformation := none },
      some { predecessors := [0], successors := [3], phis := [],
             instructions := [⟨1, .other⟩, ⟨2, .goto⟩], loopInformation := none },
      some { predecessors := [0], successors := [3], phis := [],
             instructions := [⟨3, .other⟩, ⟨4, .goto⟩], loopInformation := none },
      some { predecessors := [1, 2, 4], successors := [4, 5], phis := [⟨5, [1, 3, 8]⟩],
             instructions := [⟨6, .suspendCheck⟩, ⟨7, .other⟩], loopInformation := some 3 },
      some { predecessors := [3], successors := [3], phis := [],
             instructions := [⟨8, .other⟩, ⟨9, .goto⟩], loopInformation := some 3 },
      some { predecessors := [3], successors := [6], phis := [],
             instructions := [⟨10, .other⟩], loopInformation := none },
      some { predecessors := [5], successors := [], phis := [],
             instructions := [⟨11, .other⟩], loopInformation := none } ]
  entryBlock := 0
  exitBlock := some 6
  loops := fun header =>
    if header = 3 then some { backEdges := [4], blocks := [3, 4], suspendCheck := none }
    else none
  nextInstructionId := 12

/-- On `twoEntryLoop` the data-flow fix reads the predecessor of each later input from the
unshifted predecessor list, so after the first move it pairs `v8` with `B2` instead of the
back edge `B4`: the back-edge value lands in the preheader phi `13`, and the header phi is left
with one input for its two predecessors `[B7, B4]`. -/
theorem simplifyCFG_twoEntryLoop_breaks_phis :
    twoEntryLoop.phisMatchPredecessors = true ∧
      (twoEntryLoop.simplifyCFG.block 3).predecessors = [7, 4] ∧
      (twoEntryLoop.simplifyCFG.block 3).phis = [⟨5, [13]⟩] ∧
      (twoEntryLoop.simplifyCFG.block 7).predecessors = [1, 2] ∧
      (twoEntryLoop.simplifyCFG.block 7).phis = [⟨13, [1, 3, 8]⟩] ∧
      twoEntryLoop.simplifyCFG.phisMatchPredecessors = false := by
  decide

end Graph

end AndroidArt.Optimizing
