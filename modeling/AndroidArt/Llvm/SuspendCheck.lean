/-
Module: AndroidArt.Llvm.SuspendCheck
Purpose: The suspend-check simplification of the LLVM backend (compiler/mcr_cc/llvm/
  hgraph_passes.cc), switched on by McrDebug::SuspendCheckSimplify.
Trusted boundary: `predecessors(BB)` lists the blocks whose terminators branch to BB, the newest
  terminator first, as LLVM's use lists do; a block that branches to BB twice is listed once,
  which neither `pred_size(BB) == 0` nor the discovered set can tell apart. sc_preds_ is a
  std::map ordered by block address; it is kept in insertion order, which the result of
  SuspendCheckSimplify does not depend on, since every entry of to_remove edits its own block.
  The logging is not modelled.
Main exports: analyseSuspendChecks, suspendCheckSimplify, populateInnerMethodSimplified,
  populateInnerMethodSimplified_eq
-/
import AndroidArt.Lib.Bfs
import AndroidArt.Llvm.BlockGeneration

namespace AndroidArt.Llvm

open AndroidArt.Optimizing AndroidArt.Lib

namespace LFunction

/-- Block `b`'s code branches to block `lb`: `lb` is a successor of one of its terminators. -/
def BranchesTo (f : LFunction) (b lb : LBlock) : Prop :=
  lb ∈ (f.code b).flatMap LInst.successors

instance (f : LFunction) (b lb : LBlock) : Decidable (f.BranchesTo b lb) :=
  inferInstanceAs (Decidable (lb ∈ _))

/-- `predecessors(BB)`: the blocks of `blocks` that branch to `lb`, in the order of `blocks`. -/
def predecessors (f : LFunction) (blocks : List LBlock) (lb : LBlock) : List LBlock :=
  blocks.filter fun b => f.BranchesTo b lb

/-- `f'` is `f` with code appended to some of its blocks. -/
def Extends (f f' : LFunction) : Prop :=
  ∀ lb, f.code lb <+: f'.code lb

theorem extends_appendCode (f : LFunction) (lb : LBlock) (insts : List LInst) :
    f.Extends (f.appendCode lb insts) := by
  intro lb'
  by_cases h : lb' = lb
  · subst h
    simp
  · simp only [appendCode_code_of_ne f insts h, List.prefix_refl]

theorem Extends.trans {f f' f'' : LFunction} (h : f.Extends f') (h' : f'.Extends f'') :
    f.Extends f'' :=
  fun lb => (h lb).trans (h' lb)

theorem Extends.branchesTo {f f' : LFunction} (h : f.Extends f') {b lb : LBlock}
    (hb : f.BranchesTo b lb) : f'.BranchesTo b lb := by
  obtain ⟨rest, hrest⟩ := h b
  unfold BranchesTo at hb ⊢
  rw [← hrest, List.flatMap_append]
  exact List.mem_append_left _ hb

theorem Extends.reachable {f f' : LFunction} (h : f.Extends f') {b lb : LBlock}
    (hr : Relation.ReflTransGen f.BranchesTo b lb) : Relation.ReflTransGen f'.BranchesTo b lb :=
  Relation.ReflTransGen.mono (fun _ _ => h.branchesTo) _ _ hr

theorem appendCode_append (f : LFunction) (lb : LBlock) (insts insts' : List LInst) :
    (f.appendCode lb insts).appendCode lb insts' = f.appendCode lb (insts ++ insts') := by
  simp [appendCode, List.append_assoc]

end LFunction

/-! ### AnalyseSuspendChecks -/

/-- `sc_preds_.insert({startBB, BB})`: a `std::map` keeps the pair of a key it already holds. -/
def insertScPred (scPreds : List (LBlock × LBlock)) (startBB bb : LBlock) :
    List (LBlock × LBlock) :=
  if startBB ∈ scPreds.map Prod.fst then scPreds else scPreds ++ [(startBB, bb)]

/-- The instruction loop of `AnalyseSuspendChecks` over a visited block `bb`: unless `bb` is
`startBB`, every suspend-check call in it inserts `(startBB, bb)`. -/
def scanBlock (f : LFunction) (startBB : LBlock) (scPreds : List (LBlock × LBlock))
    (bb : LBlock) : List (LBlock × LBlock) :=
  if bb ≠ startBB then
    (f.code bb).foldl (fun m i => if i = .suspendCheck then insertScPred m startBB bb else m)
      scPreds
  else scPreds

/-- `AnalyseSuspendChecks` with insert block `startBB`, over the blocks `blocks`: when the
simplification is `enabled`, a breadth-first search backwards from `startBB` that breaks off at
the first block without predecessors, scanning every other block it dequeues.  The search never
needs more rounds than there are blocks besides `startBB` (`visitOrder_predecessors_fuel`). -/
def analyseSuspendChecks (enabled : Bool) (blocks : List LBlock) (f : LFunction)
    (startBB : LBlock) (scPreds : List (LBlock × LBlock)) : List (LBlock × LBlock) :=
  if enabled then
    let preds := f.predecessors blocks
    (Bfs.visitOrder preds (fun bb => (preds bb).isEmpty) (blocks.length + 1) [startBB]
      [startBB]).foldl (scanBlock f startBB) scPreds
  else scPreds

/-! ### The emission with the analysis -/

/-- The function being built together with `sc_preds_`. -/
structure Emission where
  function : LFunction
  scPreds : List (LBlock × LBlock)

section Emission

variable (g : Graph) (isOuter enabled : Bool) (blocks : List LBlock)

/-- One instruction of a visitor's code appended to block `lb`: `GenerateSuspendCheckMethod`
runs `AnalyseSuspendChecks` right before it creates the call. -/
def appendInst (lb : LBlock) (s : Emission) (i : LInst) : Emission where
  function := s.function.appendCode lb [i]
  scPreds :=
    if i = .suspendCheck then analyseSuspendChecks enabled blocks s.function lb s.scPreds
    else s.scPreds

/-- `HGraphToLLVM::VisitBasicBlock` with the analysis. -/
def visitBasicBlockAnalysed (s : Emission) (blockId : Nat) : Emission :=
  match g.block? blockId with
  | some b => (emitBlock g isOuter blockId b).foldl (appendInst enabled blocks (.block blockId)) s
  | none => s

/-- `GenerateInstructions` with the analysis.  At every step the blocks that have a terminator
are those visited so far, so listing the order backwards lists the predecessors of a block
newest first. -/
def generateInstructionsAnalysed (reversePostOrder : List Nat) (s : Emission) : Emission :=
  reversePostOrder.foldl
    (visitBasicBlockAnalysed g isOuter enabled (reversePostOrder.reverse.map .block)) s

end Emission

/-! ### SuspendCheckSimplify -/

/-- The blocks `to_remove` collects: a key once for every other key whose value it is. -/
def toRemove (scPreds : List (LBlock × LBlock)) : List LBlock :=
  scPreds.flatMap fun sc =>
    (scPreds.filter fun sc2 => sc2.1 ≠ sc.1 ∧ sc2.2 = sc.1).map fun _ => sc.1

/-- `eraseFromParent` of the first suspend-check call of block `lb`; a block without one is
left as it is. -/
def eraseSuspendCheck (f : LFunction) (lb : LBlock) : LFunction :=
  { f with code := Function.update f.code lb ((f.code lb).erase .suspendCheck) }

/-- `SuspendCheckSimplify`. -/
def suspendCheckSimplify (enabled : Bool) (scPreds : List (LBlock × LBlock)) (f : LFunction) :
    LFunction :=
  if enabled && !scPreds.isEmpty then (toRemove scPreds).foldl eraseSuspendCheck f else f

/-- The five passes that end `PopulateInnerMethod`: the four of `populateInnerMethod`, with
`AnalyseSuspendChecks` before every suspend-check call and `sc_preds_` empty at the start, then
`SuspendCheckSimplify`. -/
def populateInnerMethodSimplified (g : Graph) (isOuter enabled : Bool)
    (reversePostOrder : List Nat) : LFunction :=
  let s := generateInstructionsAnalysed g isOuter enabled reversePostOrder
    ⟨generateBasicBlocksAndPhis g, []⟩
  suspendCheckSimplify enabled s.scPreds (linkEntryBlock g (populatePhis g s.function))

/-! ### The emission builds the function of the four passes -/

section Refinement

variable (g : Graph) (isOuter enabled : Bool) (blocks : List LBlock)

theorem foldl_appendInst_function (lb : LBlock) :
    ∀ (insts : List LInst) (s : Emission),
      (insts.foldl (appendInst enabled blocks lb) s).function = s.function.appendCode lb insts
  | [], s => by
    cases s with
    | mk f m => simp [LFunction.appendCode]
  | i :: insts, s => by
    rw [List.foldl_cons, foldl_appendInst_function lb insts]
    simp only [appendInst, LFunction.appendCode_append, List.singleton_append]

theorem visitBasicBlockAnalysed_function (s : Emission) (blockId : Nat) :
    (visitBasicBlockAnalysed g isOuter enabled blocks s blockId).function =
      visitBasicBlock g isOuter s.function blockId := by
  cases hb : g.block? blockId with
  | none => simp [visitBasicBlockAnalysed, visitBasicBlock, hb]
  | some b =>
    simp only [visitBasicBlockAnalysed, visitBasicBlock, hb]
    exact foldl_appendInst_function enabled blocks _ _ s

theorem foldl_visitBasicBlockAnalysed_function :
    ∀ (ids : List Nat) (s : Emission),
      (ids.foldl (visitBasicBlockAnalysed g isOuter enabled blocks) s).function =
        ids.foldl (visitBasicBlock g isOuter) s.function
  | [], _ => rfl
  | id :: ids, s => by
    rw [List.foldl_cons, List.foldl_cons, foldl_visitBasicBlockAnalysed_function ids,
      visitBasicBlockAnalysed_function]

/-- The analysis changes no code: the simplified pipeline is `SuspendCheckSimplify` applied to
the function the four passes build, with the pairs recorded along the way. -/
theorem populateInnerMethodSimplified_eq (reversePostOrder : List Nat) :
    populateInnerMethodSimplified g isOuter enabled reversePostOrder =
      suspendCheckSimplify enabled
        (generateInstructionsAnalysed g isOuter enabled reversePostOrder
          ⟨generateBasicBlocksAndPhis g, []⟩).scPreds
        (populateInnerMethod g isOuter reversePostOrder) := by
  rw [populateInnerMethodSimplified, populateInnerMethod, generateInstructionsAnalysed,
    foldl_visitBasicBlockAnalysed_function]
  rfl

end Refinement

/-! ### What the analysis records -/

/-- What `AnalyseSuspendChecks` has recorded for function `f`: no block is a key twice, and
for each pair `(startBB, bb)` the two blocks differ, both hold a suspend-check call, and
branches lead from `bb` to `startBB`. -/
structure ScPredsSound (f : LFunction) (scPreds : List (LBlock × LBlock)) : Prop where
  keys_nodup : (scPreds.map Prod.fst).Nodup
  key_suspendCheck : ∀ p ∈ scPreds, LInst.suspendCheck ∈ f.code p.1
  sound : ∀ p ∈ scPreds,
    p.1 ≠ p.2 ∧ LInst.suspendCheck ∈ f.code p.2 ∧ Relation.ReflTransGen f.BranchesTo p.2 p.1

theorem ScPredsSound.mono {f f' : LFunction} {scPreds : List (LBlock × LBlock)}
    (h : ScPredsSound f scPreds) (hf : f.Extends f') : ScPredsSound f' scPreds where
  keys_nodup := h.keys_nodup
  key_suspendCheck p hp := (hf p.1).subset (h.key_suspendCheck p hp)
  sound p hp := by
    obtain ⟨hne, hsc, hr⟩ := h.sound p hp
    exact ⟨hne, (hf p.2).subset hsc, hf.reachable hr⟩

section Analysis

variable {f : LFunction} {blocks : List LBlock} {startBB bb : LBlock}
  {scPreds : List (LBlock × LBlock)} {p : LBlock × LBlock}

theorem mem_insertScPred (h : p ∈ insertScPred scPreds startBB bb) :
    p ∈ scPreds ∨ p = (startBB, bb) := by
  unfold insertScPred at h
  split at h
  · exact Or.inl h
  · simpa using h

theorem keys_nodup_insertScPred (h : (scPreds.map Prod.fst).Nodup) :
    ((insertScPred scPreds startBB bb).map Prod.fst).Nodup := by
  unfold insertScPred
  split
  · exact h
  · rename_i hnew
    simp only [List.map_append, List.map_cons, List.map_nil]
    refine List.nodup_append.mpr ⟨h, List.nodup_singleton _, ?_⟩
    intro a ha b hb hab
    rw [List.mem_singleton] at hb
    exact hnew (hb ▸ hab ▸ ha)

/-- The instruction loop of a block scan inserts only at a suspend-check call. -/
theorem mem_foldl_insertScPred :
    ∀ (insts : List LInst) (m : List (LBlock × LBlock)),
      p ∈ insts.foldl (fun m i => if i = .suspendCheck then insertScPred m startBB bb else m) m →
        p ∈ m ∨ (p = (startBB, bb) ∧ LInst.suspendCheck ∈ insts)
  | [], _, h => Or.inl h
  | i :: insts, m, h => by
    rw [List.foldl_cons] at h
    rcases mem_foldl_insertScPred insts _ h with h | ⟨rfl, hsc⟩
    · split at h
      · rename_i hi
        rcases mem_insertScPred h with h | rfl
        · exact Or.inl h
        · exact Or.inr ⟨rfl, hi ▸ List.mem_cons_self⟩
      · exact Or.inl h
    · exact Or.inr ⟨rfl, List.mem_cons_of_mem i hsc⟩

/-- A block scan adds at most the pair `(startBB, bb)`, for a block `bb` other than `startBB`
that holds a suspend-check call. -/
theorem mem_scanBlock (h : p ∈ scanBlock f startBB scPreds bb) :
    p ∈ scPreds ∨ (p = (startBB, bb) ∧ bb ≠ startBB ∧ LInst.suspendCheck ∈ f.code bb) := by
  unfold scanBlock at h
  split at h
  · rename_i hne
    rcases mem_foldl_insertScPred _ _ h with h | ⟨rfl, hsc⟩
    · exact Or.inl h
    · exact Or.inr ⟨rfl, hne, hsc⟩
  · exact Or.inl h

theorem keys_nodup_scanBlock (h : (scPreds.map Prod.fst).Nodup) :
    ((scanBlock f startBB scPreds bb).map Prod.fst).Nodup := by
  unfold scanBlock
  split
  · refine List.foldlRecOn (motive := fun (m : List (LBlock × LBlock)) => (m.map Prod.fst).Nodup) _ _ h ?_
    intro m hm i _
    split
    · exact keys_nodup_insertScPred hm
    · exact hm
  · exact h

theorem branchesTo_of_mem_predecessors {b lb : LBlock} (h : b ∈ f.predecessors blocks lb) :
    f.BranchesTo b lb :=
  of_decide_eq_true (List.mem_filter.mp h).2

/-- The search of `AnalyseSuspendChecks` runs to its end within its fuel: more rounds change
nothing, since every block it can queue is one of `blocks`. -/
theorem visitOrder_predecessors_fuel (k : Nat) :
    Bfs.visitOrder (f.predecessors blocks) (fun bb => (f.predecessors blocks bb).isEmpty)
        (blocks.length + 1 + k) [startBB] [startBB] =
      Bfs.visitOrder (f.predecessors blocks) (fun bb => (f.predecessors blocks bb).isEmpty)
        (blocks.length + 1) [startBB] [startBB] := by
  refine Bfs.visitOrder_add_fuel _ (fun _ _ hy => (List.mem_filter.mp hy).1) ?_ k
  have hle := List.countP_le_length (p := fun x => decide (x ∉ [startBB])) (l := blocks)
  simp only [List.length_singleton]
  omega

/-- Every pair the analysis adds joins `startBB` to a different block that holds a
suspend-check call and from which branches lead to `startBB`. -/
theorem mem_analyseSuspendChecks {enabled : Bool}
    (h : p ∈ analyseSuspendChecks enabled blocks f startBB scPreds) :
    p ∈ scPreds ∨ (p.1 = startBB ∧ p.1 ≠ p.2 ∧ LInst.suspendCheck ∈ f.code p.2 ∧
      Relation.ReflTransGen f.BranchesTo p.2 startBB) := by
  unfold analyseSuspendChecks at h
  split at h
  · dsimp only at h
    -- every scanned block is reached backwards from `startBB`
    have hreach : ∀ b ∈ Bfs.visitOrder (f.predecessors blocks)
        (fun bb => (f.predecessors blocks bb).isEmpty) (blocks.length + 1) [startBB] [startBB],
        Relation.ReflTransGen f.BranchesTo b startBB := by
      intro b hb
      have hr := Bfs.reachable_of_mem_visitOrder _ _ (s := startBB)
        (fun y hy => by rw [List.mem_singleton.mp hy]) hb
      apply Relation.reflTransGen_swap.mp
      exact Relation.ReflTransGen.mono (fun _ _ hp => branchesTo_of_mem_predecessors hp) _ _ hr
    refine (List.foldlRecOn (motive := fun (m : List (LBlock × LBlock)) => ∀ q ∈ m,
      q ∈ scPreds ∨ (q.1 = startBB ∧ q.1 ≠ q.2 ∧ LInst.suspendCheck ∈ f.code q.2 ∧
        Relation.ReflTransGen f.BranchesTo q.2 startBB)) _ _ (fun q hq => Or.inl hq) ?_) p h
    intro m hm b hb p hp
    rcases mem_scanBlock hp with hp | ⟨rfl, hne, hsc⟩
    · exact hm p hp
    · exact Or.inr ⟨rfl, Ne.symm hne, hsc, hreach b hb⟩
  · exact Or.inl h

theorem keys_nodup_analyseSuspendChecks {enabled : Bool} (h : (scPreds.map Prod.fst).Nodup) :
    ((analyseSuspendChecks enabled blocks f startBB scPreds).map Prod.fst).Nodup := by
  unfold analyseSuspendChecks
  split
  · exact List.foldlRecOn (motive := fun (m : List (LBlock × LBlock)) => (m.map Prod.fst).Nodup) _ _ h
      fun _ hm _ _ => keys_nodup_scanBlock hm
  · exact h

end Analysis

section Run

variable (g : Graph) (isOuter enabled : Bool) (blocks : List LBlock)

/-- One appended instruction keeps what the recorded pairs say: the analysis before a
suspend-check call adds pairs whose key is the block that then receives the call. -/
theorem appendInst_sound {s : Emission} (hs : ScPredsSound s.function s.scPreds)
    (lb : LBlock) (i : LInst) :
    ScPredsSound (appendInst enabled blocks lb s i).function
      (appendInst enabled blocks lb s i).scPreds := by
  have hext := LFunction.extends_appendCode s.function lb [i]
  unfold appendInst
  split
  · rename_i hi
    subst hi
    have hcall : LInst.suspendCheck ∈ (s.function.appendCode lb [.suspendCheck]).code lb := by
      simp
    refine ⟨keys_nodup_analyseSuspendChecks hs.keys_nodup, fun p hp => ?_, fun p hp => ?_⟩
    · rcases mem_analyseSuspendChecks hp with hp | ⟨hkey, -⟩
      · exact (hs.mono hext).key_suspendCheck p hp
      · exact hkey ▸ hcall
    · rcases mem_analyseSuspendChecks hp with hp | ⟨hkey, hne, hsc, hr⟩
      · exact (hs.mono hext).sound p hp
      · exact ⟨hne, (hext p.2).subset hsc, hkey ▸ hext.reachable hr⟩
  · exact hs.mono hext

theorem visitBasicBlockAnalysed_sound {s : Emission}
    (hs : ScPredsSound s.function s.scPreds) (blockId : Nat) :
    ScPredsSound (visitBasicBlockAnalysed g isOuter enabled blocks s blockId).function
      (visitBasicBlockAnalysed g isOuter enabled blocks s blockId).scPreds := by
  unfold visitBasicBlockAnalysed
  split
  · exact List.foldlRecOn (motive := fun (s : Emission) => ScPredsSound s.function s.scPreds) _ _ hs
      fun s hs i _ => appendInst_sound enabled blocks hs _ i
  · exact hs

/-- Every pair `(startBB, bb)` recorded while the inner function is emitted joins two different
blocks that both hold a suspend-check call in the function the four passes build, and branches
lead from `bb` to `startBB` there; no block is recorded twice as a key. -/
theorem scPreds_sound (reversePostOrder : List Nat) :
    ScPredsSound (populateInnerMethod g isOuter reversePostOrder)
      (generateInstructionsAnalysed g isOuter enabled reversePostOrder
        ⟨generateBasicBlocksAndPhis g, []⟩).scPreds := by
  have hrun : ScPredsSound (generateInstructionsAnalysed g isOuter enabled reversePostOrder
      ⟨generateBasicBlocksAndPhis g, []⟩).function
      (generateInstructionsAnalysed g isOuter enabled reversePostOrder
        ⟨generateBasicBlocksAndPhis g, []⟩).scPreds :=
    List.foldlRecOn (motive := fun (s : Emission) => ScPredsSound s.function s.scPreds) _ _
      ⟨List.nodup_nil, fun _ h => absurd h List.not_mem_nil,
        fun _ h => absurd h List.not_mem_nil⟩
      fun s hs blockId _ => visitBasicBlockAnalysed_sound g isOuter enabled _ hs blockId
  -- PopulatePhis edits no code and LinkEntryBlock only appends the entry block's branch
  have hphis : ∀ f, (populatePhis g f).code = f.code :=
    foldl_frame LFunction.code (populateBlockPhis_code g) _
  refine hrun.mono fun lb => ?_
  rw [populateInnerMethod, generateInstructionsAnalysed, foldl_visitBasicBlockAnalysed_function,
    ← generateInstructions]
  have hlink := LFunction.extends_appendCode
    (populatePhis g (generateInstructions g isOuter reversePostOrder
      (generateBasicBlocksAndPhis g))) .entry [.br (.block g.entryBlock)] lb
  rwa [hphis] at hlink

end Run

/-! ### What SuspendCheckSimplify deletes -/

section Simplify

theorem eraseSuspendCheck_code (f : LFunction) (lb lb' : LBlock) :
    (eraseSuspendCheck f lb).code lb' =
      if lb' = lb then (f.code lb').erase .suspendCheck else f.code lb' := by
  by_cases h : lb' = lb
  · subst h
    simp [eraseSuspendCheck]
  · simp [eraseSuspendCheck, h]

/-- A suspend-check call has no successor, so deleting one keeps the block's branches. -/
theorem flatMap_successors_erase (l : List LInst) :
    (l.erase .suspendCheck).flatMap LInst.successors = l.flatMap LInst.successors := by
  induction l with
  | nil => rfl
  | cons i l ih =>
    by_cases hi : i = .suspendCheck
    · subst hi
      simp [LInst.successors]
    · rw [List.erase_cons_tail (by simpa using hi), List.flatMap_cons, List.flatMap_cons, ih]

theorem eraseSuspendCheck_branchesTo (f : LFunction) (lb b lb' : LBlock) :
    (eraseSuspendCheck f lb).BranchesTo b lb' ↔ f.BranchesTo b lb' := by
  unfold LFunction.BranchesTo
  rw [eraseSuspendCheck_code]
  split
  · rw [flatMap_successors_erase]
  · rfl

/-- Each entry of `to_remove` deletes one suspend-check call of its block, while there is one. -/
theorem count_foldl_eraseSuspendCheck (lb : LBlock) :
    ∀ (rs : List LBlock) (f : LFunction),
      ((rs.foldl eraseSuspendCheck f).code lb).count .suspendCheck =
        (f.code lb).count .suspendCheck - rs.count lb
  | [], f => by simp
  | r :: rs, f => by
    rw [List.foldl_cons, count_foldl_eraseSuspendCheck lb rs, eraseSuspendCheck_code]
    by_cases h : lb = r
    · subst h
      rw [if_pos rfl, List.count_erase_self, List.count_cons_self]
      omega
    · rw [if_neg h, List.count_cons_of_ne (Ne.symm h)]

theorem branchesTo_foldl_eraseSuspendCheck (b lb : LBlock) :
    ∀ (rs : List LBlock) (f : LFunction),
      (rs.foldl eraseSuspendCheck f).BranchesTo b lb ↔ f.BranchesTo b lb
  | [], _ => Iff.rfl
  | r :: rs, f => by
    rw [List.foldl_cons, branchesTo_foldl_eraseSuspendCheck b lb rs, eraseSuspendCheck_branchesTo]

/-- `SuspendCheckSimplify` deletes suspend-check calls and nothing else: a block loses one call
for every time `to_remove` lists it, while it has one, and keeps its branches. -/
theorem count_suspendCheck_simplify (enabled : Bool) (scPreds : List (LBlock × LBlock))
    (f : LFunction) (lb : LBlock) :
    ((suspendCheckSimplify enabled scPreds f).code lb).count .suspendCheck =
      (f.code lb).count .suspendCheck - (if enabled then (toRemove scPreds).count lb else 0) := by
  unfold suspendCheckSimplify
  cases enabled with
  | false => simp
  | true =>
    cases scPreds with
    | nil => simp [toRemove]
    | cons sc scPreds => simp [count_foldl_eraseSuspendCheck]

theorem branchesTo_simplify (enabled : Bool) (scPreds : List (LBlock × LBlock))
    (f : LFunction) (b lb : LBlock) :
    (suspendCheckSimplify enabled scPreds f).BranchesTo b lb ↔ f.BranchesTo b lb := by
  unfold suspendCheckSimplify
  split
  · exact branchesTo_foldl_eraseSuspendCheck b lb _ f
  · rfl

theorem mem_toRemove {scPreds : List (LBlock × LBlock)} {lb : LBlock} :
    lb ∈ toRemove scPreds ↔ (∃ v, (lb, v) ∈ scPreds) ∧ ∃ k, k ≠ lb ∧ (k, lb) ∈ scPreds := by
  rw [toRemove, List.mem_flatMap]
  constructor
  · rintro ⟨sc, hsc, hmem⟩
    obtain ⟨sc2, hsc2, rfl⟩ := List.mem_map.mp hmem
    obtain ⟨hsc2m, hcond⟩ := List.mem_filter.mp hsc2
    obtain ⟨hne, heq⟩ := of_decide_eq_true hcond
    refine ⟨⟨sc.2, hsc⟩, sc2.1, hne, ?_⟩
    rw [← heq]
    exact hsc2m
  · rintro ⟨⟨v, hv⟩, k, hne, hk⟩
    exact ⟨(lb, v), hv,
      List.mem_map.mpr ⟨(k, lb), List.mem_filter.mpr ⟨hk, decide_eq_true ⟨hne, rfl⟩⟩, rfl⟩⟩

end Simplify

/-- What the simplified pipeline checks before it deletes a suspend-check call of block `lb`:
the analysis found `lb` between two other blocks with such calls, one from which branches lead
to `lb` and one to which they lead from `lb`.  A cycle through `lb` need pass through neither. -/
theorem suspendCheck_deleted_between (g : Graph) (isOuter : Bool) (reversePostOrder : List Nat)
    (lb : LBlock)
    (hdel : ((populateInnerMethodSimplified g isOuter true reversePostOrder).code lb).count
        .suspendCheck <
      ((populateInnerMethod g isOuter reversePostOrder).code lb).count .suspendCheck) :
    ∃ a c, a ≠ lb ∧ c ≠ lb ∧
      LInst.suspendCheck ∈ (populateInnerMethod g isOuter reversePostOrder).code a ∧
      LInst.suspendCheck ∈ (populateInnerMethod g isOuter reversePostOrder).code c ∧
      Relation.ReflTransGen (populateInnerMethod g isOuter reversePostOrder).BranchesTo a lb ∧
      Relation.ReflTransGen (populateInnerMethod g isOuter reversePostOrder).BranchesTo lb c := by
  have hsound := scPreds_sound g isOuter true reversePostOrder
  rw [populateInnerMethodSimplified_eq, count_suspendCheck_simplify, if_pos rfl] at hdel
  have hmem : lb ∈ toRemove (generateInstructionsAnalysed g isOuter true reversePostOrder
      ⟨generateBasicBlocksAndPhis g, []⟩).scPreds :=
    List.count_pos_iff.mp (by omega)
  obtain ⟨⟨v, hv⟩, k, hne, hk⟩ := mem_toRemove.mp hmem
  obtain ⟨hlbv, hscv, hvlb⟩ := hsound.sound _ hv
  obtain ⟨-, -, hlbk⟩ := hsound.sound _ hk
  exact ⟨v, k, Ne.symm hlbv, hne, hscv, hsound.key_suspendCheck _ hk, hvlb, hlbk⟩

/-! ### Suspend checks on back edges -/

/-- Without the simplification, the back edge of every loop that has a suspend check holds a
suspend-check call, unless it branches to the exit block or is the entry block of a method that
is being inlined. -/
theorem suspendCheck_mem_of_backEdge {g : Graph} {reversePostOrder : List Nat} (isOuter : Bool)
    (h : Translatable g reversePostOrder) {id : Nat} {b : BasicBlock} (hb : g.block? id = some b)
    {last : Instruction} (hlast : b.instructions.getLast? = some last)
    (hgoto : last.kind = .goto) {header : Nat} (hloop : b.loopInformation = some header)
    (hback : (g.loop header).isBackEdge id = true)
    (hsc : (g.loop header).suspendCheck.isSome = true)
    (hexit : g.exitBlock ≠ some (b.successors.getD 0 0))
    (hentry : isOuter = true ∨ id ≠ g.entryBlock) :
    LInst.suspendCheck ∈ (populateInnerMethod g isOuter reversePostOrder).code (.block id) := by
  obtain ⟨body, last', hinsns, hlast', -, hbody, -⟩ := blockFits_split (h.blockFits hb)
  obtain rfl : last = last' := Option.some.inj (hlast.symm.trans hlast')
  obtain ⟨pre, previous, hcode, -⟩ := emitInstructions_append_last g isOuter id b last hbody none
  have hcheck : generateSuspendCheckMethod g isOuter id = [.suspendCheck] := by
    rcases hentry with rfl | hne
    · simp [generateSuspendCheckMethod]
    · simp [generateSuspendCheckMethod, hne]
  have hcall : LInst.suspendCheck ∈ handleGotoMethod g isOuter id b previous := by
    simp [handleGotoMethod, hloop, hback, hsc, hcheck]
    simpa using hexit
  rw [populateInnerMethod_code_block isOuter h hb, emitBlock, hinsns, hcode, emitInstruction,
    hgoto]
  exact List.mem_append_right pre hcall

/-- Three loops one after the other.  The entry block 0 checks for suspension and enters block
1, the pre-header of the first loop.  Loop `k` (for `k` = 0, 1, 2) has header `2 + 3k`, whose
suspend check comes first and whose if enters the body `3 + 3k` or leaves for `4 + 3k`; the body
is the back edge.  Block 10 returns and 11 is the exit block. -/
def threeLoopsGraph : Graph where
  blocks :=
    [some { predecessors := [], successors := [1], phis := [],
            instructions := [⟨0, .suspendCheck⟩, ⟨1, .goto⟩], loopInformation := none },
     some { predecessors := [0], successors := [2], phis := [],
            instructions := [⟨2, .goto⟩], loopInformation := none },
     some { predecessors := [1, 3], successors := [3, 4], phis := [],
            instructions := [⟨3, .suspendCheck⟩, ⟨4, .ifBranch⟩], loopInformation := some 2 },
     some { predecessors := [2], successors := [2], phis := [],
            instructions := [⟨5, .goto⟩], loopInformation := some 2 },
     some { predecessors := [2], successors := [5], phis := [],
            instructions := [⟨6, .goto⟩], loopInformation := none },
     some { predecessors := [4, 6], successors := [6, 7], phis := [],
            instructions := [⟨7, .suspendCheck⟩, ⟨8, .ifBranch⟩], loopInformation := some 5 },
     some { predecessors := [5], successors := [5], phis := [],
            instructions := [⟨9, .goto⟩], loopInformation := some 5 },
     some { predecessors := [5], successors := [8], phis := [],
            instructions := [⟨10, .goto⟩], loopInformation := none },
     some { predecessors := [7, 9], successors := [9, 10], phis := [],
            instructions := [⟨11, .suspendCheck⟩, ⟨12, .ifBranch⟩], loopInformation := some 8 },
     some { predecessors := [8], successors := [8], phis := [],
            instructions := [⟨13, .goto⟩], loopInformation := some 8 },
     some { predecessors := [8], successors := [11], phis := [],
            instructions := [⟨14, .returnVoid⟩], loopInformation := none },
     some { predecessors := [10], successors := [], phis := [],
            instructions := [⟨15, .exit⟩], loopInformation := none }]
  entryBlock := 0
  exitBlock := some 11
  loops
    | 2 => some { backEdges := [3], blocks := [2, 3], suspendCheck := some 3 }
    | 5 => some { backEdges := [6], blocks := [5, 6], suspendCheck := some 7 }
    | 8 => some { backEdges := [9], blocks := [8, 9], suspendCheck := some 11 }
    | _ => none
  nextInstructionId := 16

/-- The reverse post order `ComputeDominanceInformation` computes for `threeLoopsGraph`: a
header's body comes before its exit, and every other block follows its one forward
predecessor. -/
def threeLoopsOrder : List Nat := [0, 1, 2, 3, 4, 5, 6, 7, 8, 9, 10, 11]

/-- With the simplification on, the middle loop of `threeLoopsGraph` loses its only
suspend-check call: the analysis records block 3 for block 6 and block 6 for block 9, so
block 6 is a key and a value, and the cycle between blocks 5 and 6 keeps no call. -/
theorem suspendCheckSimplify_strips_loop_safepoint (isOuter : Bool) :
    Translatable threeLoopsGraph threeLoopsOrder ∧
      (∀ header ∈ [2, 5, 8], (threeLoopsGraph.loop header).suspendCheck.isSome) ∧
      LInst.suspendCheck ∈
        (populateInnerMethod threeLoopsGraph isOuter threeLoopsOrder).code (.block 6) ∧
      (populateInnerMethodSimplified threeLoopsGraph isOuter true threeLoopsOrder).BranchesTo
        (.block 5) (.block 6) ∧
      (populateInnerMethodSimplified threeLoopsGraph isOuter true threeLoopsOrder).BranchesTo
        (.block 6) (.block 5) ∧
      LInst.suspendCheck ∉
        (populateInnerMethodSimplified threeLoopsGraph isOuter true threeLoopsOrder).code
          (.block 5) ∧
      LInst.suspendCheck ∉
        (populateInnerMethodSimplified threeLoopsGraph isOuter true threeLoopsOrder).code
          (.block 6) := by
  refine ⟨⟨by decide, by decide, by decide, by decide⟩, by decide, ?_⟩
  cases isOuter <;> decide

end AndroidArt.Llvm
