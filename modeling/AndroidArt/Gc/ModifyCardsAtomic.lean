/-
Module: AndroidArt.Gc.ModifyCardsAtomic
Purpose: CardTable::ModifyCardsAtomic and byte_cas (runtime/gc/accounting/card_table-inl.h), run
  by the GC thread while mutator threads store kCardDirty into any card, in interleaved steps:
  one for each load and each CAS of the card table.
Trusted boundary: the memory is sequentially consistent and a word is its eight bytes, low byte
  first; byte_cas is the word CAS that emulates it outside x86; a weak CAS may fail spuriously,
  as each step's choice says; `visitor` and `modified` do not touch the card table, and the calls
  to `modified` are recorded in order; the validity DCHECKs are not modelled.
Main exports: ModifyPc, ModifySystem, ModifySystem.gcStep, ModifyReachable
-/
import AndroidArt.Gc.CardTable
import AndroidArt.Lib.ByteMemory
import AndroidArt.Lib.Interleaving

namespace AndroidArt.Gc

open AndroidArt.Lib ByteMemory

/-- The loop of `ModifyCardsAtomic` a byte CAS is made in: the one over the unaligned cards at
the start, on `card_cur`, or the one at the end, on `card_end`. -/
inductive Edge where
  | head
  | tail
deriving DecidableEq, Repr

/-- Where the GC thread is in `ModifyCardsAtomic`. -/
inductive ModifyPc where
  /-- The test of the loop over the unaligned cards at the start. -/
  | headTest
  /-- The test of the loop over the unaligned cards at the end. -/
  | tailTest
  /-- `expected = *card` at the top of the `do` loop of a card. -/
  | cardLoad (edge : Edge)
  /-- In `byte_cas(expected, visitor(expected), card)`, before the load of the word. -/
  | byteLoad (edge : Edge) (expected : UInt8)
  /-- In `byte_cas`, with `cur_word`, the word loaded with the card's byte cleared. -/
  | byteCas (edge : Edge) (expected : UInt8) (cur : List UInt8)
  /-- The test `word_cur < word_end`. -/
  | wordTest
  /-- `expected_word = *word_cur`. -/
  | wordLoad
  /-- The CAS of the word from `expected_word` to the visitor's bytes. -/
  | wordCas (expected : List UInt8)
  | done
deriving DecidableEq, Repr

/-- The card table, the GC thread's place and its locals `card_cur` (which `word_cur` takes
over) and `card_end` (which `word_end` takes over), and the calls made to `modified`. -/
structure ModifySystem where
  cards : Nat → UInt8
  pc : ModifyPc
  cardCur : Nat
  cardEnd : Nat
  modified : List (Nat × UInt8 × UInt8)

namespace ModifySystem

/-- The card a byte loop works on. -/
def edgeCard (s : ModifySystem) : Edge → Nat
  | .head => s.cardCur
  | .tail => s.cardEnd

/-- After the `do` loop of a card: `++card_cur` and the test of the first loop, or the test of
the second. -/
def nextCard (s : ModifySystem) : Edge → ModifySystem
  | .head => { s with pc := .headTest, cardCur := s.cardCur + 1 }
  | .tail => { s with pc := .tailTest }

/-- The calls `modified(word_cur + i, expected_bytes[i], new_bytes[i])` after the CAS of a word,
for the bytes that the visitor changes. -/
def wordModified (visitor : UInt8 → UInt8) (wordCur : Nat) (expected : List UInt8) :
    List (Nat × UInt8 × UInt8) :=
  ((List.range 8).filter fun i => expected.getD i 0 ≠ visitor (expected.getD i 0)).map fun i =>
    (wordCur + i, expected.getD i 0, visitor (expected.getD i 0))

variable (visitor : UInt8 → UInt8)

/-- One step of the GC thread; `spurious` says whether a weak CAS made in it fails spuriously. -/
def gcStep (s : ModifySystem) (spurious : Bool) : ModifySystem :=
  match s.pc with
  | .headTest =>
    if s.cardCur % 8 ≠ 0 ∧ s.cardCur < s.cardEnd then { s with pc := .cardLoad .head }
    else { s with pc := .tailTest }
  | .tailTest =>
    if s.cardEnd % 8 ≠ 0 ∧ s.cardEnd > s.cardCur then
      { s with pc := .cardLoad .tail, cardEnd := s.cardEnd - 1 }
    else { s with pc := .wordTest }
  | .cardLoad edge =>
    let expected := s.cards (s.edgeCard edge)
    -- the CAS is made only while `expected != new_value`
    if expected ≠ visitor expected then { s with pc := .byteLoad edge expected }
    else s.nextCard edge
  | .byteLoad edge expected =>
    let card := s.edgeCard edge
    let curWord := (loadBytes s.cards (card - card % 8) 8).set (card % 8) 0
    { s with pc := .byteCas edge expected curWord }
  | .byteCas edge expected cur =>
    let card := s.edgeCard edge
    let shift := card % 8
    -- `old_word` and `new_word` put the old and the new byte into `cur_word`
    match compareAndSetWeak s.cards (card - shift) 8 (cur.set shift expected)
        (cur.set shift (visitor expected)) spurious with
    | some cards =>
      -- `modified` is called after the loop if `expected != new_value`
      let modified := if expected ≠ visitor expected then
        s.modified ++ [(card, expected, visitor expected)] else s.modified
      { s with cards := cards, modified := modified }.nextCard edge
    | none => { s with pc := .cardLoad edge }
  | .wordTest =>
    if s.cardCur < s.cardEnd then { s with pc := .wordLoad } else { s with pc := .done }
  | .wordLoad =>
    let expected := loadBytes s.cards s.cardCur 8
    -- a word of eight `kCardClean` cards is skipped without a CAS
    if LittleEndian.ofBytes expected = 0 then
      { s with pc := .wordTest, cardCur := s.cardCur + 8 }
    else { s with pc := .wordCas expected }
  | .wordCas expected =>
    match compareAndSetWeak s.cards s.cardCur 8 expected (expected.map visitor) spurious with
    | some cards =>
      { s with
        cards := cards
        pc := .wordTest
        cardCur := s.cardCur + 8
        modified := s.modified ++ wordModified visitor s.cardCur expected }
    | none => { s with pc := .wordLoad }
  | .done => s

/-- A mutator's store of `kCardDirty` into the card `card`. -/
def markCard (s : ModifySystem) (card : Nat) : ModifySystem :=
  { s with cards := Function.update s.cards card kCardDirty }

/-- The call `ModifyCardsAtomic(scan_begin, scan_end, visitor, modified)` on the card table `t`. -/
def init (t : CardTable) (scanBegin scanEnd : Nat) : ModifySystem where
  cards := t.cards
  pc := .headTest
  cardCur := t.cardFromAddr scanBegin
  cardEnd := t.cardFromAddr (CardTable.alignUp scanEnd kCardSize)
  modified := []

end ModifySystem

/-- `AgeCardVisitor`, the visitor the collectors pass: a dirty card ages by one, any other card
becomes clean. -/
def ageCardVisitor (card : UInt8) : UInt8 :=
  if card = kCardDirty then card - 1 else 0

/-- The systems that some interleaving of steps of the GC thread and stores of the mutators
reaches from the call. -/
def ModifyReachable (visitor : UInt8 → UInt8) (t : CardTable) (scanBegin scanEnd : Nat) :
    ModifySystem → Prop :=
  Lib.Reachable (· = ModifySystem.init t scanBegin scanEnd) fun s s' =>
    (∃ spurious, s' = s.gcStep visitor spurious) ∨ ∃ card, s' = s.markCard card

namespace ModifySystem

/-! ### What a step does to the cards -/

/-- A step from `s` to `s'` applies the visitor to the distinct cards `changed`, each of which
it changes, and to no other card, and passes exactly those to `modified` with the value it
replaced. -/
def Transforms (visitor : UInt8 → UInt8) (s s' : ModifySystem) (changed : List Nat) : Prop :=
  changed.Nodup ∧ (∀ c ∈ changed, s.cards c ≠ visitor (s.cards c)) ∧
    (∀ c, s'.cards c = if c ∈ changed then visitor (s.cards c) else s.cards c) ∧
    s'.modified = s.modified ++ changed.map fun c => (c, s.cards c, visitor (s.cards c))

/-- One past the last card that the GC thread has still to process: a byte loop at the end
works on `card_end`, which its test has already decremented. -/
def pendingEnd (s : ModifySystem) : Nat :=
  match s.pc with
  | .cardLoad .tail | .byteLoad .tail _ | .byteCas .tail _ _ => s.cardEnd + 1
  | _ => s.cardEnd

/-- What the place of the GC thread says of its locals: the card of a byte loop is still to be
processed, the loop at the end starts from an aligned `card_cur`, and the words lie between
aligned bounds. -/
def LocalOk (s : ModifySystem) : Prop :=
  match s.pc with
  | .cardLoad .head | .byteLoad .head _ | .byteCas .head _ _ => s.cardCur < s.cardEnd
  | .tailTest => s.cardCur % 8 = 0 ∨ s.cardEnd ≤ s.cardCur
  | .cardLoad .tail | .byteLoad .tail _ | .byteCas .tail _ _ =>
    s.cardCur ≤ s.cardEnd ∧ s.cardCur % 8 = 0
  | .wordTest => (s.cardCur % 8 = 0 ∨ s.cardEnd ≤ s.cardCur) ∧
    (s.cardEnd % 8 = 0 ∨ s.cardEnd ≤ s.cardCur)
  | .wordLoad | .wordCas _ => s.cardCur < s.cardEnd ∧ s.cardCur % 8 = 0 ∧ s.cardEnd % 8 = 0
  | _ => True

variable (visitor : UInt8 → UInt8)

/-- A step of the GC thread that transforms `changed`, all of which it had still to process and
none of which it has after the step, while the cards still to be processed only shrink. -/
structure Advances (s s' : ModifySystem) (changed : List Nat) : Prop where
  transforms : Transforms visitor s s' changed
  cardCur_le : s.cardCur ≤ s'.cardCur
  pendingEnd_le : s'.pendingEnd ≤ s.pendingEnd
  changed_pending : ∀ c ∈ changed, s.cardCur ≤ c ∧ c < s.pendingEnd
  changed_done : ∀ c ∈ changed, ¬ (s'.cardCur ≤ c ∧ c < s'.pendingEnd)

/-- The invariant of every interleaving, for the range `[cardBegin, cardEnd)` of the call: the
cards still to be processed lie in the range, the place's facts hold, and the calls to
`modified` name distinct cards of the range, none of them still to be processed. -/
structure Inv (cardBegin cardEnd : Nat) (s : ModifySystem) : Prop where
  begin_le : cardBegin ≤ s.cardCur
  pendingEnd_le : s.pendingEnd ≤ cardEnd
  localOk : s.LocalOk
  modified_range : ∀ e ∈ s.modified, cardBegin ≤ e.1 ∧ e.1 < cardEnd
  modified_done : ∀ e ∈ s.modified, ¬ (s.cardCur ≤ e.1 ∧ e.1 < s.pendingEnd)
  modified_nodup : (s.modified.map Prod.fst).Nodup

section Steps

variable {visitor : UInt8 → UInt8} {s s' : ModifySystem} {changed : List Nat}

@[simp] theorem markCard_pc (card : Nat) : (s.markCard card).pc = s.pc := rfl
@[simp] theorem markCard_cardCur (card : Nat) : (s.markCard card).cardCur = s.cardCur := rfl
@[simp] theorem markCard_cardEnd (card : Nat) : (s.markCard card).cardEnd = s.cardEnd := rfl
@[simp] theorem markCard_modified (card : Nat) : (s.markCard card).modified = s.modified := rfl

@[simp] theorem nextCard_cards (edge : Edge) : (s.nextCard edge).cards = s.cards := by
  cases edge <;> rfl

@[simp] theorem nextCard_modified (edge : Edge) : (s.nextCard edge).modified = s.modified := by
  cases edge <;> rfl

/-- The calls to `modified` after the CAS of the word loaded at `a` are the cards of the word that
the visitor changes, each with the value it held. -/
theorem wordModified_loadBytes (mem : Nat → UInt8) (a : Nat) :
    wordModified visitor a (loadBytes mem a 8) =
      ((List.range' a 8).filter fun c => mem c ≠ visitor (mem c)).map
        fun c => (c, mem c, visitor (mem c)) := by
  have hget : ∀ i ∈ List.range 8, (loadBytes mem a 8).getD i 0 = mem (a + i) := by
    intro i hi
    rw [List.getD_eq_getElem _ _ (by simpa using hi), getElem_loadBytes]
  rw [wordModified, List.range'_eq_map_range, List.filter_map, List.map_map,
    List.filter_congr fun i hi => by rw [hget i hi]]
  exact List.map_congr_left fun i hi => by rw [hget i (List.mem_of_mem_filter hi)]; rfl

/-- A step that changes no card and calls no `modified`. -/
theorem transforms_nil (hcards : s'.cards = s.cards) (hmod : s'.modified = s.modified) :
    Transforms visitor s s' [] :=
  ⟨List.nodup_nil, by simp, by simp [hcards], by simp [hmod]⟩

/-- A byte CAS on `card` that succeeds found `expected` in the card and changes it alone. -/
theorem byteCas_eq_some {card : Nat} {expected : UInt8} {cur : List UInt8} {spurious : Bool}
    {cards : Nat → UInt8}
    (hcas : compareAndSetWeak s.cards (card - card % 8) 8 (cur.set (card % 8) expected)
      (cur.set (card % 8) (visitor expected)) spurious = some cards) :
    s.cards card = expected ∧ cards = Function.update s.cards card (visitor expected) := by
  obtain ⟨hload, -, rfl⟩ := compareAndSetWeak_eq_some.mp hcas
  have hi : card % 8 < 8 := Nat.mod_lt _ (by decide)
  have hsum : card - card % 8 + card % 8 = card := Nat.sub_add_cancel (Nat.mod_le _ _)
  constructor
  · rw [← hsum]
    exact apply_of_loadBytes_eq_set hload hi
  · rw [storeBytes_set_of_loadBytes hload hi, hsum]

/-- The successful byte CAS on `card`, which held `expected`. -/
theorem transforms_card {card : Nat} {expected : UInt8} (hcard : s.cards card = expected)
    (hcards : s'.cards = Function.update s.cards card (visitor expected))
    (hmod : s'.modified = if expected ≠ visitor expected then
      s.modified ++ [(card, expected, visitor expected)] else s.modified) :
    Transforms visitor s s' (if expected ≠ visitor expected then [card] else []) := by
  subst hcard
  by_cases hne : s.cards card ≠ visitor (s.cards card)
  · rw [if_pos hne] at hmod ⊢
    refine ⟨List.nodup_singleton card, by simpa using hne, fun c => ?_, by simpa using hmod⟩
    by_cases hc : c = card
    · subst hc
      simp [hcards]
    · simp [hcards, hc]
  · rw [if_neg hne] at hmod ⊢
    apply transforms_nil _ hmod
    rw [hcards, ← not_not.mp hne, Function.update_eq_self]

/-- The successful CAS of the word at `a` from the bytes it held to their visitor's values. -/
theorem transforms_word {a : Nat}
    (hcards : s'.cards = storeBytes s.cards a ((loadBytes s.cards a 8).map visitor))
    (hmod : s'.modified = s.modified ++ wordModified visitor a (loadBytes s.cards a 8)) :
    Transforms visitor s s' ((List.range' a 8).filter fun c => s.cards c ≠ visitor (s.cards c)) := by
  refine ⟨(List.nodup_range' ..).filter _, fun c hc => by simpa using (List.mem_filter.mp hc).2,
    fun c => ?_, by rw [hmod, wordModified_loadBytes]⟩
  rw [hcards, storeBytes_map_of_loadBytes rfl]
  by_cases hc : a ≤ c ∧ c < a + 8
  · by_cases hne : s.cards c ≠ visitor (s.cards c)
    · simp [hc, hne, List.mem_filter, List.mem_range'_1]
    · simp only [hc, and_self, if_true, List.mem_filter, List.mem_range'_1, hne,
        decide_false]
      exact (not_not.mp hne).symm
  · simp [hc, List.mem_filter, List.mem_range'_1]

/-- A step that changes no card, calls no `modified` and only shrinks what is left. -/
theorem advances_nil (hcards : s'.cards = s.cards) (hmod : s'.modified = s.modified)
    (hcur : s.cardCur ≤ s'.cardCur) (hend : s'.pendingEnd ≤ s.pendingEnd) :
    Advances visitor s s' [] where
  transforms := transforms_nil hcards hmod
  cardCur_le := hcur
  pendingEnd_le := hend
  changed_pending := by simp
  changed_done := by simp

theorem mem_ite_singleton {p : Prop} [Decidable p] {c card : Nat}
    (h : c ∈ if p then [card] else []) : c = card := by
  split at h <;> simp_all

/-- The successful byte CAS of a loop over unaligned cards, whose card is still to be processed
before it and not after it. -/
theorem advances_byteCas {edge : Edge} {expected : UInt8} {cards : Nat → UInt8}
    {modified : List (Nat × UInt8 × UInt8)}
    (hcard : s.cards (s.edgeCard edge) = expected)
    (hcards : cards = Function.update s.cards (s.edgeCard edge) (visitor expected))
    (hmod : modified = if expected ≠ visitor expected then
      s.modified ++ [(s.edgeCard edge, expected, visitor expected)] else s.modified)
    (hpending : s.cardCur ≤ s.edgeCard edge ∧ s.edgeCard edge < s.pendingEnd)
    (hnext : (s.nextCard edge).pendingEnd ≤ s.edgeCard edge ∨
      s.edgeCard edge < (s.nextCard edge).cardCur)
    (hend : (s.nextCard edge).pendingEnd ≤ s.pendingEnd)
    (hcur : s.cardCur ≤ (s.nextCard edge).cardCur) :
    Advances visitor s ({ s with cards := cards, modified := modified }.nextCard edge)
      (if expected ≠ visitor expected then [s.edgeCard edge] else []) where
  transforms := transforms_card hcard (by rw [nextCard_cards, hcards]) (by rw [nextCard_modified, hmod])
  cardCur_le := by cases edge <;> exact hcur
  pendingEnd_le := by cases edge <;> exact hend
  changed_pending c hc := by
    rw [mem_ite_singleton hc]
    exact hpending
  changed_done c hc := by
    rw [mem_ite_singleton hc]
    cases edge <;> simp only [nextCard, pendingEnd] at hnext ⊢ <;> omega

/-- The successful CAS of a word, whose eight cards are still to be processed before it and not
after it. -/
theorem advances_wordCas (hpc : s.pc = .wordCas (loadBytes s.cards s.cardCur 8)) (hl : s.LocalOk) :
    Advances visitor s
      { s with
        cards := storeBytes s.cards s.cardCur ((loadBytes s.cards s.cardCur 8).map visitor)
        pc := .wordTest
        cardCur := s.cardCur + 8
        modified := s.modified ++ wordModified visitor s.cardCur (loadBytes s.cards s.cardCur 8) }
      ((List.range' s.cardCur 8).filter fun c => s.cards c ≠ visitor (s.cards c)) := by
  simp only [LocalOk, hpc] at hl
  refine ⟨transforms_word rfl rfl, by simp, by simp [pendingEnd, hpc], fun c hc => ?_,
    fun c hc => ?_⟩
  all_goals
    -- the cards of the word lie below `card_end`, both bounds being aligned
    have hc' := List.mem_range'_1.mp (List.mem_filter.mp hc).1
    simp only [pendingEnd, hpc]
    omega

/-- Each step of the GC thread advances, and the facts of its new place hold. -/
theorem gcStep_advances (hl : s.LocalOk) (spurious : Bool) :
    ∃ changed, Advances visitor s (s.gcStep visitor spurious) changed ∧
      (s.gcStep visitor spurious).LocalOk := by
  cases hpc : s.pc with
  | headTest =>
    simp only [gcStep, hpc]
    split <;>
      exact ⟨[], advances_nil rfl rfl le_rfl (by simp [pendingEnd, hpc]),
        by simp only [LocalOk]; omega⟩
  | tailTest =>
    simp only [LocalOk, hpc] at hl
    simp only [gcStep, hpc]
    split
    · -- `--card_end`, and the loop of that card
      exact ⟨[], advances_nil rfl rfl le_rfl (by simp [pendingEnd, hpc]; omega),
        by simp only [LocalOk]; omega⟩
    · exact ⟨[], advances_nil rfl rfl le_rfl (by simp [pendingEnd, hpc]),
        by simp only [LocalOk]; omega⟩
  | cardLoad edge =>
    simp only [gcStep, hpc]
    split
    · -- the card needs a CAS
      exact ⟨[], advances_nil rfl rfl le_rfl (by cases edge <;> simp [pendingEnd, hpc]),
        by cases edge <;> simpa [LocalOk, hpc] using hl⟩
    · -- the visitor keeps the card: the next card, with no CAS
      cases edge with
      | head =>
        exact ⟨[], advances_nil rfl rfl (by simp [nextCard])
          (by simp [nextCard, pendingEnd, hpc]), by simp [nextCard, LocalOk]⟩
      | tail =>
        simp only [LocalOk, hpc] at hl
        exact ⟨[], advances_nil rfl rfl (by simp [nextCard])
          (by simp [nextCard, pendingEnd, hpc]), by simp only [nextCard, LocalOk]; omega⟩
  | byteLoad edge expected =>
    simp only [gcStep, hpc]
    exact ⟨[], advances_nil rfl rfl le_rfl (by cases edge <;> simp [pendingEnd, hpc]),
      by cases edge <;> simpa [LocalOk, hpc] using hl⟩
  | byteCas edge expected cur =>
    simp only [gcStep, hpc]
    split
    · rename_i cards hcas
      obtain ⟨hcard, hcards⟩ := byteCas_eq_some hcas
      cases edge <;> simp only [LocalOk, hpc] at hl
      · exact ⟨_, advances_byteCas hcard hcards rfl (by simp [edgeCard, pendingEnd, hpc]; omega)
          (by simp [nextCard, edgeCard]) (by simp [nextCard, pendingEnd, hpc])
          (by simp [nextCard]), by simp [nextCard, LocalOk]⟩
      · exact ⟨_, advances_byteCas hcard hcards rfl (by simp [edgeCard, pendingEnd, hpc]; omega)
          (by simp [nextCard, edgeCard, pendingEnd]) (by simp [nextCard, pendingEnd, hpc])
          (by simp [nextCard]), by simp only [nextCard, LocalOk]; omega⟩
    · -- a failed CAS loads the card again
      exact ⟨[], advances_nil rfl rfl le_rfl (by cases edge <;> simp [pendingEnd, hpc]),
        by cases edge <;> simpa [LocalOk, hpc] using hl⟩
  | wordTest =>
    simp only [LocalOk, hpc] at hl
    simp only [gcStep, hpc]
    split
    · exact ⟨[], advances_nil rfl rfl le_rfl (by simp [pendingEnd, hpc]),
        by simp only [LocalOk]; omega⟩
    · exact ⟨[], advances_nil rfl rfl le_rfl (by simp [pendingEnd, hpc]), by simp [LocalOk]⟩
  | wordLoad =>
    simp only [LocalOk, hpc] at hl
    simp only [gcStep, hpc]
    split
    · -- eight clean cards: the next word
      exact ⟨[], advances_nil rfl rfl (by simp) (by simp [pendingEnd, hpc]),
        by simp only [LocalOk]; omega⟩
    · exact ⟨[], advances_nil rfl rfl le_rfl (by simp [pendingEnd, hpc]),
        by simpa [LocalOk] using hl⟩
  | wordCas expected =>
    simp only [gcStep, hpc]
    split
    · rename_i cards hcas
      obtain ⟨rfl, -, rfl⟩ := compareAndSetWeak_eq_some.mp hcas
      simp only [LocalOk, hpc] at hl
      exact ⟨_, advances_wordCas hpc (by simpa [LocalOk, hpc] using hl),
        by simp only [LocalOk]; omega⟩
    · exact ⟨[], advances_nil rfl rfl le_rfl (by simp [pendingEnd, hpc]),
        by simpa [LocalOk, hpc] using hl⟩
  | done =>
    simp only [gcStep, hpc]
    exact ⟨[], advances_nil rfl rfl le_rfl le_rfl, hl⟩

end Steps

section Invariant

variable {visitor : UInt8 → UInt8} {cardBegin cardEnd : Nat} {s s' : ModifySystem}
  {changed : List Nat}

/-- A step that advances keeps the invariant: the cards it passes to `modified` were still to be
processed, so they are new to `modified`, and they are not after it. -/
theorem Inv.advance (hi : Inv cardBegin cardEnd s) (ha : Advances visitor s s' changed)
    (hl : s'.LocalOk) : Inv cardBegin cardEnd s' := by
  obtain ⟨hnodup, -, -, hmod⟩ := ha.transforms
  have hcur := ha.cardCur_le
  have hend := ha.pendingEnd_le
  refine ⟨by have := hi.begin_le; omega, by have := hi.pendingEnd_le; omega, hl, ?_, ?_, ?_⟩
  · rw [hmod]
    intro e he
    rcases List.mem_append.mp he with he | he
    · exact hi.modified_range e he
    · obtain ⟨c, hc, rfl⟩ := List.mem_map.mp he
      have := ha.changed_pending c hc
      have := hi.begin_le
      have := hi.pendingEnd_le
      exact ⟨by omega, by omega⟩
  · rw [hmod]
    intro e he
    rcases List.mem_append.mp he with he | he
    · have := hi.modified_done e he
      omega
    · obtain ⟨c, hc, rfl⟩ := List.mem_map.mp he
      exact ha.changed_done c hc
  · rw [hmod, List.map_append, List.map_map]
    refine List.nodup_append.mpr ⟨hi.modified_nodup, by simpa [Function.comp_def] using hnodup, ?_⟩
    -- a card already passed to `modified` is not one still to be processed
    intro a ha' b hb hab
    obtain ⟨e, he, rfl⟩ := List.mem_map.mp ha'
    obtain ⟨c, hc, rfl⟩ := List.mem_map.mp hb
    exact hi.modified_done e he (by simp only [Function.comp_apply] at hab; rw [hab]; exact ha.changed_pending c hc)

theorem Inv.gcStep (hi : Inv cardBegin cardEnd s) (spurious : Bool) :
    Inv cardBegin cardEnd (s.gcStep visitor spurious) := by
  obtain ⟨changed, ha, hl⟩ := @gcStep_advances visitor s hi.localOk spurious
  exact hi.advance ha hl

/-- A mutator's store changes only a card, which the invariant does not speak of. -/
theorem Inv.markCard (hi : Inv cardBegin cardEnd s) (card : Nat) :
    Inv cardBegin cardEnd (s.markCard card) :=
  ⟨hi.begin_le, hi.pendingEnd_le, hi.localOk, hi.modified_range, hi.modified_done,
    hi.modified_nodup⟩

theorem inv_init (t : CardTable) (scanBegin scanEnd : Nat) :
    Inv (t.cardFromAddr scanBegin) (t.cardFromAddr (CardTable.alignUp scanEnd kCardSize))
      (init t scanBegin scanEnd) :=
  ⟨le_rfl, le_rfl, trivial, by simp [init], by simp [init], by simp [init]⟩

theorem inv_of_reachable {t : CardTable} {scanBegin scanEnd : Nat}
    (hs : ModifyReachable visitor t scanBegin scanEnd s) :
    Inv (t.cardFromAddr scanBegin) (t.cardFromAddr (CardTable.alignUp scanEnd kCardSize)) s := by
  apply Reachable.invariant _ _ hs
  · rintro _ rfl
    exact inv_init t scanBegin scanEnd
  · rintro s s' hi (⟨spurious, rfl⟩ | ⟨card, rfl⟩)
    · exact hi.gcStep spurious
    · exact hi.markCard card

end Invariant

/-- Over every interleaving with the mutators' stores, a step of the GC thread changes distinct
cards of the range, none of which an earlier step changed, each from the value it holds to the
visitor's value of it, passes exactly those to `modified` with the value replaced, and changes
no other card; so the cards passed to `modified` are distinct. -/
theorem modifyCardsAtomic_transforms_each_card_once {visitor : UInt8 → UInt8} {t : CardTable}
    {scanBegin scanEnd : Nat} {s : ModifySystem}
    (hs : ModifyReachable visitor t scanBegin scanEnd s) (spurious : Bool) :
    (s.modified.map Prod.fst).Nodup ∧
      ∃ changed, Transforms visitor s (s.gcStep visitor spurious) changed ∧
        ∀ c ∈ changed, t.cardFromAddr scanBegin ≤ c ∧
          c < t.cardFromAddr (CardTable.alignUp scanEnd kCardSize) ∧
          c ∉ s.modified.map Prod.fst := by
  have hi := inv_of_reachable hs
  obtain ⟨changed, ha, -⟩ := @gcStep_advances visitor s hi.localOk spurious
  refine ⟨hi.modified_nodup, changed, ha.transforms, fun c hc => ?_⟩
  have hpending := ha.changed_pending c hc
  have := hi.begin_le
  have := hi.pendingEnd_le
  refine ⟨by omega, by omega, fun hmem => ?_⟩
  -- a card passed to `modified` is no longer to be processed
  obtain ⟨e, he, rfl⟩ := List.mem_map.mp hmem
  exact hi.modified_done e he hpending

/-- The call on a table of dirty cards once the GC thread has tested, loaded and aged by a byte
CAS the first card of the range, which is unaligned. -/
def firstCardAged : ModifySystem :=
  let step := fun (s : ModifySystem) => s.gcStep ageCardVisitor false
  step (step (step (step (init CardTable.allDirty 0x12c00c00 0x12c01800))))

theorem modifyCardsAtomic_first_card_aged :
    ModifyReachable ageCardVisitor CardTable.allDirty 0x12c00c00 0x12c01800 firstCardAged ∧
      (firstCardAged.modified.map Prod.fst).Nodup :=
  have hgc : ∀ s, ModifyReachable ageCardVisitor CardTable.allDirty 0x12c00c00 0x12c01800 s →
      ModifyReachable ageCardVisitor CardTable.allDirty 0x12c00c00 0x12c01800
        (s.gcStep ageCardVisitor false) :=
    fun _ hs => Reachable.step hs (Or.inl ⟨false, rfl⟩)
  have hs : ModifyReachable ageCardVisitor CardTable.allDirty 0x12c00c00 0x12c01800 firstCardAged :=
    hgc _ (hgc _ (hgc _ (hgc _ (Reachable.init rfl))))
  ⟨hs, (modifyCardsAtomic_transforms_each_card_once hs false).1⟩

end ModifySystem

end AndroidArt.Gc
