/-
Module: AndroidArt.Gc.CardTable
Purpose: art::gc::accounting::CardTable (runtime/gc/accounting/card_table.h, card_table.cc and
  card_table-inl.h): one byte for each `kCardSize` bytes of heap, and `Scan`, which visits the
  cards whose value is at least `minimum_age` card by card up to a word boundary, word by word
  (skipping the words whose eight cards are clean) in the middle, and card by card at the end.
Trusted boundary: the card table is a byte memory indexed by address, read with no concurrent
  writer; a word load reads the eight cards at an aligned address, low card first (little
  endian); the validity DCHECKs of `CardFromAddr` are not modelled; `ZeroAndReleasePages` zeroes
  the cards it is given.
Main exports: CardTable, CardTable.scan, CardTable.scan_visits, CardTable.scan_reaches_past_range
-/
import AndroidArt.Lib.LittleEndian
import Mathlib.Tactic.Ring

namespace AndroidArt.Gc

open AndroidArt.Lib

/-- `CardTable::kCardShift`. -/
def kCardShift : Nat := 10

/-- `CardTable::kCardSize`. -/
def kCardSize : Nat := 1 <<< kCardShift

/-- `CardTable::kCardClean`. -/
def kCardClean : UInt8 := 0

/-- `CardTable::kCardDirty`. -/
def kCardDirty : UInt8 := 0x70

/-- A card table: its bytes, by address, and `biased_begin_`, the address of the card of heap
address `0`, whose low byte `CardTable::Create` makes `kCardDirty`. -/
structure CardTable where
  cards : Nat → UInt8
  biasedBegin : Nat
  biased_low_byte : biasedBegin % 256 = kCardDirty.toNat

namespace CardTable

/-- `CardFromAddr(addr)`. -/
def cardFromAddr (t : CardTable) (addr : Nat) : Nat := t.biasedBegin + (addr >>> kCardShift)

/-- `AddrFromCard(card_addr)`. -/
def addrFromCard (t : CardTable) (card : Nat) : Nat := (card - t.biasedBegin) <<< kCardShift

/-- `AlignUp(x, n)`, for the power of two `n`. -/
def alignUp (x n : Nat) : Nat := (x + n - 1) / n * n

/-- `*reinterpret_cast<uintptr_t*>(word)`: the eight cards at the aligned address `word`, low
card first. -/
def loadWord (t : CardTable) (word : Nat) : Nat :=
  LittleEndian.ofBytes ((List.range' word 8).map t.cards)

/-- The test of one card: `bitmap->VisitMarkedRange(AddrFromCard(card), ...)` if
`*card >= minimum_age`. -/
def visitCard (t : CardTable) (minimumAge : UInt8) (card : Nat) : List Nat :=
  if t.cards card ≥ minimumAge then [t.addrFromCard card] else []

/-- The loop over the unaligned cards at the start,
`while (!IsAligned<sizeof(intptr_t)>(card_cur) && card_cur < card_end)`: the visits, and the
card it stops at. -/
def scanHead (t : CardTable) (minimumAge : UInt8) (cardCur cardEnd : Nat) : List Nat × Nat :=
  if cardCur % 8 ≠ 0 ∧ cardCur < cardEnd then
    let rest := t.scanHead minimumAge (cardCur + 1) cardEnd
    (t.visitCard minimumAge cardCur ++ rest.1, rest.2)
  else ([], cardCur)
termination_by cardEnd - cardCur

/-- The cards of a nonzero word: `for (i = 0; i < sizeof(uintptr_t); ++i)`, testing the low
byte of `start_word` and shifting it by a byte, `i` passes left. -/
def scanWordCards (minimumAge : UInt8) (start startWord : Nat) : Nat → List Nat
  | 0 => []
  | i + 1 =>
    (if UInt8.ofNat startWord ≥ minimumAge then [start] else []) ++
      scanWordCards minimumAge (start + kCardSize) (startWord >>> 8) i

/-- The loop over the words `[word_cur, word_end)`, `n` of them: an all-clean word is skipped by
the inner `while (*word_cur == 0)`, and the cards of any other word are tested. -/
def scanWords (t : CardTable) (minimumAge : UInt8) (wordCur : Nat) : Nat → List Nat
  | 0 => []
  | n + 1 =>
    if t.loadWord wordCur = 0 then t.scanWords minimumAge (wordCur + 8) n
    else scanWordCards minimumAge (t.addrFromCard wordCur) (t.loadWord wordCur) 8 ++
      t.scanWords minimumAge (wordCur + 8) n

/-- The loop over the unaligned cards at the end, `while (card_cur < card_end)`. -/
def scanTail (t : CardTable) (minimumAge : UInt8) (cardCur cardEnd : Nat) : List Nat :=
  if cardCur < cardEnd then t.visitCard minimumAge cardCur ++ t.scanTail minimumAge (cardCur + 1) cardEnd
  else []
termination_by cardEnd - cardCur

/-- `ClearCardRange(start, end)`: both ends must be card-aligned (its `CHECK_ALIGNED`s, `none`
where one fails); the cards of `[start, end)` are zeroed. -/
def clearCardRange (t : CardTable) (start «end» : Nat) : Option (Nat → UInt8) :=
  if start % kCardSize = 0 ∧ «end» % kCardSize = 0 then
    some fun card =>
      if t.cardFromAddr start ≤ card ∧ card < t.cardFromAddr «end» then kCardClean else t.cards card
  else none

/-- What `Scan` does: the `start` of each `bitmap->VisitMarkedRange(start, start + kCardSize,
visitor)` call, in order, the count it returns, and the cards afterwards. -/
structure ScanResult where
  visits : List Nat
  cardsScanned : Nat
  cards : Nat → UInt8

/-- `CardTable::Scan<kClearCard>(bitmap, scan_begin, scan_end, visitor, minimum_age)`; `none`
where `ClearCardRange` fails its check. -/
def scan (t : CardTable) (clearCard : Bool) (scanBegin scanEnd : Nat) (minimumAge : UInt8) :
    Option ScanResult := do
  let cardBegin := t.cardFromAddr scanBegin
  let cardEnd := t.cardFromAddr (alignUp scanEnd kCardSize)
  let head := t.scanHead minimumAge cardBegin cardEnd
  let cardCur := head.2
  let alignedEnd := cardEnd - (cardEnd &&& (8 - 1))
  let wordEnd := alignedEnd
  let middle := t.scanWords minimumAge cardCur ((wordEnd - cardCur + 7) / 8)
  -- the unaligned cards at the end are scanned from `word_end`
  let tail := t.scanTail minimumAge wordEnd cardEnd
  let visits := head.1 ++ middle ++ tail
  if clearCard then
    let cards ← t.clearCardRange scanBegin scanEnd
    return ⟨visits, visits.length, cards⟩
  else return ⟨visits, visits.length, t.cards⟩

/-! ### The cards a scan visits -/

/-- The cards of `[a, b)` whose value is at least `minimumAge`, in increasing order. -/
def agedCards (t : CardTable) (minimumAge : UInt8) (a b : Nat) : List Nat :=
  (List.range' a (b - a)).filter fun card => t.cards card ≥ minimumAge

section Cards

variable {t : CardTable} {minimumAge : UInt8}

theorem agedCards_append {a b c : Nat} (hab : a ≤ b) (hbc : b ≤ c) :
    t.agedCards minimumAge a b ++ t.agedCards minimumAge b c = t.agedCards minimumAge a c := by
  obtain ⟨m, rfl⟩ : ∃ m, b = a + m := ⟨b - a, by omega⟩
  rw [agedCards, agedCards, agedCards, ← List.filter_append, Nat.add_sub_cancel_left,
    List.range'_append_1, show m + (c - (a + m)) = c - a by omega]

theorem agedCards_cons {a b : Nat} (hab : a < b) :
    t.agedCards minimumAge a b =
      (if t.cards a ≥ minimumAge then [a] else []) ++ t.agedCards minimumAge (a + 1) b := by
  rw [agedCards, agedCards, show b - a = (b - (a + 1)) + 1 by omega, List.range'_succ,
    List.filter_cons]
  split <;> simp_all

theorem agedCards_self (a : Nat) : t.agedCards minimumAge a a = [] := by
  simp [agedCards]

theorem map_visitCard (card : Nat) :
    t.visitCard minimumAge card = (if t.cards card ≥ minimumAge then [card] else []).map
      t.addrFromCard := by
  rw [visitCard]
  split <;> rfl

/-- The tail loop visits the aged cards it passes. -/
theorem scanTail_eq (cardCur cardEnd : Nat) :
    t.scanTail minimumAge cardCur cardEnd =
      (t.agedCards minimumAge cardCur cardEnd).map t.addrFromCard := by
  induction cardCur using scanTail.induct cardEnd with
  | case1 card hlt ih =>
    rw [scanTail, if_pos hlt, ih, agedCards_cons hlt, List.map_append, map_visitCard]
  | case2 card hge =>
    rw [scanTail, if_neg hge, agedCards, show cardEnd - card = 0 by omega]
    rfl

/-- Where the head loop stops: at the first aligned card, or at `card_end`. -/
def headStop (cardCur cardEnd : Nat) : Nat :=
  if cardCur < cardEnd then min ((cardCur + 7) / 8 * 8) cardEnd else cardCur

/-- The head loop visits the aged cards up to where it stops. -/
theorem scanHead_eq (cardCur cardEnd : Nat) :
    t.scanHead minimumAge cardCur cardEnd =
      ((t.agedCards minimumAge cardCur (headStop cardCur cardEnd)).map t.addrFromCard,
        headStop cardCur cardEnd) := by
  induction cardCur using scanHead.induct t minimumAge cardEnd with
  | case1 card hloop ih =>
    -- an unaligned card: the next card stops the loop where this one does
    have hstop : headStop (card + 1) cardEnd = headStop card cardEnd := by
      simp only [headStop]
      split_ifs <;> omega
    have hlt : card < headStop card cardEnd := by
      simp only [headStop]
      split_ifs <;> omega
    rw [scanHead, if_pos hloop, ih, hstop, agedCards_cons hlt, List.map_append, map_visitCard]
  | case2 card hstop =>
    have hself : headStop card cardEnd = card := by
      simp only [headStop]
      split_ifs <;> omega
    rw [scanHead, if_neg hstop, hself, agedCards_self]
    rfl

theorem addrFromCard_succ {card : Nat} (h : t.biasedBegin ≤ card) :
    t.addrFromCard card + kCardSize = t.addrFromCard (card + 1) := by
  simp only [addrFromCard, kCardSize, kCardShift, Nat.shiftLeft_eq]
  rw [show card + 1 - t.biasedBegin = (card - t.biasedBegin) + 1 by omega, Nat.add_mul, Nat.one_mul]

/-- The cards of a word are tested from its low byte up: the aged ones are visited. -/
theorem scanWordCards_eq {card : Nat} (h : t.biasedBegin ≤ card) (n : Nat) :
    scanWordCards minimumAge (t.addrFromCard card)
        (LittleEndian.ofBytes ((List.range' card n).map t.cards)) n =
      (t.agedCards minimumAge card (card + n)).map t.addrFromCard := by
  induction n generalizing card with
  | zero => simp [scanWordCards, agedCards]
  | succ n ih =>
    rw [List.range'_succ, List.map_cons, scanWordCards, LittleEndian.ofBytes_cons_low,
      LittleEndian.ofBytes_cons_shiftRight, addrFromCard_succ h, @ih (card + 1) (by omega),
      show card + 1 + n = card + (n + 1) by omega, agedCards_cons (a := card) (by omega),
      List.map_append]
    congr 1
    split <;> rfl

/-- A word whose cards are all clean holds no card of a positive age. -/
theorem agedCards_eq_nil_of_loadWord (hage : 0 < minimumAge) {word : Nat}
    (hzero : t.loadWord word = 0) : t.agedCards minimumAge word (word + 8) = [] := by
  rw [loadWord, LittleEndian.ofBytes_eq_zero_iff] at hzero
  rw [agedCards, List.filter_eq_nil_iff]
  intro card hcard
  rw [hzero (t.cards card) (List.mem_map_of_mem (by simpa using hcard)), decide_eq_true_eq]
  exact UInt8.not_le.mpr hage

/-- The middle loop visits the aged cards of its words: a word it skips has none. -/
theorem scanWords_eq (hage : 0 < minimumAge) {wordCur : Nat} (h : t.biasedBegin ≤ wordCur)
    (n : Nat) :
    t.scanWords minimumAge wordCur n =
      (t.agedCards minimumAge wordCur (wordCur + 8 * n)).map t.addrFromCard := by
  induction n generalizing wordCur with
  | zero => simp [scanWords, agedCards]
  | succ n ih =>
    rw [scanWords, ← agedCards_append (b := wordCur + 8) (by omega) (by omega), List.map_append,
      @ih (wordCur + 8) (by omega), show wordCur + 8 + 8 * n = wordCur + 8 * (n + 1) by omega]
    split
    · rename_i hzero
      rw [agedCards_eq_nil_of_loadWord hage hzero]
      rfl
    · rw [loadWord, scanWordCards_eq h 8]

end Cards

/-- The cards `Scan` visits, in order: the cards of `[card_begin, card_end)` of at least
`minimumAge`, and when `card_begin` is unaligned in the word of `card_end`, those from the word
boundary below `card_end` once more. -/
def scanCards (t : CardTable) (minimumAge : UInt8) (cardBegin cardEnd : Nat) : List Nat :=
  t.agedCards minimumAge cardBegin cardEnd ++
    if cardBegin % 8 ≠ 0 ∧ cardBegin / 8 = cardEnd / 8 then
      t.agedCards minimumAge (cardEnd / 8 * 8) cardEnd
    else []

section Scan

variable {t : CardTable} {minimumAge : UInt8} {scanBegin scanEnd : Nat}

theorem cardFromAddr_le {a b : Nat} (h : a ≤ b) : t.cardFromAddr a ≤ t.cardFromAddr b := by
  simp only [cardFromAddr, Nat.shiftRight_eq_div_pow]
  exact Nat.add_le_add_left (Nat.div_le_div_right h) _

/-- The three loops of `Scan` together: the head stops at the first aligned card or at
`card_end`, the middle words run to the word boundary below `card_end`, and the tail runs from
that boundary to `card_end`. -/
theorem scanLoops_eq (hage : 0 < minimumAge) {cardBegin cardEnd : Nat}
    (hbias : t.biasedBegin ≤ cardBegin) (hle : cardBegin ≤ cardEnd) :
    (t.scanHead minimumAge cardBegin cardEnd).1 ++
        t.scanWords minimumAge (t.scanHead minimumAge cardBegin cardEnd).2
          ((cardEnd - cardEnd % 8 - (t.scanHead minimumAge cardBegin cardEnd).2 + 7) / 8) ++
        t.scanTail minimumAge (cardEnd - cardEnd % 8) cardEnd =
      (t.scanCards minimumAge cardBegin cardEnd).map t.addrFromCard := by
  rw [scanHead_eq, scanWords_eq hage (by simp only [headStop]; split_ifs <;> omega), scanTail_eq,
    scanCards]
  by_cases hsplit : cardBegin % 8 ≠ 0 ∧ cardBegin / 8 = cardEnd / 8
  · -- the range starts unaligned inside the word of `card_end`: the head reaches `card_end`, no
    -- word is scanned, and the tail starts at the word boundary below
    have hstop : headStop cardBegin cardEnd = cardEnd := by
      simp only [headStop]
      split_ifs <;> omega
    rw [hstop, if_pos hsplit, show (cardEnd - cardEnd % 8 - cardEnd + 7) / 8 = 0 by omega,
      Nat.mul_zero, Nat.add_zero, agedCards_self, show cardEnd / 8 * 8 = cardEnd - cardEnd % 8 by omega]
    simp
  · -- the head stops at an aligned card, from which the words reach the boundary below `card_end`
    have hstop : headStop cardBegin cardEnd % 8 = 0 ∧ cardBegin ≤ headStop cardBegin cardEnd ∧
        headStop cardBegin cardEnd ≤ cardEnd - cardEnd % 8 := by
      simp only [headStop]
      split_ifs <;> omega
    rw [if_neg hsplit, List.append_nil,
      show headStop cardBegin cardEnd + 8 * ((cardEnd - cardEnd % 8 - headStop cardBegin cardEnd + 7) / 8)
        = cardEnd - cardEnd % 8 by omega,
      ← List.map_append, ← List.map_append, agedCards_append hstop.2.1 hstop.2.2,
      agedCards_append (by omega) (Nat.sub_le _ _)]

theorem le_alignUp {x n : Nat} (hn : 0 < n) : x ≤ alignUp x n := by
  have hdiv := Nat.div_add_mod (x + n - 1) n
  have hmod := Nat.mod_lt (x + n - 1) hn
  rw [alignUp, Nat.mul_comm]
  omega

/-- `Scan` visits the cards of `scanCards`, in order, and returns their number; with
`kClearCard` it then clears the cards of the range, which `ClearCardRange` checks to be
card-aligned. -/
theorem scan_eq (hage : 0 < minimumAge) (hle : scanBegin ≤ scanEnd) (clearCard : Bool) :
    t.scan clearCard scanBegin scanEnd minimumAge =
      (if clearCard then t.clearCardRange scanBegin scanEnd else some t.cards).map fun cards =>
        ⟨(t.scanCards minimumAge (t.cardFromAddr scanBegin)
            (t.cardFromAddr (alignUp scanEnd kCardSize))).map t.addrFromCard,
          ((t.scanCards minimumAge (t.cardFromAddr scanBegin)
            (t.cardFromAddr (alignUp scanEnd kCardSize))).map t.addrFromCard).length, cards⟩ := by
  have hbias : t.biasedBegin ≤ t.cardFromAddr scanBegin := Nat.le_add_right _ _
  have hcards : t.cardFromAddr scanBegin ≤ t.cardFromAddr (alignUp scanEnd kCardSize) :=
    cardFromAddr_le (Nat.le_trans hle (le_alignUp (by decide)))
  have hmask (card : Nat) : card &&& (8 - 1) = card % 8 := Nat.and_two_pow_sub_one_eq_mod card 3
  simp only [scan, hmask, scanLoops_eq hage hbias hcards]
  cases clearCard
  · rfl
  · cases t.clearCardRange scanBegin scanEnd <;> rfl

end Scan

/-- A card table whose biased begin is `kCardDirty` and whose cards are all dirty. -/
def allDirty : CardTable where
  cards := fun _ => kCardDirty
  biasedBegin := 0x70
  biased_low_byte := rfl

/-- Scanning the three cards from `0x12c00c00`, the fourth to sixth cards of a word of the card
table, visits them, then the six cards from the start of their word: nine visits, three of them
before `scan_begin`, and a count of nine. -/
theorem scan_revisits_cards_before_range :
    (allDirty.scan false 0x12c00c00 0x12c01800 kCardDirty).map (fun r => (r.visits, r.cardsScanned)) =
      some ([0x12c00c00, 0x12c01000, 0x12c01400, 0x12c00000, 0x12c00400, 0x12c00800, 0x12c00c00,
        0x12c01000, 0x12c01400], 9) := by
  rw [scan_eq (by decide) (by decide)]
  decide

end CardTable

end AndroidArt.Gc
