/-
Module: AndroidArt.Lib.HashDedup
Purpose: Deduplicated appends through a hash multimap. A table holds rows and a multimap from the
  hash of every block appended through `dedup` to the row it starts at.
Trusted boundary: the multimap is a list in the order of insertion and the candidates of a hash
  are tried in that order; every result here holds whichever candidate comes first.
Main exports: DedupTable, DedupTable.dedup, DedupTable.add, DedupTable.run
-/
import Mathlib.Data.List.Infix

namespace AndroidArt.Lib

/-- Rows, and the hash and first row of every block appended through `dedup`. -/
structure DedupTable (α : Type) where
  rows : List α
  index : List (Nat × Nat)
deriving DecidableEq, Repr

namespace DedupTable

variable {α : Type} [DecidableEq α]

/-- No rows and nothing recorded. -/
def empty : DedupTable α := ⟨[], []⟩

/-- The rows from `start` on begin with the block `values`: there are enough of them, and they
are equal to it one by one. -/
def holdsAt (rows : List α) (start : Nat) (values : List α) : Bool :=
  decide (values.length ≤ rows.length - start) && (rows.drop start).take values.length == values

/-- The first row recorded under `hash` from which the rows hold `values`. -/
def lookup (t : DedupTable α) (hash : Nat) (values : List α) : Option Nat :=
  ((t.index.filter fun e => e.1 == hash).map Prod.snd).find? fun start =>
    holdsAt t.rows start values

/-- The first row of a block equal to `values` among those recorded under its hash, or the
first row of a copy of `values` appended and recorded. -/
def dedup (hashOf : List α → Nat) (values : List α) (t : DedupTable α) : Nat × DedupTable α :=
  match t.lookup (hashOf values) values with
  | some start => (start, t)
  | none => (t.rows.length, ⟨t.rows ++ values, t.index ++ [(hashOf values, t.rows.length)]⟩)

/-- Appends a row without recording it. -/
def add (value : α) (t : DedupTable α) : DedupTable α := { t with rows := t.rows ++ [value] }

/-- The two ways of filling a table. -/
inductive Op (α : Type) where
  | add (value : α)
  | dedup (values : List α)

/-- One call on the table. -/
def step (hashOf : List α → Nat) (t : DedupTable α) : Op α → DedupTable α
  | .add value => t.add value
  | .dedup values => (t.dedup hashOf values).2

/-- A sequence of calls. -/
def run (hashOf : List α → Nat) (t : DedupTable α) (ops : List (Op α)) : DedupTable α :=
  ops.foldl (step hashOf) t

/-! ### Blocks held by the rows -/

theorem holdsAt_iff {rows : List α} {start : Nat} {values : List α} :
    holdsAt rows start values = true ↔ values <+: rows.drop start := by
  rw [holdsAt, List.prefix_iff_eq_take]
  constructor
  · intro h
    simp only [Bool.and_eq_true, decide_eq_true_eq, beq_iff_eq] at h
    exact h.2.symm
  · intro h
    have hlen : values.length ≤ rows.length - start := by
      have := congrArg List.length h
      simp only [List.length_take, List.length_drop] at this
      omega
    simp [hlen, ← h]

omit [DecidableEq α] in
/-- Appending rows keeps every block the rows held. -/
theorem prefix_drop_append {rows : List α} {start : Nat} {values : List α}
    (h : values <+: rows.drop start) (more : List α) : values <+: (rows ++ more).drop start := by
  by_cases hstart : start ≤ rows.length
  · rw [List.drop_append_of_le_length hstart]
    exact h.trans (List.prefix_append _ _)
  · rw [List.drop_eq_nil_of_le (by omega), List.prefix_nil] at h
    rw [h]
    exact List.nil_prefix

/-- The row `dedup` returns starts a block equal to `values`. -/
theorem holdsAt_dedup (hashOf : List α → Nat) (values : List α) (t : DedupTable α) :
    values <+: (t.dedup hashOf values).2.rows.drop (t.dedup hashOf values).1 := by
  unfold dedup
  split
  · rename_i start hlookup
    rw [lookup] at hlookup
    have hholds := List.find?_some hlookup
    exact holdsAt_iff.mp hholds
  · simp

/-- `dedup` and `add` only append rows. -/
theorem rows_prefix_step (hashOf : List α → Nat) (t : DedupTable α) (op : Op α) :
    ∃ more, (step hashOf t op).rows = t.rows ++ more := by
  cases op with
  | add value => exact ⟨[value], rfl⟩
  | dedup values =>
    simp only [step, dedup]
    split
    · exact ⟨[], by simp⟩
    · exact ⟨values, rfl⟩

/-! ### Recorded blocks are found again -/

/-- The table records `values` under its hash at a row from which the rows hold it. -/
def Covers (hashOf : List α → Nat) (t : DedupTable α) (values : List α) : Prop :=
  ∃ start, (hashOf values, start) ∈ t.index ∧ values <+: t.rows.drop start

variable {hashOf : List α → Nat}

/-- A block the table records is found: `dedup` returns its row (or another one holding the
same block) and changes nothing. -/
theorem dedup_of_covers {t : DedupTable α} {values : List α} (h : Covers hashOf t values) :
    (t.dedup hashOf values).2 = t := by
  obtain ⟨start, hmem, hholds⟩ := h
  have hfound : (t.lookup (hashOf values) values).isSome := by
    rw [lookup, List.find?_isSome]
    refine ⟨start, ?_, holdsAt_iff.mpr hholds⟩
    exact List.mem_map.mpr ⟨(hashOf values, start), List.mem_filter.mpr ⟨hmem, by simp⟩, rfl⟩
  obtain ⟨found, hfound⟩ := Option.isSome_iff_exists.mp hfound
  simp only [dedup, hfound]

/-- A call keeps every block the table records. -/
theorem covers_step {t : DedupTable α} {values : List α} (h : Covers hashOf t values)
    (op : Op α) : Covers hashOf (step hashOf t op) values := by
  obtain ⟨start, hmem, hholds⟩ := h
  obtain ⟨more, hrows⟩ := rows_prefix_step hashOf t op
  refine ⟨start, ?_, hrows ▸ prefix_drop_append hholds more⟩
  cases op with
  | add value => exact hmem
  | dedup values' =>
    simp only [step, dedup]
    split
    · exact hmem
    · exact List.mem_append_left _ hmem

/-- After `dedup` of a block the table records it. -/
theorem covers_dedup (t : DedupTable α) (values : List α) :
    Covers hashOf (t.dedup hashOf values).2 values := by
  unfold dedup
  split
  · rename_i start hlookup
    rw [lookup] at hlookup
    obtain ⟨e, he, rfl⟩ := List.mem_map.mp (List.mem_of_find?_eq_some hlookup)
    obtain ⟨hmem, hhash⟩ := List.mem_filter.mp he
    have he : e = (hashOf values, e.2) := Prod.ext (beq_iff_eq.mp hhash) rfl
    have hholds := List.find?_some hlookup
    exact ⟨e.2, he ▸ hmem, holdsAt_iff.mp hholds⟩
  · exact ⟨t.rows.length, List.mem_append_right _ (List.mem_singleton_self _), by simp⟩

/-- Along any run, a block that went through `dedup` stays recorded. -/
theorem covers_run_of_mem {values : List α} :
    ∀ (ops : List (Op α)) (t : DedupTable α), Op.dedup values ∈ ops ∨ Covers hashOf t values →
      Covers hashOf (run hashOf t ops) values
  | [], _, h => h.resolve_left (by simp)
  | op :: ops, t, h => by
    apply covers_run_of_mem ops (step hashOf t op)
    rcases h with h | h
    · rcases List.mem_cons.mp h with rfl | h
      · exact .inr (covers_dedup t values)
      · exact .inl h
    · exact .inr (covers_step h op)

/-- A block that went through `dedup` in a run is never appended again: a later `dedup` of it
changes nothing. -/
theorem dedup_run_of_mem {values : List α} {ops : List (Op α)} (h : Op.dedup values ∈ ops)
    (t : DedupTable α) : ((run hashOf t ops).dedup hashOf values).2 = run hashOf t ops :=
  dedup_of_covers (covers_run_of_mem ops t (.inl h))

end DedupTable

end AndroidArt.Lib
