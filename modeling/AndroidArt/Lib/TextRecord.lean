/-
Module: AndroidArt.Lib.TextRecord
Purpose: Records kept as lines of text whose fields are cut at a separator, and strings compared
  as `std::string::compare` compares them, lexicographically.
Trusted boundary: `stoul` reads a run of digits: the leading blanks and the sign it also accepts
  are left out, since no line written by `to_string` has them.
Main exports: strCompare, strCompare_eq_lt_iff, decimal, stoul
-/
import Mathlib.Data.Char
import Mathlib.Data.List.Basic
import Mathlib.Data.List.Lex
import Mathlib.Data.List.TakeWhile
import Mathlib.Data.Nat.Init
import Mathlib.Tactic.IntervalCases

namespace AndroidArt.Lib

namespace TextRecord

/-- `std::to_string` of an unsigned value. -/
def decimal (n : Nat) : List Char := Nat.toDigits 10 n

/-- The value of a run of decimal digits, most significant first. -/
def digitsValue (ds : List Char) : Nat :=
  ds.foldl (fun acc c => 10 * acc + (c.toNat - '0'.toNat)) 0

/-- `std::stoul`: the value of the leading digits.  It throws (`none`) when there are none
(`invalid_argument`) and when the value does not fit an unsigned long (`out_of_range`). -/
def stoul (s : List Char) : Option Nat :=
  let ds := s.takeWhile Char.isDigit
  if ds = [] then none
  else if digitsValue ds < 2 ^ 64 then some (digitsValue ds) else none

/-- `p = s.find(sep)`, then `s.substr(0, p)` and `s.substr(p + 1, s.size() - p + 1)`: the
text before the first `sep` and the text after it (the second count runs past the end of the
string, and `substr` stops there).  `none` is the failed `CHECK(p != std::string::npos)`. -/
def cutField (sep : Char) (s : List Char) : Option (List Char × List Char) :=
  let p := s.idxOf sep
  if p < s.length then some (s.take p, s.drop (p + 1)) else none

/-- `std::string::compare`: the lexicographic comparison of two strings, a proper prefix coming
first. -/
def strCompare : List Char → List Char → Ordering
  | [], [] => .eq
  | [], _ :: _ => .lt
  | _ :: _, [] => .gt
  | a :: as, b :: bs => if a < b then .lt else if b < a then .gt else strCompare as bs

/-- The lines of a file: each one ends at a newline, which is not part of it.  The second
component is what follows the last newline, a line that no newline ends. -/
def splitLines : List Char → List (List Char) × List Char
  | [] => ([], [])
  | c :: cs =>
    let r := splitLines cs
    if c = '\n' then ([] :: r.1, r.2)
    else
      match r.1 with
      | [] => ([], c :: r.2)
      | l :: ls => ((c :: l) :: ls, r.2)

/-- The lines a `while (std::getline(in, line))` loop reads: the terminated ones, then the
text after the last newline when there is any. -/
def getlines (text : List Char) : List (List Char) :=
  let r := splitLines text
  if r.2 = [] then r.1 else r.1 ++ [r.2]

/-! ## Comparison -/

theorem strCompare_eq_lt_iff : ∀ {a b : List Char}, strCompare a b = .lt ↔ a < b
  | [], [] => by simp [strCompare]
  | [], _ :: _ => by simp [strCompare]
  | _ :: _, [] => by simp [strCompare]
  | a :: as, b :: bs => by
    rw [strCompare, List.cons_lt_cons_iff, ← strCompare_eq_lt_iff (a := as)]
    split_ifs with hab hba
    · simp [hab]
    · simp [hab, (ne_of_lt hba).symm]
    · have : a = b := le_antisymm (not_lt.mp hba) (not_lt.mp hab)
      simp [this]

theorem strCompare_eq_eq_iff : ∀ {a b : List Char}, strCompare a b = .eq ↔ a = b
  | [], [] => by simp [strCompare]
  | [], _ :: _ => by simp [strCompare]
  | _ :: _, [] => by simp [strCompare]
  | a :: as, b :: bs => by
    rw [strCompare, List.cons_eq_cons, ← strCompare_eq_eq_iff (a := as)]
    split_ifs with hab hba
    · simp [ne_of_lt hab]
    · simp [(ne_of_lt hba).symm]
    · have : a = b := le_antisymm (not_lt.mp hba) (not_lt.mp hab)
      simp [this]

/-! ## Numerals -/

theorem digitChar_toNat {d : Nat} (h : d < 10) : (Nat.digitChar d).toNat = '0'.toNat + d := by
  interval_cases d <;> rfl

theorem decimal_eq (n : Nat) :
    decimal n = if n < 10 then [Nat.digitChar n]
      else decimal (n / 10) ++ [Nat.digitChar (n % 10)] :=
  Nat.toDigits_eq_if (by decide)

theorem decimal_ne_nil (n : Nat) : decimal n ≠ [] := by
  rw [decimal_eq]
  split <;> simp

theorem isDigit_of_mem_decimal {n : Nat} {c : Char} (h : c ∈ decimal n) : c.isDigit = true := by
  induction n using Nat.strong_induction_on with
  | _ n ih =>
    rw [decimal_eq] at h
    split at h
    · rename_i hn
      rw [List.mem_singleton.mp h, Nat.isDigit_digitChar, decide_eq_true hn]
    · rcases List.mem_append.mp h with h | h
      · exact ih (n / 10) (by omega) h
      · rw [List.mem_singleton.mp h, Nat.isDigit_digitChar, decide_eq_true (Nat.mod_lt _ (by omega))]

/-- A character that is no digit, such as a separator or a newline, is not in a numeral. -/
theorem not_mem_decimal {n : Nat} {c : Char} (h : c.isDigit = false) : c ∉ decimal n := by
  intro hc
  rw [isDigit_of_mem_decimal hc] at h
  exact Bool.noConfusion h

theorem digitsValue_append_singleton (ds : List Char) (c : Char) :
    digitsValue (ds ++ [c]) = 10 * digitsValue ds + (c.toNat - '0'.toNat) := by
  simp [digitsValue, List.foldl_append]

theorem digitsValue_decimal (n : Nat) : digitsValue (decimal n) = n := by
  induction n using Nat.strong_induction_on with
  | _ n ih =>
    rw [decimal_eq]
    split
    · rename_i hn
      rw [← List.nil_append [_], digitsValue_append_singleton, digitChar_toNat hn]
      simp [digitsValue]
    · rename_i hn
      rw [digitsValue_append_singleton, ih (n / 10) (by omega),
        digitChar_toNat (Nat.mod_lt _ (by omega))]
      omega

/-- `stoul` reads back what `to_string` wrote, for every value that fits an unsigned long. -/
theorem stoul_decimal {n : Nat} (h : n < 2 ^ 64) : stoul (decimal n) = some n := by
  have hall : (decimal n).takeWhile Char.isDigit = decimal n :=
    List.takeWhile_eq_self_iff.mpr fun _ hc => isDigit_of_mem_decimal hc
  simp only [stoul, hall, digitsValue_decimal, if_neg (decimal_ne_nil n), if_pos h]

/-! ## Fields -/

/-- A line whose first field holds no separator is cut right after that field. -/
theorem cutField_append {sep : Char} {l r : List Char} (h : sep ∉ l) :
    cutField sep (l ++ sep :: r) = some (l, r) := by
  have hidx : (l ++ sep :: r).idxOf sep = l.length := by
    rw [List.idxOf_append_of_notMem h, List.idxOf_cons_self, Nat.add_zero]
  simp [cutField, hidx]

/-! ## Lines -/

/-- A line with no newline in it is read as it is, up to the newline that ends it. -/
theorem splitLines_append {l : List Char} (h : '\n' ∉ l) (cs : List Char) :
    splitLines (l ++ '\n' :: cs) = (l :: (splitLines cs).1, (splitLines cs).2) := by
  induction l with
  | nil => simp [splitLines]
  | cons c l ih =>
    have hc : c ≠ '\n' := fun hc => h (hc ▸ List.mem_cons_self)
    rw [List.cons_append, splitLines, ih (fun hl => h (List.mem_cons_of_mem c hl))]
    simp [hc]

/-- A file written one terminated line at a time is read back into the same lines. -/
theorem splitLines_flatMap {ls : List (List Char)} (h : ∀ l ∈ ls, '\n' ∉ l) :
    splitLines (ls.flatMap (· ++ ['\n'])) = (ls, []) := by
  induction ls with
  | nil => rfl
  | cons l ls ih =>
    rw [List.flatMap_cons, List.append_assoc, List.singleton_append,
      splitLines_append (h l List.mem_cons_self),
      ih (fun l' hl' => h l' (List.mem_cons_of_mem l hl'))]

theorem getlines_flatMap {ls : List (List Char)} (h : ∀ l ∈ ls, '\n' ∉ l) :
    getlines (ls.flatMap (· ++ ['\n'])) = ls := by
  simp [getlines, splitLines_flatMap h]

end TextRecord

end AndroidArt.Lib
