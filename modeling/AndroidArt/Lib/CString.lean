/-
Module: AndroidArt.Lib.CString
Purpose: NUL-terminated strings inside a byte buffer. `nulFrom buf start` is where the string at
  `start` ends: its first NUL, or the end of the buffer when the string runs off it.
Trusted boundary: none
Main exports: CString.nulFrom, CString.read, CString.nulFrom_append, CString.read_append
-/
import Mathlib.Data.List.Basic

namespace AndroidArt.Lib

namespace CString

/-- The index of the first NUL at or after `start`, or `buf.length` if there is none. -/
def nulFrom (buf : List UInt8) (start : Nat) : Nat :=
  start + (buf.drop start).findIdx (· == 0)

/-- The string at `start`, when its terminating NUL lies inside the buffer. -/
def read (buf : List UInt8) (start : Nat) : Option (List UInt8) :=
  if nulFrom buf start < buf.length then some ((buf.drop start).take (nulFrom buf start - start))
  else none

variable {buf : List UInt8} {start : Nat}

theorem le_nulFrom (buf : List UInt8) (start : Nat) : start ≤ nulFrom buf start :=
  Nat.le_add_right _ _

/-- The scan stops at a NUL. -/
theorem nulFrom_eq_self (h : start < buf.length) (hz : buf[start] = 0) :
    nulFrom buf start = start := by
  simp [nulFrom, List.drop_eq_getElem_cons h, List.findIdx_cons, hz]

/-- The scan steps over a byte that is not NUL. -/
theorem nulFrom_eq_nulFrom_succ (h : start < buf.length) (hz : buf[start] ≠ 0) :
    nulFrom buf start = nulFrom buf (start + 1) := by
  have hne : (buf[start] == 0) = false := beq_eq_false_iff_ne.mpr hz
  unfold nulFrom
  rw [List.drop_eq_getElem_cons h, List.findIdx_cons, hne, cond_false]
  omega

theorem nulFrom_of_le (h : buf.length ≤ start) : nulFrom buf start = start := by
  simp [nulFrom, List.drop_eq_nil_of_le h]

theorem read_eq_some_iff {s : List UInt8} :
    read buf start = some s ↔
      nulFrom buf start < buf.length ∧ (buf.drop start).take (nulFrom buf start - start) = s := by
  unfold read
  split
  · rename_i h
    simp [h]
  · rename_i h
    simp [h]

theorem read_eq_none_iff : read buf start = none ↔ buf.length ≤ nulFrom buf start := by
  unfold read
  split
  · rename_i h
    simp only [reduceCtorEq, false_iff, Nat.not_le]
    exact h
  · rename_i h
    simpa using h

/-- The string of a terminated segment `s` placed after `pre` ends at the segment's NUL. -/
theorem nulFrom_append (pre s rest : List UInt8) (hs : 0 ∉ s) :
    nulFrom (pre ++ s ++ 0 :: rest) pre.length = pre.length + s.length := by
  have hfind : s.findIdx (· == 0) = s.length :=
    List.findIdx_eq_length.mpr fun b hb => beq_eq_false_iff_ne.mpr (ne_of_mem_of_not_mem hb hs)
  simp [nulFrom, List.append_assoc, List.findIdx_append, List.findIdx_cons, hfind]

theorem read_append (pre s rest : List UInt8) (hs : 0 ∉ s) :
    read (pre ++ s ++ 0 :: rest) pre.length = some s := by
  unfold read
  rw [nulFrom_append pre s rest hs, if_pos (by simp), Nat.add_sub_cancel_left]
  simp [List.append_assoc]

end CString

end AndroidArt.Lib
