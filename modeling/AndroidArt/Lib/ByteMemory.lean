/-
Module: AndroidArt.Lib.ByteMemory
Purpose: A byte-addressed memory `Nat → UInt8` with the load and the store of a run of bytes and
  the weak compare-and-set of a word.
Trusted boundary: none
Main exports: loadBytes, storeBytes, compareAndSetWeak, compareAndSetWeak_eq_some
-/
import Mathlib.Data.List.GetD
import Mathlib.Logic.Function.Basic

namespace AndroidArt.Lib

namespace ByteMemory

/-- The `n` bytes from address `a` on, lowest address first. -/
def loadBytes (mem : Nat → UInt8) (a n : Nat) : List UInt8 :=
  (List.range' a n).map mem

/-- The memory with `bytes` written from address `a` on. -/
def storeBytes (mem : Nat → UInt8) (a : Nat) (bytes : List UInt8) : Nat → UInt8 :=
  fun c => if a ≤ c ∧ c < a + bytes.length then bytes.getD (c - a) 0 else mem c

/-- A weak compare-and-set of the `n` bytes at `a`: it writes `desired` if they are
`expected` and the CAS does not fail spuriously, and otherwise leaves the memory alone. -/
def compareAndSetWeak (mem : Nat → UInt8) (a n : Nat) (expected desired : List UInt8)
    (spurious : Bool) : Option (Nat → UInt8) :=
  if loadBytes mem a n = expected ∧ spurious = false then some (storeBytes mem a desired)
  else none

variable {mem : Nat → UInt8} {a n : Nat}

@[simp] theorem length_loadBytes : (loadBytes mem a n).length = n := by
  simp [loadBytes]

theorem getElem_loadBytes {i : Nat} (hi : i < (loadBytes mem a n).length) :
    (loadBytes mem a n)[i] = mem (a + i) := by
  simp [loadBytes, List.getElem_range']

/-- A memory that holds `bytes` at `a` has byte `i` of them at `a + i`. -/
theorem apply_of_loadBytes {bytes : List UInt8} (h : loadBytes mem a bytes.length = bytes)
    {i : Nat} (hi : i < bytes.length) : mem (a + i) = bytes[i] := by
  have hget := @getElem_loadBytes mem a bytes.length i (by simpa using hi)
  simp only [h] at hget
  exact hget.symm

theorem loadBytes_add (m : Nat) :
    loadBytes mem a (n + m) = loadBytes mem a n ++ loadBytes mem (a + n) m := by
  simp only [loadBytes, ← List.range'_append_1, List.map_append]

/-- A memory holds two runs of bytes one after the other where it holds their concatenation. -/
theorem loadBytes_append {bs cs : List UInt8} :
    loadBytes mem a (bs ++ cs).length = bs ++ cs ↔
      loadBytes mem a bs.length = bs ∧ loadBytes mem (a + bs.length) cs.length = cs := by
  rw [List.length_append, loadBytes_add]
  constructor
  · intro h
    exact List.append_inj h (by simp)
  · rintro ⟨hb, hc⟩
    rw [hb, hc]

theorem loadBytes_cons {b : UInt8} {bs : List UInt8} :
    loadBytes mem a (b :: bs).length = b :: bs ↔ mem a = b ∧ loadBytes mem (a + 1) bs.length = bs := by
  rw [← List.singleton_append, loadBytes_append]
  simp [loadBytes]

theorem loadBytes_storeBytes (bytes : List UInt8) :
    loadBytes (storeBytes mem a bytes) a bytes.length = bytes := by
  apply List.ext_getElem (by simp)
  intro i hi _
  rw [getElem_loadBytes, storeBytes, if_pos (by simp at hi; omega), Nat.add_sub_cancel_left,
    List.getD_eq_getElem]

theorem compareAndSetWeak_eq_some {expected desired : List UInt8} {spurious : Bool}
    {mem' : Nat → UInt8} :
    compareAndSetWeak mem a n expected desired spurious = some mem' ↔
      loadBytes mem a n = expected ∧ spurious = false ∧ mem' = storeBytes mem a desired := by
  unfold compareAndSetWeak
  split
  · rename_i h
    simp [h.1, h.2, eq_comm]
  · rename_i h
    simp only [reduceCtorEq, false_iff]
    rintro ⟨hload, hsp, -⟩
    exact h ⟨hload, hsp⟩

/-- A load that found `cur` with `e` at position `i` found `e` at address `a + i`. -/
theorem apply_of_loadBytes_eq_set {cur : List UInt8} {i : Nat} {e : UInt8}
    (hload : loadBytes mem a n = cur.set i e) (hi : i < n) : mem (a + i) = e := by
  have hlen : cur.length = n := by
    simpa using (congrArg List.length hload).symm
  have h : (loadBytes mem a n).getD i 0 = (cur.set i e).getD i 0 := by rw [hload]
  rwa [List.getD_eq_getElem _ _ (by simp [hi]), getElem_loadBytes,
    List.getD_eq_getElem _ _ (by simp; omega), List.getElem_set_self] at h

/-- Outside the bytes written, a store changes nothing. -/
theorem storeBytes_of_not_mem {bytes : List UInt8} {c : Nat} (h : c < a ∨ a + bytes.length ≤ c) :
    storeBytes mem a bytes c = mem c := by
  unfold storeBytes
  rw [if_neg (by omega)]

/-- Over bytes that are `cur` but for the one at `i`, a store of `cur` with a new byte at `i`
changes that byte alone. -/
theorem storeBytes_set_of_loadBytes {cur : List UInt8} {i : Nat} {e v : UInt8}
    (hload : loadBytes mem a n = cur.set i e) (hi : i < n) :
    storeBytes mem a (cur.set i v) = Function.update mem (a + i) v := by
  have hlen : cur.length = n := by
    simpa using (congrArg List.length hload).symm
  funext c
  by_cases hc : a ≤ c ∧ c < a + n
  · -- a byte of the word: the one at `i` is the new one, the others are what was loaded
    have hget : mem c = (cur.set i e).getD (c - a) 0 := by
      rw [← hload, List.getD_eq_getElem _ _ (by simp; omega), getElem_loadBytes]
      congr 1
      omega
    unfold storeBytes
    rw [List.length_set, hlen, if_pos hc]
    by_cases hci : c = a + i
    · subst hci
      rw [Function.update_self, Nat.add_sub_cancel_left,
        List.getD_eq_getElem _ _ (by simp; omega), List.getElem_set_self]
    · rw [Function.update_of_ne hci, hget, List.getD_eq_getElem _ _ (by simp; omega),
        List.getD_eq_getElem _ _ (by simp; omega), List.getElem_set_ne (by omega),
        List.getElem_set_ne (by omega)]
  · rw [storeBytes_of_not_mem (by rw [List.length_set, hlen]; omega),
      Function.update_of_ne (by omega)]

/-- A store of the loaded bytes, each passed through `f`, applies `f` to the bytes of the word. -/
theorem storeBytes_map_of_loadBytes {f : UInt8 → UInt8} {ew : List UInt8}
    (hload : loadBytes mem a n = ew) :
    storeBytes mem a (ew.map f) = fun c => if a ≤ c ∧ c < a + n then f (mem c) else mem c := by
  subst hload
  funext c
  unfold storeBytes
  rw [List.length_map, length_loadBytes]
  split
  · rename_i hc
    rw [List.getD_eq_getElem _ _ (by simp; omega), List.getElem_map, getElem_loadBytes]
    congr 2
    omega
  · rfl

end ByteMemory

end AndroidArt.Lib
