/-
Module: AndroidArt.Profile.AggregationCounters
Purpose: the loops of `ProfileCompilationInfo` over the methods of a line that count and write
  its aggregation counters, `DexFileData::GetNumMethodCounters` and the method-counter loop of
  `Save`, as the code runs them: over a `uint16_t` method index compared with the `uint32_t`
  `num_method_ids`.
Trusted boundary: the fuel counts the tests of the loop; a loop that returns `none` for every
  fuel does not end.
Main exports: DexFileData.getNumMethodCountersLoop, DexFileData.methodCountersToBufferLoop,
  getNumMethodCountersLoop_of_lt, methodCountersToBufferLoop_of_lt
-/
import AndroidArt.Lib.CountedLoop
import AndroidArt.Profile.Save

namespace AndroidArt.Profile

open AndroidArt.Lib

/-- A count kept modulo `m` stays below `m`. -/
theorem foldl_add_mod_lt (p : Nat → Bool) {m : Nat} (hm : 0 < m) :
    ∀ (l : List Nat) {c : Nat}, c < m →
      l.foldl (fun c j => (c + if p j then 1 else 0) % m) c < m
  | [], _, hc => hc
  | _ :: l, _, _ => foldl_add_mod_lt p hm l (Nat.mod_lt _ hm)

/-- Counting modulo `m` step by step is counting and then taking the count modulo `m`. -/
theorem foldl_add_mod_eq (p : Nat → Bool) (m : Nat) :
    ∀ (l : List Nat) (c : Nat),
      l.foldl (fun c j => (c + if p j then 1 else 0) % m) c % m = (c + l.countP p) % m
  | [], c => by simp
  | j :: l, c => by
    rw [List.foldl_cons, foldl_add_mod_eq p m l, List.countP_cons, Nat.mod_add_mod]
    congr 1
    split <;> omega

/-- Appending a piece for each element that passes a test is the concatenation of the
pieces of the filtered list. -/
theorem foldl_append_filter (p : Nat → Bool) (g : Nat → List UInt8) :
    ∀ (l : List Nat) (acc : List UInt8),
      l.foldl (fun buffer j => if p j then buffer ++ g j else buffer) acc =
        acc ++ (l.filter p).flatMap g
  | [], acc => by simp
  | j :: l, acc => by
    rw [List.foldl_cons, foldl_append_filter p g l, List.filter_cons]
    split <;> simp

namespace DexFileData

/-- `GetNumMethodCounters()` as the code runs it: `num_method_counters += IsInProfile ? 1 : 0`
for a `uint16_t` `method_idx` from `0` while `method_idx < num_method_ids`, with at most
`fuel` tests. -/
def getNumMethodCountersLoop (d : DexFileData) (fuel : Nat) : Option Nat :=
  wrappingLoop 16 d.numMethodIds
    (fun methodIdx numMethodCounters =>
      (numMethodCounters + if d.isInProfile methodIdx then 1 else 0) % 2 ^ 16) fuel 0 0

/-- The loop of `Save` that writes `method_counters[method_idx]` of every method in the
profile, over a `uint16_t` `method_idx`, with at most `fuel` tests. -/
def methodCountersToBufferLoop (d : DexFileData) (fuel : Nat) : Option (List UInt8) :=
  wrappingLoop 16 d.numMethodIds
    (fun methodIdx buffer =>
      if d.isInProfile methodIdx then
        buffer ++ addUintToBuffer 2 (counter d.methodCounters methodIdx)
      else buffer) fuel 0 []

end DexFileData

section Loops

variable {d : DexFileData} {fuel : Nat}

/-- Below 65536 methods `GetNumMethodCounters` ends, with a test for each method and one more,
and counts the methods in the profile modulo 2^16. -/
theorem getNumMethodCountersLoop_of_lt (hn : d.numMethodIds < 2 ^ 16)
    (hfuel : d.numMethodIds < fuel) :
    d.getNumMethodCountersLoop fuel = some d.getNumMethodCounters := by
  rw [DexFileData.getNumMethodCountersLoop,
    wrappingLoop_of_lt 16 _ _ hn 0 (Nat.zero_le _) (by omega), Nat.sub_zero,
    DexFileData.getNumMethodCounters, List.range_eq_range']
  congr 1
  rw [← Nat.mod_eq_of_lt (foldl_add_mod_lt d.isInProfile (Nat.two_pow_pos 16) _
    (Nat.two_pow_pos 16)), foldl_add_mod_eq, Nat.zero_add]

/-- Below 65536 methods the method-counter loop of `Save` ends and writes the counters that
`countersToBuffer` puts after their count. -/
theorem methodCountersToBufferLoop_of_lt (hn : d.numMethodIds < 2 ^ 16)
    (hfuel : d.numMethodIds < fuel) :
    d.methodCountersToBufferLoop fuel =
      some (((List.range d.numMethodIds).filter d.isInProfile).flatMap
        (fun m => addUintToBuffer 2 (DexFileData.counter d.methodCounters m))) := by
  rw [DexFileData.methodCountersToBufferLoop,
    wrappingLoop_of_lt 16 _ _ hn [] (Nat.zero_le _) (by omega), Nat.sub_zero,
    foldl_append_filter, List.nil_append, List.range_eq_range']

/-- From 65536 methods on, `GetNumMethodCounters` and the method-counter loop of `Save` do not
end: the `uint16_t` index wraps to `0` before it reaches `num_method_ids`. -/
theorem methodCounterLoops_do_not_end (hn : 2 ^ 16 ≤ d.numMethodIds) (fuel : Nat) :
    d.getNumMethodCountersLoop fuel = none ∧ d.methodCountersToBufferLoop fuel = none :=
  ⟨wrappingLoop_eq_none 16 _ _ hn fuel 0 (Nat.two_pow_pos 16),
    wrappingLoop_eq_none 16 _ _ hn fuel [] (Nat.two_pow_pos 16)⟩

/-- A line of 65536 methods, as many as a dex file may have: no fuel ends the loops. -/
theorem methodCounterLoops_do_not_end_at_65536 :
    (DexFileData.make [] 0 0 65536).numMethodIds = 65536 ∧
      (DexFileData.make [] 0 0 65536).getNumMethodCountersLoop (2 ^ 20) = none ∧
      (DexFileData.make [] 0 0 65536).methodCountersToBufferLoop (2 ^ 20) = none :=
  ⟨rfl, methodCounterLoops_do_not_end (by decide) (2 ^ 20)⟩

end Loops

end AndroidArt.Profile
