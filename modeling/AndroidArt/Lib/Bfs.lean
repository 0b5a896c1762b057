/-
Module: AndroidArt.Lib.Bfs
Purpose: Breadth-first search as a queue loop over a successor function: a node is marked
  discovered when it is queued, every dequeued node is visited once, and the loop may break off
  at a node.
Trusted boundary: none
Main exports: discover, visitOrder, mem_discover, reachable_of_mem_visitOrder
-/
import Mathlib.Logic.Relation

namespace AndroidArt.Lib.Bfs

variable {β : Type*} [DecidableEq β]

/-- The nodes of `ys` that are not in `d`, each once, in the order of `ys`: what a loop over
`ys` queues when it queues and marks every node it has not discovered yet. -/
def discover (d : List β) : List β → List β
  | [] => []
  | y :: ys => if y ∈ d then discover d ys else y :: discover (y :: d) ys

theorem mem_discover {d ys : List β} {y : β} (h : y ∈ discover d ys) : y ∈ ys ∧ y ∉ d := by
  induction ys generalizing d with
  | nil => cases h
  | cons z ys ih =>
    unfold discover at h
    split at h
    · obtain ⟨hy, hyd⟩ := ih h
      exact ⟨List.mem_cons_of_mem z hy, hyd⟩
    · rename_i hzd
      rcases List.mem_cons.mp h with rfl | h
      · exact ⟨List.mem_cons_self, hzd⟩
      · obtain ⟨hy, hyd⟩ := ih h
        exact ⟨List.mem_cons_of_mem z hy, fun hd => hyd (List.mem_cons_of_mem z hd)⟩

omit [DecidableEq β] in
/-- A predicate that implies another and fails at one of its elements counts one element
less. -/
theorem countP_add_one_le {p q : β → Bool} {l : List β} (hqp : ∀ x ∈ l, q x → p x) {y : β}
    (hy : y ∈ l) (hp : p y) (hq : ¬q y) : l.countP q + 1 ≤ l.countP p := by
  induction l with
  | nil => cases hy
  | cons a l ih =>
    have hrest : ∀ x ∈ l, q x → p x := fun x hx => hqp x (List.mem_cons_of_mem a hx)
    rw [List.countP_cons, List.countP_cons]
    rcases List.mem_cons.mp hy with rfl | hy
    · have hle := List.countP_mono_left hrest
      simp [hp, hq]
      omega
    · have hle := ih hrest hy
      by_cases hqa : q a
      · simp [hqa, hqp a List.mem_cons_self hqa]
        omega
      · simp only [hqa, Bool.false_eq_true, if_false]
        split <;> omega

/-- Discovering nodes of `univ` uses up as many of its undiscovered nodes. -/
theorem countP_discover {univ d ys : List β} (hys : ∀ y ∈ ys, y ∈ univ) :
    univ.countP (fun x => x ∉ d ++ discover d ys) + (discover d ys).length ≤
      univ.countP (fun x => x ∉ d) := by
  induction ys generalizing d with
  | nil => simp [discover]
  | cons y ys ih =>
    have hys' : ∀ z ∈ ys, z ∈ univ := fun z hz => hys z (List.mem_cons_of_mem y hz)
    unfold discover
    split
    · exact ih hys'
    · rename_i hyd
      have hrest := ih (d := y :: d) hys'
      have hstep : univ.countP (fun x => x ∉ y :: d) + 1 ≤ univ.countP (fun x => x ∉ d) :=
        countP_add_one_le (fun x _ hx => by simp_all) (hys y List.mem_cons_self)
          (by simpa using hyd) (by simp)
      have hsame : univ.countP (fun x => x ∉ d ++ y :: discover (y :: d) ys) =
          univ.countP (fun x => x ∉ (y :: d) ++ discover (y :: d) ys) :=
        List.countP_congr fun x _ => by simp [or_left_comm]
      rw [hsame, List.length_cons]
      omega

section Search

variable (next : β → List β) (stop : β → Bool)

/-- The nodes a queue loop dequeues, in order, from queue `q` with discovered nodes `d`: it
breaks off at the first dequeued node that `stop` holds of, and queues the undiscovered nodes
of `next` of every other one.  The fuel bounds the number of rounds. -/
def visitOrder : Nat → List β → List β → List β
  | 0, _, _ => []
  | _ + 1, [], _ => []
  | n + 1, x :: q, d =>
    if stop x then []
    else
      let new := discover d (next x)
      x :: visitOrder n (q ++ new) (d ++ new)

/-- Every visited node is reached along `next` from the node `s` that reaches the queue. -/
theorem reachable_of_mem_visitOrder {s : β} :
    ∀ {n : Nat} {q d : List β}, (∀ y ∈ q, Relation.ReflTransGen (fun a b => b ∈ next a) s y) →
      ∀ {x : β}, x ∈ visitOrder next stop n q d →
        Relation.ReflTransGen (fun a b => b ∈ next a) s x
  | 0, _, _, _, _, h => by cases h
  | _ + 1, [], _, _, _, h => by cases h
  | n + 1, y :: q, d, hq, x, h => by
    unfold visitOrder at h
    split at h
    · cases h
    · rcases List.mem_cons.mp h with rfl | h
      · exact hq x List.mem_cons_self
      · refine reachable_of_mem_visitOrder (fun z hz => ?_) h
        rcases List.mem_append.mp hz with hz | hz
        · exact hq z (List.mem_cons_of_mem y hz)
        · exact (hq y List.mem_cons_self).tail (mem_discover hz).1

variable {next}

/-- One more round of fuel changes nothing once the fuel covers the queue and the nodes of
`univ` not discovered yet, where `univ` holds every node that `next` produces: every round
dequeues one node and queues only nodes it discovers. -/
theorem visitOrder_succ_fuel {univ : List β} (huniv : ∀ x, ∀ y ∈ next x, y ∈ univ) :
    ∀ {n : Nat} {q d : List β}, q.length + univ.countP (fun x => x ∉ d) ≤ n →
      visitOrder next stop (n + 1) q d = visitOrder next stop n q d
  | 0, [], _, _ => rfl
  | 0, _ :: _, _, h => by simp at h
  | _ + 1, [], _, _ => rfl
  | n + 1, x :: q, d, h => by
    have hcount := countP_discover (d := d) (huniv x)
    have hle : (q ++ discover d (next x)).length +
        univ.countP (fun y => y ∉ d ++ discover d (next x)) ≤ n := by
      simp only [List.length_append, List.length_cons] at h ⊢
      omega
    simp only [visitOrder, visitOrder_succ_fuel huniv hle]

/-- Any fuel beyond what covers the queue and the undiscovered nodes gives the same visits. -/
theorem visitOrder_add_fuel {univ : List β} (huniv : ∀ x, ∀ y ∈ next x, y ∈ univ)
    {n : Nat} {q d : List β} (h : q.length + univ.countP (fun x => x ∉ d) ≤ n) (k : Nat) :
    visitOrder next stop (n + k) q d = visitOrder next stop n q d := by
  induction k with
  | zero => rfl
  | succ k ih =>
    rw [← Nat.add_assoc, visitOrder_succ_fuel stop huniv (by omega), ih]

end Search

end AndroidArt.Lib.Bfs
