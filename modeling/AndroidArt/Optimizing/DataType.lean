/-
Module: AndroidArt.Optimizing.DataType
Purpose: `DataType::Type` of `compiler/optimizing/data_type.h`, the primitive types of HIR
  values, with the classification predicates the code generators branch on, and the range of Java
  values each integral type holds.
Trusted boundary: none
Main exports: DataType, DataType.isIntegralType, DataType.isUnsignedType, DataType.kind
-/
import Mathlib

namespace AndroidArt.Optimizing

/-- `DataType::Type`. -/
inductive DataType where
  | reference
  | bool
  | uint8
  | int8
  | uint16
  | int16
  | uint32
  | int32
  | uint64
  | int64
  | float32
  | float64
  | void
deriving Repr, DecidableEq, Inhabited

namespace DataType

/-- `DataType::Size` in bytes, with 4-byte heap references. -/
def size : DataType → Nat
  | void => 0
  | bool | uint8 | int8 => 1
  | uint16 | int16 => 2
  | uint32 | int32 | float32 | reference => 4
  | uint64 | int64 | float64 => 8

/-- `DataType::IsFloatingPointType`. -/
def isFloatingPointType : DataType → Bool
  | float32 | float64 => true
  | _ => false

/-- `DataType::IsIntegralType`: booleans count, since their bit representation is safe. -/
def isIntegralType : DataType → Bool
  | bool | uint8 | int8 | uint16 | int16 | uint32 | int32 | uint64 | int64 => true
  | _ => false

/-- `DataType::IsIntOrLongType`. -/
def isIntOrLongType : DataType → Bool
  | int32 | int64 => true
  | _ => false

/-- `DataType::Is64BitType`. -/
def is64BitType : DataType → Bool
  | uint64 | int64 | float64 => true
  | _ => false

/-- `DataType::IsUnsignedType`: `bool` counts as unsigned. -/
def isUnsignedType : DataType → Bool
  | bool | uint8 | uint16 | uint32 | uint64 => true
  | _ => false

/-- `DataType::Kind`: integer-like types fuse into `int32` or `int64`. -/
def kind : DataType → DataType
  | bool | uint8 | int8 | uint16 | int16 | uint32 | int32 => int32
  | uint64 | int64 => int64
  | t => t

/-- The Java values an integral type holds: signed types their two's-complement range,
unsigned ones (`bool`, `char` and the unsigned vector lanes) `[0, 2^bits)`. -/
def InRange (t : DataType) (x : Int) : Prop :=
  if t.isUnsignedType then 0 ≤ x ∧ x < 2 ^ (8 * t.size)
  else -2 ^ (8 * t.size - 1) ≤ x ∧ x < 2 ^ (8 * t.size - 1)

instance (t : DataType) (x : Int) : Decidable (t.InRange x) :=
  inferInstanceAs (Decidable (if t.isUnsignedType then _ else _))

/-- The integral types scalar HIR values take: `kUint32` and `kUint64` are given only to the
operations of the vectorizer. -/
def isScalarIntegral : DataType → Bool
  | bool | uint8 | int8 | uint16 | int16 | int32 | int64 => true
  | _ => false

/-- A scalar integral value lies in the range of its kind, where the arithmetic computes. -/
theorem InRange.kind {t : DataType} {x : Int} (ht : t.isScalarIntegral) (h : t.InRange x) :
    t.kind.InRange x := by
  cases t <;> simp_all [InRange, isScalarIntegral, isUnsignedType, size, DataType.kind] <;>
    constructor <;> omega

/-- An `int` value lies in the range of either arithmetic kind. -/
theorem InRange.of_int32 {t : DataType} {x : Int} (ht : t.isIntOrLongType)
    (h : DataType.int32.InRange x) : t.InRange x := by
  cases t <;> simp_all [InRange, isIntOrLongType, isUnsignedType, size]
  -- only `long` is left: its range contains that of `int`
  constructor <;> omega

end DataType

end AndroidArt.Optimizing
