/-
# `Lib.Layout` — where a compiler puts the fields of a structure

The fields of a C structure follow one another, each at the next multiple of
its alignment.
-/
import Mathlib.Data.List.Basic

namespace CLayout

structure Field where
  name : String
  size : Nat
  align : Nat

/-- The next multiple of an alignment. -/
def alignTo (n align : Nat) : Nat := (n + align - 1) / align * align

/-- The fields with their offsets. -/
def place (start : Nat) : List Field → List (String × Nat)
  | [] => []
  | f :: fields =>
      (f.name, alignTo start f.align) :: place (alignTo start f.align + f.size) fields

def offsetOf (fields : List Field) (name : String) : Nat :=
  ((place 0 fields).lookup name).getD 0

def structAlign (fields : List Field) : Nat := (fields.map Field.align).foldl max 1

/-- The end of the last field. -/
def endOf (start : Nat) : List Field → Nat
  | [] => start
  | f :: fields => endOf (alignTo start f.align + f.size) fields

def structSize (fields : List Field) : Nat := alignTo (endOf 0 fields) (structAlign fields)

/-- A structure as a field of another. -/
def nested (name : String) (fields : List Field) : Field :=
  { name, size := structSize fields, align := structAlign fields }

end CLayout
