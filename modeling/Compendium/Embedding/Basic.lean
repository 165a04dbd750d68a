import Compendium.Fault
import Compendium.Json.Basic
import Compendium.Number.Single

/-! Embeddings: the vectors that stand for texts, their stored octets, and how they are made from values. -/
namespace Compendium

open Number (Numeral Single)

/-- The components of a vector in single precision. -/
abbrev Embedding := List Single

namespace Embedding

def toBytes (v : Embedding) : List UInt8 := Single.encode v

/-- Reads stored octets; no octets are the empty vector. -/
def ofBytes? (bytes : List UInt8) : Except Fault Embedding :=
  match Single.decode? bytes with
  | some v => .ok v
  | none => .error .raggedBlob

def hex (v : Embedding) : String := Text.hexOfBytes v.toBytes

def toFloats (v : Embedding) : List Float := v.map Single.toFloat

def ofFloats (xs : List Float) : Embedding := xs.map Single.ofFloat

/-- The number that a single value stands for: texts are read, truth values count as one and zero, and
a missing value is undefined. -/
def component : Json → Except VectorFault Float
  | .null => .ok (0.0 / 0.0)
  | .bool b => .ok (if b then 1.0 else 0.0)
  | .number (.decimal x) => .ok x
  | .number (.whole n) =>
    match Number.ofInt? n with
    | some x => .ok x
    | none => .error .tooLarge
  | .text s =>
    match Number.readFloat? s.toList with
    | some x => .ok x
    | none => .error (.notNumeric s)
  | .list _ => .error (.ragged [])
  | .object _ => .error (.notScalar "dict")

/-- The lists of a level, or none when the level is not all lists of one length. -/
def level? (values : List Json) : Option (Nat × List Json) := do
  let items ← values.mapM Json.list?
  let first ← items.head?
  if items.all fun l => l.length = first.length then some (first.length, items.flatten) else none

/-- Goes down level by level as long as a level is all lists of one length; gives the lengths and the
values of the last level. -/
def unfold : (fuel : Nat) → (shape : List Nat) → List Json → List Nat × List Json
  | 0, shape, values => (shape, values)
  | fuel + 1, shape, values =>
    match level? values with
    | some (n, items) => unfold fuel (shape ++ [n]) items
    | none => (shape, values)

def maxLevels : Nat := 64

def shapeAndFloats (value : Json) : Except VectorFault (List Nat × List Float) :=
  let (shape, values) := unfold maxLevels [] [value]
  if values.any fun v => v.list?.isSome then .error (.ragged shape)
  else (values.mapM component).map fun xs => (shape, xs)

/-- The numbers of a value of any shape, in row order. -/
def ofJson (value : Json) : Except VectorFault Embedding :=
  (shapeAndFloats value).map fun found => ofFloats found.2

end Embedding

end Compendium
