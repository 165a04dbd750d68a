import Compendium.Number.Scalar

/-! The cosine of the angle between two vectors. -/
namespace Compendium.Search

open Compendium.Number

def dot (a b : List Float) : Float := Scalar.sum (List.zipWith (· * ·) a b)

def norm (a : List Float) : Float := (dot a a).sqrt

/-- The cosine cut to the range from 0 to 1; zero when a vector is missing, is empty, has no length, or when
the two have different numbers of components. -/
def cosine (a b : Option (List Float)) : Float :=
  match a, b with
  | some x, some y =>
    if x.isEmpty || x.length != y.length then 0.0
    else
      let p := norm x
      let q := norm y
      if p == 0.0 || q == 0.0 then 0.0
      else Scalar.smaller (Scalar.larger (dot x y / (p * q)) 0.0) 1.0
  | _, _ => 0.0

end Compendium.Search
