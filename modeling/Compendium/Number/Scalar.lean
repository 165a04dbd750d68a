/-! The arithmetic that scores are computed in. -/
namespace Compendium.Number

/-- What scoring needs of its numbers. Comparisons are decided, so that a number which compares with
nothing is allowed. -/
class Scalar (K : Type) extends Add K, Sub K, Mul K, Div K where
  ofNat : Nat → K
  lt : K → K → Bool
  le : K → K → Bool

instance : Scalar Float where
  ofNat := Nat.toFloat
  lt a b := decide (a < b)
  le a b := decide (a ≤ b)

namespace Scalar

variable {K : Type} [Scalar K]

def ratio (a b : Nat) : K := ofNat a / ofNat b

/-- The greater of two numbers; the first unless the second exceeds it. -/
def larger (a b : K) : K := if lt a b then b else a

def smaller (a b : K) : K := if lt b a then b else a

/-- The sum from left to right, starting at zero. -/
def sum (xs : List K) : K := xs.foldl (· + ·) (ofNat 0)

end Scalar

end Compendium.Number
