import Compendium.Number.Power

/-! Rounding a quotient to the nearest whole number. -/
namespace Compendium.Number

/-- The whole number nearest to `num / den`; a half goes to the even neighbour. -/
def roundDiv (num den : Nat) : Nat :=
  let q := num / den
  let r := num % den
  if 2 * r < den then q
  else if den < 2 * r then q + 1
  else if q % 2 = 0 then q else q + 1

/-- The decimal digits of a number, most significant first. -/
def digits (n : Nat) : List Char := (toString n).toList

end Compendium.Number
