import Compendium.Number.Binary

/-! Numbers with a fixed number of decimal places. -/
namespace Compendium.Number

/-- `n / 10 ^ places` in positional form. -/
def placed (places n : Nat) : List Char :=
  if places = 0 then digits n
  else
    let frac := digits (n % tenTo places)
    digits (n / tenTo places) ++ '.' :: (List.replicate (places - frac.length) '0' ++ frac)

/-- A number with `places` decimals, rounded from its exact value; a half goes to the even neighbour. -/
def fixed (places : Nat) (x : Float) : String :=
  match Binary.ofFloat x with
  | .undefined => "nan"
  | .infinite negative => if negative then "-inf" else "inf"
  | .finite negative m e =>
    let q := quotientOf m e
    let body := placed places (roundDiv (q.1 * tenTo places) q.2)
    String.ofList (if negative then '-' :: body else body)

end Compendium.Number
