import Compendium.Number.Round

/-! The double-precision numbers as exact quantities. -/
namespace Compendium.Number

/-- A double-precision number taken apart: a finite one is `mantissa * 2 ^ exponent`. -/
inductive Binary where
  | finite (negative : Bool) (mantissa : Nat) (exponent : Int)
  | infinite (negative : Bool)
  | undefined
  deriving DecidableEq, Repr

def leastExponent : Int := -1074

def Binary.ofFloat (x : Float) : Binary :=
  let bits := x.toBits.toNat
  let negative := bits / twoTo 63 = 1
  let e : Nat := bits / twoTo 52 % 2048
  let m := bits % twoTo 52
  if e = 2047 then if m = 0 then .infinite negative else .undefined
  else if e = 0 then .finite negative m leastExponent
  else .finite negative (m + twoTo 52) ((e : Int) - 1075)

def quotientOf (m : Nat) (e : Int) : Nat × Nat :=
  if 0 ≤ e then (m * twoTo e.toNat, 1) else (m, twoTo (-e).toNat)

/-- The exponent that leaves 53 binary digits before the point of `num / den`, but never one below the least. -/
def roundingExponent (num den : Nat) : Int :=
  let guess : Int := (num.log2 : Int) - (den.log2 : Int) - 52
  let fits := if 0 ≤ guess then twoTo 52 * (den * twoTo guess.toNat) ≤ num
    else twoTo 52 * den ≤ num * twoTo (-guess).toNat
  max leastExponent (if fits then guess else guess - 1)

/-- The double-precision number nearest to `num / den`, a tie going to the even one; past the largest
finite number it is infinite. -/
def ofQuotient (negative : Bool) (num den : Nat) : Float :=
  if num = 0 then if negative then -0.0 else 0.0
  else
    let e := roundingExponent num den
    let m := if 0 ≤ e then roundDiv num (den * twoTo e.toNat) else roundDiv (num * twoTo (-e).toNat) den
    -- a mantissa that rounded up to 2 ^ 53 carries into the exponent field by addition
    let field := if m < twoTo 52 then m else (e + 1075).toNat * twoTo 52 + (m - twoTo 52)
    let field := min field (2047 * twoTo 52)
    Float.ofBits (UInt64.ofNat (if negative then twoTo 63 + field else field))

/-- The double-precision number nearest to a whole number; none when it lies past the largest finite one. -/
def ofInt? (n : Int) : Option Float :=
  let x := ofQuotient (n < 0) n.natAbs 1
  if x.isFinite then some x else none

end Compendium.Number
