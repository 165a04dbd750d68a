import Compendium.Number.Binary

/-! The shortest decimal text that reads back as the same double-precision number. -/
namespace Compendium.Number

/-- The power of ten that leads a positive quotient: `10 ^ p ≤ num / den < 10 ^ (p + 1)`. -/
def leadingPower (num den : Nat) : Int :=
  if den ≤ num then ((digits (num / den)).length : Int) - 1
  else
    let t := (digits (den / num)).length - 1
    if den ≤ num * tenTo t then -(t : Int) else -(t + 1 : Int)

/-- The numbers that round to `m * 2 ^ e`, as two ends and the middle over one denominator. The lower end
lies at half the distance when `m` is the least mantissa of its exponent. -/
structure Interval where
  low : Nat
  mid : Nat
  high : Nat
  den : Nat
  closed : Bool

def Interval.around (m : Nat) (e : Int) : Interval :=
  let q := quotientOf 1 e
  let step := if m = twoTo 52 && leastExponent < e then 1 else 2
  ⟨(4 * m - step) * q.1, 4 * m * q.1, (4 * m + 2) * q.1, 4 * q.2, m % 2 = 0⟩

def Interval.contains (i : Interval) (a b : Nat) : Bool :=
  if i.closed then i.low * b ≤ a * i.den && a * i.den ≤ i.high * b
  else i.low * b < a * i.den && a * i.den < i.high * b

/-- The point of the grid of multiples of `10 ^ p` that rounds to the middle, if there is one: of two the
nearer, of two equally near the even. -/
def Interval.gridPoint? (i : Interval) (p : Int) : Option Nat :=
  let up := if 0 ≤ p then tenTo p.toNat else 1
  let down := if 0 ≤ p then 1 else tenTo (-p).toNat
  let below := i.mid * down / (i.den * up)
  let near := roundDiv (i.mid * down) (i.den * up)
  let other := if near = below then below + 1 else below
  if i.contains (near * up) down then some near
  else if i.contains (other * up) down then some other
  else none

def shortestFrom (i : Interval) (power : Int) : (fuel count : Nat) → Nat × Int
  | 0, count => (roundDiv i.mid i.den, power - count + 1)
  | fuel + 1, count =>
    let p := power - count + 1
    match i.gridPoint? p with
    | some n => (n, p)
    | none => shortestFrom i power fuel (count + 1)

/-- The fewest digits `n` and the power `p` such that `n * 10 ^ p` reads back as `m * 2 ^ e`. -/
def shortestDigits (m : Nat) (e : Int) : Nat × Int :=
  let i := Interval.around m e
  shortestFrom i (leadingPower i.mid i.den) 17 1

/-- Digits without the zeros at their end, with the power that makes up for them. -/
def dropZeros (ds : List Char) (p : Int) : List Char × Int :=
  let kept := (ds.reverse.dropWhile (· = '0')).reverse
  (kept, p + (ds.length - kept.length : Nat))

/-- A positive number: positional from `10 ^ -4` to below `10 ^ 16`, with at least one decimal, and
scientific outside, with at least two digits of exponent. -/
def shortestText (m : Nat) (e : Int) : List Char :=
  let found := shortestDigits m e
  let (ds, p) := dropZeros (digits found.1) found.2
  let lead : Int := p + ds.length - 1
  if -4 ≤ lead ∧ lead < 16 then
    if lead < 0 then '0' :: '.' :: (List.replicate (-lead - 1).toNat '0' ++ ds)
    else
      let whole := lead.toNat + 1
      let padded := ds ++ List.replicate (whole - ds.length) '0'
      let frac := padded.drop whole
      padded.take whole ++ '.' :: (if frac.isEmpty then ['0'] else frac)
  else
    let mark := if ds.length ≤ 1 then ds else ds.take 1 ++ '.' :: ds.drop 1
    let exponent := digits lead.natAbs
    mark ++ 'e' :: (if lead < 0 then '-' else '+') :: (List.replicate (2 - exponent.length) '0' ++ exponent)

def shortest (x : Float) : String :=
  match Binary.ofFloat x with
  | .undefined => "nan"
  | .infinite negative => if negative then "-inf" else "inf"
  | .finite negative m e =>
    let body := if m = 0 then ['0', '.', '0'] else shortestText m e
    String.ofList (if negative then '-' :: body else body)

end Compendium.Number
