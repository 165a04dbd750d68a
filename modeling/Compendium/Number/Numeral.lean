import Compendium.Number.Digit
import Compendium.Number.Shortest
import Compendium.Text.Blank

/-! Numbers as users write them: whole, or with a decimal point. -/
namespace Compendium.Number

open Compendium.Text (trim)

/-- A whole number of any size, or a double-precision number. -/
inductive Numeral where
  | whole (n : Int)
  | decimal (x : Float)

def Numeral.text : Numeral → String
  | .whole n => toString n
  | .decimal x => shortest x

/-- The double-precision value; a whole number past the largest finite one is infinite. -/
def Numeral.toFloat : Numeral → Float
  | .whole n => ofQuotient (n < 0) n.natAbs 1
  | .decimal x => x

/-- Splits off a sign; true for a minus. -/
def splitSign : List Char → Bool × List Char
  | '-' :: r => (true, r)
  | '+' :: r => (false, r)
  | s => (false, s)

/-- Reads digits, a low line allowed between two of them, into the number so far and how many there were. -/
def digitRun : (value count : Nat) → List Char → Nat × Nat × List Char
  | value, count, [] => (value, count, [])
  | value, count, '_' :: c :: r =>
    match digitValue? c with
    | some d => if count = 0 then (value, count, '_' :: c :: r) else digitRun (value * 10 + d) (count + 1) r
    | none => (value, count, '_' :: c :: r)
  | value, count, c :: r =>
    match digitValue? c with
    | some d => digitRun (value * 10 + d) (count + 1) r
    | none => (value, count, c :: r)

def maxDigits : Nat := 4300

/-- A whole number with blanks around it, a sign and low lines between digits allowed. -/
def readInt? (s : List Char) : Option Int :=
  let (negative, body) := splitSign (trim s)
  let (value, count, rest) := digitRun 0 0 body
  if count = 0 || maxDigits < count || !rest.isEmpty then none
  else some (if negative then -(value : Int) else value)

/-- `mantissa * 10 ^ power`; a power beyond every double-precision number is cut to zero or infinity
before it is computed. -/
def scaled (negative : Bool) (mantissa count : Nat) (power : Int) : Float :=
  if mantissa = 0 then ofQuotient negative 0 1
  else if 400 < power + count then ofQuotient negative (twoTo 1100) 1
  else if power + count < -400 then ofQuotient negative 0 1
  else if 0 ≤ power then ofQuotient negative (mantissa * tenTo power.toNat) 1
  else ofQuotient negative mantissa (tenTo (-power).toNat)

def readExponent? : List Char → Option Int
  | [] => some 0
  | c :: r =>
    if c = 'e' || c = 'E' then
      let (negative, body) := splitSign r
      let (value, count, rest) := digitRun 0 0 body
      if count = 0 || !rest.isEmpty then none else some (if negative then -(value : Int) else value)
    else none

/-- An unsigned decimal number: digits with a point before, among or behind them, then an exponent. -/
def readUnsigned? (negative : Bool) (s : List Char) : Option Float :=
  let (value, count, rest) := digitRun 0 0 s
  match rest with
  | '.' :: r =>
    if r.head? = some '_' then none
    else
      let (value', count', rest') := digitRun value 0 r
      if count + count' = 0 then none
      else (readExponent? rest').map fun e => scaled negative value' (count + count') (e - count')
  | _ =>
    if count = 0 then none else (readExponent? rest).map fun e => scaled negative value count e

/-- A double-precision number with blanks around it; the names of infinity and of the undefined number
are known in either case. -/
def readFloat? (s : List Char) : Option Float :=
  let (negative, body) := splitSign (trim s)
  let name := String.ofList (body.map Char.toLower)
  if name = "inf" || name = "infinity" then some (if negative then -1.0 / 0.0 else 1.0 / 0.0)
  else if name = "nan" then some (0.0 / 0.0)
  else readUnsigned? negative body

end Compendium.Number
