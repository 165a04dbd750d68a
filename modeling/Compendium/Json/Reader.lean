import Compendium.Json.Basic

/-!
Reading structured values. They may be nested as deep as the text is long: there is no bound on the depth, such as a
stack of calls would have, for the fuel that the reading takes is the number of characters.
-/
namespace Compendium.Json

open Compendium.Number
open Compendium.Text (hexValue?)

def isSpace (c : Char) : Bool := c = ' ' || c = '\t' || c = '\n' || c = '\r'

def skipSpace (s : List Char) : List Char := s.dropWhile isSpace

def unit? (a b c d : Char) : Option Nat := do
  return (((← hexValue? a) * 16 + (← hexValue? b)) * 16 + (← hexValue? c)) * 16 + (← hexValue? d)

def pairChar (high low : Nat) : Char := Char.ofNat (0x10000 + (high - 0xD800) * 0x400 + (low - 0xDC00))

/-- The character of one unit; half of a pair by itself has none and becomes the replacement character. -/
def unitChar (n : Nat) : Char := if 0xD800 ≤ n && n < 0xE000 then Char.ofNat 0xFFFD else Char.ofNat n

def simpleEscape? (c : Char) : Option Char :=
  if c = '"' || c = '\\' || c = '/' then some c
  else if c = 'n' then some '\n'
  else if c = 'r' then some '\r'
  else if c = 't' then some '\t'
  else if c = 'b' then some '\x08'
  else if c = 'f' then some '\x0c'
  else none

/-- Reads a text after its opening mark up to its closing mark; `done` is the text so far, reversed. -/
def readText (done : List Char) : List Char → Option (List Char × List Char)
  | [] => none
  | '"' :: r => some (done.reverse, r)
  | '\\' :: 'u' :: a :: b :: c :: d :: '\\' :: 'u' :: e :: f :: g :: h :: r =>
    match unit? a b c d, unit? e f g h with
    | some m, some n =>
      if 0xD800 ≤ m && m < 0xDC00 && 0xDC00 ≤ n && n < 0xE000 then readText (pairChar m n :: done) r
      else readText (unitChar m :: done) ('\\' :: 'u' :: e :: f :: g :: h :: r)
    | some m, none => readText (unitChar m :: done) ('\\' :: 'u' :: e :: f :: g :: h :: r)
    | none, _ => none
  | '\\' :: 'u' :: a :: b :: c :: d :: r =>
    match unit? a b c d with
    | some m => readText (unitChar m :: done) r
    | none => none
  | '\\' :: c :: r =>
    match simpleEscape? c with
    | some x => readText (x :: done) r
    | none => none
  | c :: r => if c.toNat < 32 || c = '\\' then none else readText (c :: done) r

def digitsOf (s : List Char) : List Char × List Char := (s.takeWhile Char.isDigit, s.dropWhile Char.isDigit)

def valueOf (ds : List Char) : Nat := ds.foldl (fun n c => n * 10 + (c.toNat - 48)) 0

/-- The decimals behind a point, if a digit follows it. -/
def readDecimals : List Char → List Char × List Char
  | '.' :: c :: r => if c.isDigit then digitsOf (c :: r) else ([], '.' :: c :: r)
  | s => ([], s)

def readPower? : List Char → Option Int × List Char
  | c :: r =>
    if c = 'e' || c = 'E' then
      let (negative, body) := splitSign r
      let (ds, rest) := digitsOf body
      if ds.isEmpty then (none, c :: r)
      else (some (if negative then -(valueOf ds : Int) else valueOf ds), rest)
    else (none, c :: r)
  | [] => (none, [])

/-- A number without its sign: digits with no zero in front, then decimals, then an exponent. -/
def readNumber? (negative : Bool) (s : List Char) : Option (Numeral × List Char) :=
  let (ds, rest) :=
    match s with
    | '0' :: r => (['0'], r)
    | _ => digitsOf s
  if ds.isEmpty then none
  else
    let (frac, rest') := readDecimals rest
    let (power, rest'') := readPower? rest'
    if frac.isEmpty && power.isNone then
      if maxDigits < ds.length then none
      else some (.whole (if negative then -(valueOf ds : Int) else valueOf ds), rest'')
    else
      let x := scaled negative (valueOf (ds ++ frac)) (ds.length + frac.length) (power.getD 0 - frac.length)
      some (.decimal x, rest'')

def after? (word : String) (s : List Char) : Option (List Char) :=
  if word.toList.isPrefixOf s then some (s.drop word.length) else none

/-- A value that needs no bracket: a name or a number. -/
def readAtom? (s : List Char) : Option (Json × List Char) :=
  match after? "null" s, after? "true" s, after? "false" s, after? "NaN" s, after? "Infinity" s,
    after? "-Infinity" s with
  | some r, _, _, _, _, _ => some (.null, r)
  | _, some r, _, _, _, _ => some (.bool true, r)
  | _, _, some r, _, _, _ => some (.bool false, r)
  | _, _, _, some r, _, _ => some (.number (.decimal (0.0 / 0.0)), r)
  | _, _, _, _, some r, _ => some (.number (.decimal (1.0 / 0.0)), r)
  | _, _, _, _, _, some r => some (.number (.decimal (-1.0 / 0.0)), r)
  | _, _, _, _, _, _ =>
    match s with
    | '-' :: r => (readNumber? true r).map fun p => (.number p.1, p.2)
    | _ => (readNumber? false s).map fun p => (.number p.1, p.2)

mutual

/-- Reads a value at the front. Every level and every item takes one unit of fuel, of which there is one
for each character. -/
def readValue : (fuel : Nat) → List Char → Option (Json × List Char)
  | 0, _ => none
  | fuel + 1, s =>
    match s with
    | '"' :: r => (readText [] r).map fun p => (.text (String.ofList p.1), p.2)
    | '[' :: r =>
      match skipSpace r with
      | ']' :: r' => some (.list [], r')
      | r' => readItems fuel [] r'
    | '\x7b' :: r =>
      match skipSpace r with
      | '\x7d' :: r' => some (.object [], r')
      | r' => readFields fuel [] r'
    | _ => readAtom? s

/-- Reads the items of a list from an item on; `done` are the items so far, reversed. -/
def readItems : (fuel : Nat) → (done : List Json) → List Char → Option (Json × List Char)
  | 0, _, _ => none
  | fuel + 1, done, s =>
    match readValue fuel s with
    | none => none
    | some (v, r) =>
      match skipSpace r with
      | ',' :: r' => readItems fuel (v :: done) (skipSpace r')
      | ']' :: r' => some (.list (v :: done).reverse, r')
      | _ => none

def readFields : (fuel : Nat) → (done : List (String × Json)) → List Char → Option (Json × List Char)
  | 0, _, _ => none
  | fuel + 1, done, s =>
    match s with
    | '"' :: r =>
      match readText [] r with
      | none => none
      | some (k, r1) =>
        match skipSpace r1 with
        | ':' :: r2 =>
          match readValue fuel (skipSpace r2) with
          | none => none
          | some (v, r3) =>
            let done' := setField (String.ofList k) v done
            match skipSpace r3 with
            | ',' :: r4 => readFields fuel done' (skipSpace r4)
            | '\x7d' :: r4 => some (.object done', r4)
            | _ => none
        | _ => none
    | _ => none

end

/-- The value that a whole text writes, blanks around it allowed, and however deep it is nested. -/
def parse? (s : List Char) : Option Json :=
  match readValue (s.length + 1) (skipSpace s) with
  | some (v, r) => if (skipSpace r).isEmpty then some v else none
  | none => none

end Compendium.Json
