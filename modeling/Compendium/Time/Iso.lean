import Compendium.Time.Basic
import Compendium.Number.Round

/-! The written form of times, `2024-03-01T12:00:00.250000+02:00`, and its reader. -/
namespace Compendium.Time

open Compendium.Number (digits tenTo)

/-- A number with zeros in front up to `width` digits. -/
def padded (width n : Nat) : List Char :=
  let ds := digits n
  List.replicate (width - ds.length) '0' ++ ds

/-- The fraction of a second, left out when it is zero. -/
def fractionText (micro : Nat) : List Char := if micro = 0 then [] else '.' :: padded 6 micro

/-- An offset as sign, hours and minutes, with seconds and a fraction where they are not zero. -/
def offsetText (offset : Int) : List Char :=
  let n := offset.natAbs
  let s := n / Compendium.second
  let tail := if n % (60 * Compendium.second) = 0 then []
    else ':' :: padded 2 (s % 60) ++ fractionText (n % Compendium.second)
  (if offset < 0 then '-' else '+') :: padded 2 (s / 3600) ++ ':' :: padded 2 (s / 60 % 60) ++ tail

def isoChars (t : Time) : List Char :=
  padded 4 t.year ++ '-' :: padded 2 t.month ++ '-' :: padded 2 t.day ++ 'T' ::
    padded 2 t.hour ++ ':' :: padded 2 t.minute ++ ':' :: padded 2 t.second ++ fractionText t.micro ++
    (match t.offset with
      | some o => offsetText o
      | none => [])

def iso (t : Time) : String := String.ofList t.isoChars

def readDigits? : (count value : Nat) → List Char → Option (Nat × List Char)
  | 0, value, s => some (value, s)
  | count + 1, value, c :: r => if c.isDigit then readDigits? count (value * 10 + (c.toNat - 48)) r else none
  | _ + 1, _, [] => none

/-- Where the date ends: it may be written with or without dashes, by month and day or by week. The two
forms of a week are told apart by the digits that follow. -/
def dateLength? (s : List Char) : Option Nat :=
  let at' (i : Nat) : Option Char := s[i]?
  let isDigitAt (i : Nat) : Bool := (at' i).any Char.isDigit
  if s.length < 7 then none
  else if s.length = 7 then some 7
  else if at' 4 = some '-' then
    if at' 5 = some 'W' then
      if at' 8 = some '-' then
        if s.length = 9 then none else if isDigitAt 10 then some 8 else some 10
      else some 8
    else some 10
  else if at' 4 = some 'W' then
    let pos := 7 + ((s.drop 7).takeWhile Char.isDigit).length
    some (if pos < 9 then pos else if pos % 2 = 0 then 7 else 8)
  else some 8

/-- Drops the dash if the text is written with dashes; none when it is missing. -/
def dropDash? (dashed : Bool) (s : List Char) : Option (List Char) :=
  if dashed then
    match s with
    | '-' :: r => some r
    | _ => none
  else some s

/-- Reads a date of `length` characters at the front. -/
def readDate? (length : Nat) (s : List Char) : Option (Nat × Nat × Nat) := do
  let (year, r) ← readDigits? 4 0 s
  let dashed := r.head? = some '-'
  let r := if dashed then r.drop 1 else r
  if r.head? = some 'W' then
    let (week, r) ← readDigits? 2 0 (r.drop 1)
    if s.length - r.length < length then
      let r ← dropDash? dashed r
      let (day, _) ← readDigits? 1 0 r
      Calendar.ofWeek? year week day
    else Calendar.ofWeek? year week 1
  else
    let (month, r) ← readDigits? 2 0 r
    let r ← dropDash? dashed r
    let (day, _) ← readDigits? 2 0 r
    return (year, month, day)

structure Clock where
  hour : Nat
  minute : Nat
  second : Nat
  micro : Nat
  open' : Bool

/-- Reads the fraction of a second from the first `length` characters; digits past the sixth are dropped. -/
def readFraction? (h m s length : Nat) (text : List Char) : Option Clock := do
  let count := min 6 length
  let (value, r) ← readDigits? count 0 text
  let rest := r.dropWhile Char.isDigit
  return ⟨h, m, s, value * tenTo (6 - count), !rest.isEmpty⟩

def isPoint (c : Option Char) : Bool := c = some '.' || c = some ','

/-- Reads hours, minutes, seconds and a fraction from the first `length` characters of a text. A colon
behind the hours asks for one behind the minutes; a point or comma leads to the fraction at once. What
stands at the end of the part is not looked at. -/
def readClock? (length : Nat) (text : List Char) : Option Clock := do
  let (h, r) ← readDigits? 2 0 text
  let colon := r.head? = some ':'
  if length ≤ 3 then return ⟨h, 0, 0, 0, !r.isEmpty⟩
  if isPoint r.head? then return ← readFraction? h 0 0 (length - 3) (r.drop 1)
  let r := if colon then r.drop 1 else r
  let used := if colon then 3 else 2
  let (m, r) ← readDigits? 2 0 r
  if length ≤ used + 3 then return ⟨h, m, 0, 0, !r.isEmpty⟩
  if isPoint r.head? then return ← readFraction? h m 0 (length - (used + 3)) (r.drop 1)
  if colon && r.head? != some ':' then none
  let r := if colon then r.drop 1 else r
  let used := if colon then used + 3 else used + 2
  let (s, r) ← readDigits? 2 0 r
  if length ≤ used + 3 then return ⟨h, m, s, 0, !r.isEmpty⟩
  if isPoint r.head? || (colon && r.head? = some ':') then
    return ← readFraction? h m s (length - (used + 3)) (r.drop 1)
  if colon then none
  readFraction? h m s (length - (used + 2)) r

def isZoneMark (c : Char) : Bool := c = '+' || c = '-' || c = 'Z'

/-- The offset that a written one is taken for: one of less than a second counts as none. -/
def keptOffset (offset : Int) : Int := if offset.natAbs < Compendium.second then 0 else offset

/-- Reads a time of day and, behind it, `Z` or an offset. -/
def readTimeOfDay? (text : List Char) : Option (Clock × Option Int) := do
  let length := (text.takeWhile fun c => !isZoneMark c).length
  let clock ← readClock? length text
  match text.drop length with
  | [] => if clock.open' then none else return (clock, none)
  | 'Z' :: r => if r.isEmpty then return (clock, some 0) else none
  | mark :: r =>
    let zone ← readClock? r.length r
    if zone.open' then none
    let n : Int := ((zone.hour * 60 + zone.minute) * 60 + zone.second) * Compendium.second + zone.micro
    return (clock, some (keptOffset (if mark = '-' then -n else n)))

/-- Reads a time: a date, then any one character and a time of day if anything follows. -/
def ofIsoChars? (s : List Char) : Option Time := do
  let length ← dateLength? s
  let (year, month, day) ← readDate? length s
  let rest := s.drop length
  let (clock, offset) ← if rest.isEmpty then some (⟨0, 0, 0, 0, false⟩, none) else readTimeOfDay? (rest.drop 1)
  let t : Time := ⟨year, month, day, clock.hour, clock.minute, clock.second, clock.micro, offset⟩
  if t.isValid then return t else none

def ofIso? (s : String) : Option Time := ofIsoChars? s.toList

end Compendium.Time
