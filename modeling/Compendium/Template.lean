import Compendium.Fault
import Compendium.Json.Basic
import Compendium.Number.Decimal

/-! Messages with places that values are put into. -/
namespace Compendium.Template

inductive Defect where
  | tooFew
  | tooMany
  | incomplete
  | openKey
  | noFields
  | unknownKey (key : String)
  | noNumber (mark : Char) (what : String)
  | noWhole (mark : Char) (what : String)
  | unknownMark (mark : Char) (position : Nat)

def Defect.fault : Defect → Fault
  | .tooFew => .raised .type "not enough arguments for format string"
  | .tooMany => .raised .type "not all arguments converted during string formatting"
  | .incomplete => .raised .value "incomplete format"
  | .openKey => .raised .value "incomplete format key"
  | .noFields => .raised .type "format requires a mapping"
  | .unknownKey key => .raised .key key
  | .noNumber 'f' what => .raised .type ("must be real number, not " ++ what)
  | .noNumber mark what =>
    .raised .type ("%" ++ String.singleton mark ++ " format: a real number is required, not " ++ what)
  | .noWhole mark what =>
    .raised .type ("%" ++ String.singleton mark ++ " format: an integer is required, not " ++ what)
  | .unknownMark mark position =>
    .raised .value ("unsupported format character '" ++ String.singleton mark ++ "' (0x" ++
      String.ofList (Nat.toDigits 16 mark.toNat) ++ ") at index " ++ toString position)

/-- A place for a value: the field that is meant, how the value is set, and the mark that tells its kind. -/
structure Slot where
  key : Option String
  flags : List Char
  width : Nat
  places : Option Nat
  mark : Char
  position : Nat

inductive Piece where
  | plain (c : Char)
  | slot (s : Slot)
  | broken (d : Defect)

/-- Reads a number at the front; none is zero. -/
def readCount (s : List Char) : Nat × List Char :=
  ((s.takeWhile Char.isDigit).foldl (fun n c => n * 10 + (c.toNat - 48)) 0, s.dropWhile Char.isDigit)

def readPlaces : List Char → Option Nat × List Char
  | '.' :: r => (some (readCount r).1, (readCount r).2)
  | s => (none, s)

/-- A letter for the size of a number, which says nothing here. -/
def dropSize : List Char → List Char
  | 'h' :: r => r
  | 'l' :: r => r
  | 'L' :: r => r
  | s => s

/-- The characters up to the bracket that closes `depth` open ones, and what stands behind it. -/
def readKey? : (depth : Nat) → List Char → Option (List Char × List Char)
  | _, [] => none
  | depth, c :: r =>
    if c = ')' then
      match depth with
      | 0 => some ([], r)
      | depth + 1 => (readKey? depth r).map fun p => (c :: p.1, p.2)
    else (readKey? (if c = '(' then depth + 1 else depth) r).map fun p => (c :: p.1, p.2)

def isFlag (c : Char) : Bool := c = '-' || c = '+' || c = ' ' || c = '#' || c = '0'

/-- Reads what stands behind a percent sign and the key, if there is one. -/
def readSlot (key : Option String) (length : Nat) (s : List Char) : Piece × List Char :=
  let flags := s.takeWhile isFlag
  let (width, r) := readCount (s.dropWhile isFlag)
  let (places, r) := readPlaces r
  match dropSize r with
  | [] => (.broken .incomplete, [])
  | mark :: r => (.slot ⟨key, flags, width, places, mark, length - r.length - 1⟩, r)

/-- Cuts a message of some length into pieces. Every piece takes one unit of fuel, of which there is one for
each character. -/
def pieces (length : Nat) : (fuel : Nat) → List Char → List Piece
  | 0, _ => []
  | _ + 1, [] => []
  | fuel + 1, '%' :: '%' :: r => .plain '%' :: pieces length fuel r
  | fuel + 1, '%' :: '(' :: r =>
    match readKey? 0 r with
    | none => [.broken .openKey]
    | some (key, r) =>
      let (piece, r) := readSlot (some (String.ofList key)) length r
      piece :: pieces length fuel r
  | fuel + 1, '%' :: r =>
    let (piece, r) := readSlot none length r
    piece :: pieces length fuel r
  | fuel + 1, c :: r => .plain c :: pieces length fuel r

def kindOf : Json → String
  | .null => "NoneType"
  | .bool _ => "bool"
  | .number (.whole _) => "int"
  | .number (.decimal _) => "float"
  | .text _ => "str"
  | .list _ => "list"
  | .object _ => "dict"

/-- The number that a value is; truth values count as one and zero. -/
def number? : Json → Option Number.Numeral
  | .number n => some n
  | .bool b => some (.whole (if b then 1 else 0))
  | _ => none

def wholePart (x : Float) : Int :=
  match Number.Binary.ofFloat x with
  | .finite negative m e =>
    let q := (Number.quotientOf m e).1 / (Number.quotientOf m e).2
    if negative then -(q : Int) else q
  | _ => 0

def Slot.has (s : Slot) (c : Char) : Bool := s.flags.contains c

/-- Fills up to the width of a slot: behind the value, between its sign and its digits, or before both. -/
def Slot.aligned (s : Slot) (zeros : Bool) (sign body : List Char) : List Char :=
  let missing := s.width - (sign.length + body.length)
  if s.has '-' then sign ++ body ++ List.replicate missing ' '
  else if zeros && s.has '0' then sign ++ List.replicate missing '0' ++ body
  else List.replicate missing ' ' ++ sign ++ body

def Slot.sign (s : Slot) (negative : Bool) : List Char :=
  if negative then ['-'] else if s.has '+' then ['+'] else if s.has ' ' then [' '] else []

/-- A whole number in some base, with at least as many digits as the slot has places. -/
def Slot.wholeText (s : Slot) (base : Nat) (lead : List Char) (n : Int) : List Char :=
  let ds := Nat.toDigits base n.natAbs
  let ds := List.replicate (s.places.getD 0 - ds.length) '0' ++ ds
  s.aligned true (s.sign (n < 0) ++ if s.has '#' then lead else []) ds

/-- A number with the places of the slot, or six. -/
def Slot.fixedText (s : Slot) (x : Float) : List Char :=
  match (Number.fixed (s.places.getD 6) x).toList with
  | '-' :: body => s.aligned true (s.sign true) body
  | body => s.aligned true (s.sign false) body

def Slot.plainText (s : Slot) (text : String) : List Char :=
  s.aligned false [] (match s.places with
    | some n => text.toList.take n
    | none => text.toList)

/-- The base of a mark for whole numbers, with what stands in front of the digits if it is asked for. -/
def baseOf? (mark : Char) : Option (Nat × List Char) :=
  if mark = 'x' || mark = 'X' then some (16, ['0', mark]) else if mark = 'o' then some (8, ['0', 'o']) else none

def Slot.filled (s : Slot) (v : Json) : Except Defect (List Char) :=
  if s.mark = 's' then .ok (s.plainText v.display)
  else if s.mark = 'r' then .ok (s.plainText v.shown)
  else if s.mark = 'a' then .ok (s.plainText (Text.inAscii v.shown))
  else if s.mark = 'd' || s.mark = 'i' || s.mark = 'u' then
    match number? v with
    | some (.whole n) => .ok (s.wholeText 10 [] n)
    | some (.decimal x) => .ok (s.wholeText 10 [] (wholePart x))
    | none => .error (.noNumber s.mark (kindOf v))
  else if s.mark = 'f' || s.mark = 'F' then
    match number? v with
    | some n => .ok (s.fixedText n.toFloat)
    | none => .error (.noNumber 'f' (kindOf v))
  else
    match baseOf? s.mark with
    | none => .error (.unknownMark s.mark s.position)
    | some (base, lead) =>
      match number? v with
      | some (.whole n) =>
        let body := s.wholeText base lead n
        .ok (if s.mark = 'X' then body.map Char.toUpper else body)
      | _ => .error (.noWhole s.mark (kindOf v))

/-- Fills the slots with values in order, those with a key with the field of that name. -/
def fillPieces (fields : Option (List (String × Json))) : List Piece → List Json → Except Defect (List Char)
  | [], [] => .ok []
  | [], _ :: _ => if fields.isSome then .ok [] else .error .tooMany
  | .plain c :: r, vs => (fillPieces fields r vs).map (c :: ·)
  | .broken .openKey :: _, _ => .error (if fields.isSome then .openKey else .noFields)
  | .broken d :: _, _ => .error d
  | .slot s :: r, vs =>
    match s.key, fields, vs with
    | some _, none, _ => .error .noFields
    | some key, some fs, vs =>
      match (Json.object fs).field? key with
      | none => .error (.unknownKey key)
      | some v => do return (← s.filled v) ++ (← fillPieces fields r vs)
    | none, _, [] => .error .tooFew
    | none, _, v :: vs => do return (← s.filled v) ++ (← fillPieces fields r vs)

/-- A message with values in its places; without values it stands as it is. A single object gives its fields
to the places with keys. -/
def fill (message : String) (values : List Json) : Except Fault String :=
  if values.isEmpty then .ok message
  else
    let fields := match values with
      | [.object (f :: r)] => some (f :: r)
      | _ => none
    match fillPieces fields (pieces message.length (message.length + 1) message.toList) values with
    | .ok s => .ok (String.ofList s)
    | .error d => .error d.fault

end Compendium.Template
