import Compendium.Number.Numeral
import Compendium.Text.Quoted

/-! Structured values: the data of request bodies, metadata trailers, settings and log fields. -/
namespace Compendium

open Number (Numeral)

inductive Json where
  | null
  | bool (b : Bool)
  | number (n : Numeral)
  | text (s : String)
  | list (items : List Json)
  | object (fields : List (String × Json))
  deriving Inhabited

namespace Json

def int (n : Int) : Json := .number (.whole n)

def nat (n : Nat) : Json := .number (.whole n)

/-- Sets a field: an old value is replaced in its place, a new field comes last. -/
def setField (key : String) (value : Json) : List (String × Json) → List (String × Json)
  | [] => [(key, value)]
  | (k, v) :: r => if k = key then (k, value) :: r else (k, v) :: setField key value r

def field? (key : String) : Json → Option Json
  | .object fields => (fields.find? fun f => f.1 = key).map (·.2)
  | _ => none

/-- The value of a field that is there and is not null. -/
def given? (key : String) (j : Json) : Option Json :=
  match j.field? key with
  | some .null => none
  | found => found

def text? : Json → Option String
  | .text s => some s
  | _ => none

def int? : Json → Option Int
  | .number (.whole n) => some n
  | _ => none

def bool? : Json → Option Bool
  | .bool b => some b
  | _ => none

def list? : Json → Option (List Json)
  | .list items => some items
  | _ => none

def fields? : Json → Option (List (String × Json))
  | .object fields => some fields
  | _ => none

def float? : Json → Option Float
  | .number n => some n.toFloat
  | _ => none

mutual

/-- A value inside a list or object, as log lines show it: texts are quoted. -/
def shown : Json → String
  | .null => "None"
  | .bool b => if b then "True" else "False"
  | .number n => n.text
  | .text s => Text.quoted s
  | .list items => "[" ++ ", ".intercalate (shownItems items) ++ "]"
  | .object fields => "\x7b" ++ ", ".intercalate (shownFields fields) ++ "\x7d"

def shownItems : List Json → List String
  | [] => []
  | v :: r => shown v :: shownItems r

def shownFields : List (String × Json) → List String
  | [] => []
  | (k, v) :: r => (Text.quoted k ++ ": " ++ shown v) :: shownFields r

end

/-- A value by itself, as log lines show it: a text stands unquoted. -/
def display : Json → String
  | .text s => s
  | v => v.shown

end Json

end Compendium
