import Compendium.Fault
import Compendium.Json.Basic
import Compendium.Keyed
import Compendium.Level
import Compendium.Number.Decimal
import Compendium.Time.Iso

/-! Log records and the line that shows one. -/
namespace Compendium

open Number (Numeral)

/-- A log record. `attributes` holds the fields in the order in which they were first set; some of them
have a place of their own in the line. -/
structure Record where
  level : String
  source : String
  origin : Option String
  message : String
  attributes : List (String × Json)
  /-- The line that tells what failed, shown below the record. -/
  failure : Option String

namespace Record

/-- Attributes that belong to the record itself and are never shown as fields. -/
def ownAttributes : List String :=
  ["name", "msg", "args", "levelname", "levelno", "pathname", "filename", "module", "lineno", "funcName", "created",
    "msecs", "relativeCreated", "thread", "threadName", "processName", "process", "taskName", "getMessage", "exc_info",
    "exc_text", "stack_info", "message"]

def leadingAttributes : List String := ["trace_id", "op", "ms", "duration_ms"]

/-- Whether a value counts as given: neither missing nor false, zero or empty. -/
def isGiven : Json → Bool
  | .null => false
  | .bool b => b
  | .number (.whole n) => n != 0
  | .number (.decimal x) => x != 0.0
  | .text s => !s.isEmpty
  | .list items => !items.isEmpty
  | .object fields => !fields.isEmpty

def attribute? (key : String) (r : Record) : Option Json := (r.attributes.find? fun f => f.1 = key).map (·.2)

/-- Sets an attribute after the record was made; some of them change the record itself. -/
def set (key : String) (value : Json) (r : Record) : Record :=
  if key = "name" then { r with source := value.display }
  else if key = "msg" then { r with message := value.display }
  else if key = "levelname" then { r with level := value.display }
  else if key = "funcName" then { r with origin := if isGiven value then some value.display else none }
  else { r with attributes := Json.setField key value r.attributes }

/-- A value as a field shows it: marked when it is empty or holds a space. -/
def rendered (v : Json) : String :=
  let s := v.display
  if s.isEmpty || s.toList.contains ' ' then "\"" ++ s ++ "\"" else s

def fieldText (f : String × Json) : String := " " ++ f.1 ++ "=" ++ rendered f.2

/-- The part of a dotted name behind its last dot. -/
def lastPart (name : String) : String :=
  String.ofList (name.toList.reverse.takeWhile (· != '.')).reverse

def durationText : Option Json → String
  | some (.number n) => " ms=" ++ Number.fixed 1 n.toFloat
  | some (.bool b) => " ms=" ++ Number.fixed 1 (if b then 1.0 else 0.0)
  | _ => ""

/-- The trace that a line names: the current one, else the record's own. -/
def traceText (current : Option String) (r : Record) : String :=
  match current with
  | some t => if t.isEmpty then own else t
  | none => own
where
  own : String :=
    match r.attribute? "trace_id" with
    | some v => if isGiven v then v.display else "-"
    | none => "-"

/-- The operation that a line names: the one given as a field, else the place that logged. -/
def operationText (r : Record) : String :=
  let place := match r.origin with
    | some f => if f.isEmpty then "-" else f
    | none => "-"
  match r.attribute? "op" with
  | some v => if isGiven v then v.display else place
  | none => place

def fieldsText (r : Record) : String :=
  String.join ((r.attributes.filter fun f =>
    !ownAttributes.contains f.1 && !leadingAttributes.contains f.1).map fieldText)

/-- The duration that a record holds, under either of two names. -/
def duration? (r : Record) : Option Json :=
  match r.attribute? "ms" with
  | some v => some v
  | none => r.attribute? "duration_ms"

def durationDefect? (r : Record) : Option Fault :=
  match r.duration? with
  | some (.text _) => some (.raised .value "Unknown format code 'f' for object of type 'str'")
  | some (.list _) => some (.raised .type "unsupported format string passed to list.__format__")
  | some (.object _) => some (.raised .type "unsupported format string passed to dict.__format__")
  | some (.number (.whole n)) => if (Number.ofInt? n).isNone then some (.vector .tooLarge) else none
  | _ => none

def line (now : Time) (current : Option String) (r : Record) : String :=
  "t=" ++ now.iso ++ " level=" ++ r.level ++ " trace=" ++ traceText current r ++ " mod=" ++ lastPart r.source ++
    " op=" ++ operationText r ++ durationText r.duration? ++ " msg=\"" ++ r.message ++ "\"" ++ fieldsText r ++
    (match r.failure with
      | some f => "\n" ++ f
      | none => "")

/-- The fields that a logging call passes on: those that are not the record's own. The trace is always the
current one. -/
def passedOn (fields : List (String × Json)) : List (String × Json) :=
  fields.foldl (fun kept f =>
    if ownAttributes.contains f.1 || f.1 = "trace_id" then kept else Json.setField f.1 f.2 kept) []

def ofCall (level : Level) (source origin message : String) (fields : List (String × Json)) : Record :=
  ⟨level.name, source, some origin, message, passedOn fields, none⟩

end Record

end Compendium
