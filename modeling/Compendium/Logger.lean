import Compendium.Fault
import Compendium.Record

/-! Loggers: which calls are let through, and the line that a call writes. -/
namespace Compendium

/-- How something is logged: at a level, as an error with the line of what failed below it, or with the time
that it took. -/
inductive Method where
  | plain (level : Level)
  | failed
  | timed (duration : Json)

def Method.level : Method → Level
  | .plain level => level
  | .failed => .error
  | .timed _ => .info

def Method.name : Method → String
  | .plain level => String.ofList (level.name.toList.map Char.toLower)
  | .failed => "exception"
  | .timed _ => "timed"

/-- The names that a call takes for itself, so that no field can bear them. -/
def Method.taken : Method → List String
  | .timed _ => ["self", "msg", "duration_ms"]
  | _ => ["self", "msg"]

namespace Logger

/-- The failure of work that is given one of its names twice. -/
def twice (work name : String) : Fault :=
  .raised .type ("StructuredLogger." ++ work ++ "() got multiple values for argument '" ++ name ++ "'")

def twiceNamed (work name : String) : Fault :=
  .raised .type ("vulnkb.observability.logging.StructuredLogger." ++ work ++
    "() got multiple values for keyword argument '" ++ name ++ "'")

/-- The failure that fields cause by their names, when the call writes out the names `written` itself. -/
def clash? (m : Method) (written : List String) (fields : List (String × Json)) : Option Fault :=
  let names := fields.map (·.1)
  match names.find? written.contains, names.find? m.taken.contains with
  | some name, _ => some (twiceNamed m.name name)
  | none, some name => some (twice m.name name)
  | none, none =>
    match m with
    | .failed => if names.contains "exc_info" then some (twiceNamed "_log" "exc_info") else level names
    | _ => level names
where
  level (names : List String) : Option Fault := if names.contains "level" then some (twice "_log" "level") else none

/-- The failure of a call that is let through, when a field would take the place of the time as the line shows it. -/
def overwriting? (fields : List (String × Json)) : Option Fault :=
  if Keyed.has "asctime" fields then some (.raised .key "Attempt to overwrite 'asctime' in LogRecord") else none

end Logger

structure LogCall where
  source : String
  method : Method
  message : String
  fields : List (String × Json)

namespace LogCall

def tellsFailure (c : LogCall) : Bool :=
  match c.method with
  | .failed => true
  | _ => ((Keyed.get? "exc_info" c.fields).map Record.isGiven).getD false

/-- The record of a call from some place. A timed call counts as a place itself, and its time is its own. -/
def record (origin : String) (c : LogCall) : Record :=
  let (origin, fields) := match c.method with
    | .timed duration => ("timed", Json.setField "ms" duration c.fields)
    | _ => (origin, c.fields)
  let source := if c.source.isEmpty then "root" else c.source
  { Record.ofCall c.method.level source origin c.message fields with
    failure := if c.tellsFailure then some "NoneType: None" else none }

end LogCall

/-- Loggers with the number that a level has to reach, and the current trace. -/
structure Logger where
  threshold : Nat
  trace : Option String := none

namespace Logger

/-- Sources that only warn, whatever the threshold is. -/
def quietSources : List String := ["httpx", "httpcore", "opentelemetry"]

def quietThreshold : Nat := Level.warning.number

/-- The threshold for a source; what goes for a source goes for those below it. -/
def thresholdFor (source : String) (l : Logger) : Nat :=
  if quietSources.contains (String.ofList (source.toList.takeWhile (· != '.'))) then quietThreshold else l.threshold

/-- What a call writes at a time; nothing when it is not let through, or when its duration cannot be shown. -/
def write (now : Time) (origin : String) (c : LogCall) (l : Logger) : Except Fault String :=
  match clash? c.method [] c.fields with
  | some f => .error f
  | none =>
    if !c.method.level.reaches (l.thresholdFor c.source) then .ok ""
    else
      match overwriting? c.fields with
      | some f => .error f
      | none =>
        let r := c.record origin
        .ok (if r.durationDefect?.isSome then "" else r.line now l.trace ++ "\n")

end Logger

end Compendium
