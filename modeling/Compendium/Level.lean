import Compendium.Text.Case

/-! How important a log record is. -/
namespace Compendium

inductive Level where
  | debug
  | info
  | warning
  | error
  | critical
  deriving DecidableEq, Repr

namespace Level

def name : Level → String
  | .debug => "DEBUG"
  | .info => "INFO"
  | .warning => "WARNING"
  | .error => "ERROR"
  | .critical => "CRITICAL"

def number : Level → Nat
  | .debug => 10
  | .info => 20
  | .warning => 30
  | .error => 40
  | .critical => 50

def all : List Level := [.debug, .info, .warning, .error, .critical]

def ofName? (s : String) : Option Level := all.find? fun l => l.name = s

/-- The number of a name of any case; two levels have a second name, and one lies below all others. -/
def thresholdOf? (s : String) : Option Nat :=
  let upper := String.ofList (Text.upper s.toList)
  if upper = "WARN" then some 30
  else if upper = "FATAL" then some 50
  else if upper = "NOTSET" then some 0
  else (ofName? upper).map number

/-- Whether records of a level are let through by a threshold. -/
def reaches (threshold : Nat) (l : Level) : Bool := threshold ≤ l.number

end Level

end Compendium
