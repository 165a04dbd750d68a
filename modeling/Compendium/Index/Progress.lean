import Compendium.Number.Numeral

/-! How far a run of indexing has come. -/
namespace Compendium

open Number (Numeral)

inductive Status where
  | pending
  | running
  | completed
  | failed
  deriving DecidableEq, Repr

def Status.name : Status → String
  | .pending => "pending"
  | .running => "running"
  | .completed => "completed"
  | .failed => "failed"

/-- Counts of documents and chunks; times are in seconds. -/
structure Progress where
  total : Int := 0
  processed : Int := 0
  failed : Int := 0
  chunks : Int := 0
  skipped : Int := 0
  status : Status := .pending
  started : Option Numeral := none
  ended : Option Numeral := none
  errors : List String := []

namespace Progress

def quotient (a b : Int) : Float := Number.ofQuotient (decide (a < 0) != decide (b < 0)) a.natAbs b.natAbs

def percent (p : Progress) : Float := if p.total = 0 then 0.0 else quotient p.processed p.total * 100.0

/-- The difference of two times; whole numbers give a whole number. -/
def difference : Numeral → Numeral → Numeral
  | .whole a, .whole b => .whole (a - b)
  | a, b => .decimal (a.toFloat - b.toFloat)

/-- The time at which a run ended, or else the present one; zero does not count as a time. -/
def endOr (now : Numeral) (p : Progress) : Numeral :=
  match p.ended with
  | none => now
  | some (.whole n) => if n = 0 then now else .whole n
  | some (.decimal x) => if x == 0.0 then now else .decimal x

def duration (now : Numeral) (p : Progress) : Option Numeral := p.started.map (difference (p.endOr now))

end Progress

end Compendium
