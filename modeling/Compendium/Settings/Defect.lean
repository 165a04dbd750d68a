/-! What is wrong with a setting, and values that are checked so that everything wrong with them is told. -/
namespace Compendium.Settings

inductive Defect where
  | notWhole
  | wholeText
  | wholeKind
  | numberText
  | numberKind
  | infinite
  | truthText
  | truthKind
  | textKind
  | pathKind
  | sectionKind
  | notAbove
  | below
  | above
  | refused
  deriving DecidableEq, Repr

def Defect.code : Defect → String
  | .notWhole => "int_from_float"
  | .wholeText => "int_parsing"
  | .wholeKind => "int_type"
  | .numberText => "float_parsing"
  | .numberKind => "float_type"
  | .infinite => "finite_number"
  | .truthText => "bool_parsing"
  | .truthKind => "bool_type"
  | .textKind => "string_type"
  | .pathKind => "path_type"
  | .sectionKind => "model_type"
  | .notAbove => "greater_than"
  | .below => "greater_than_equal"
  | .above => "less_than_equal"
  | .refused => "value_error"

structure Complaint where
  place : List String
  defect : Defect
  deriving DecidableEq, Repr

inductive Checked (α : Type) where
  | fine (a : α)
  | wrong (complaints : List Complaint)

namespace Checked

variable {α β : Type}

/-- Applies a checked function to a checked value; the complaints about both are kept in order. -/
protected def seq (f : Checked (α → β)) (x : Unit → Checked α) : Checked β :=
  match f, x () with
  | .fine f, .fine a => .fine (f a)
  | .fine _, .wrong e => .wrong e
  | .wrong e, .fine _ => .wrong e
  | .wrong e, .wrong e' => .wrong (e ++ e')

instance : Applicative Checked where
  pure := .fine
  seq := Checked.seq

def within (name : String) : Checked α → Checked α
  | .fine a => .fine a
  | .wrong e => .wrong (e.map fun c => { c with place := name :: c.place })

def value? : Checked α → Option α
  | .fine a => some a
  | .wrong _ => none

def ofField (name : String) : Except Defect α → Checked α
  | .ok a => .fine a
  | .error d => .wrong [⟨[name], d⟩]

end Checked

end Compendium.Settings
