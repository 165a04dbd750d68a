import Compendium.Text.Utf8

/-! File paths, in the normal form that leaves out empty names and single dots. -/
namespace Compendium

/-- A path: how many slashes it begins with (none, one or two), and the names it goes through. -/
structure Path where
  slashes : Nat
  names : List String
  deriving DecidableEq, Repr, Inhabited

namespace Path

def pieces : List Char → List (List Char)
  | [] => [[]]
  | c :: r =>
    if c = '/' then [] :: pieces r
    else
      match pieces r with
      | [] => [[c]]
      | p :: ps => (c :: p) :: ps

/-- Whether a piece names something; an empty one and a single dot do not. -/
def isName (piece : List Char) : Bool := !piece.isEmpty && piece != ['.']

/-- A path that begins with exactly two slashes keeps both; more of them count as one. -/
def leadingSlashes (s : List Char) : Nat :=
  match (s.takeWhile (· = '/')).length with
  | 0 => 0
  | 2 => 2
  | _ => 1

def ofText (s : String) : Path := ⟨leadingSlashes s.toList, ((pieces s.toList).filter isName).map String.ofList⟩

/-- The written form; a path without names is a dot. -/
def text (p : Path) : String :=
  if p.names.isEmpty && p.slashes = 0 then "."
  else String.ofList (List.replicate p.slashes '/') ++ "/".intercalate p.names

def child (p : Path) (name : String) : Path := { p with names := p.names ++ [name] }

def parent (p : Path) : Path := { p with names := p.names.dropLast }

def name (p : Path) : String := p.names.getLastD ""

/-- A name without what follows its last dot; a dot at either end does not count. -/
def stemOf (name : String) : String :=
  let reversed := name.toList.reverse
  let ending := reversed.takeWhile (· != '.')
  match reversed.drop ending.length with
  | _ :: c :: before => if ending.isEmpty then name else String.ofList (c :: before).reverse
  | _ => name

def stem (p : Path) : String := stemOf p.name

def hasNul (p : Path) : Bool := p.names.any fun n => n.toList.contains '\x00'

end Path

end Compendium
