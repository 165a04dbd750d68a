import Compendium.Text.Blank
import Compendium.Text.CaseTable

/-! Letter case: lower, upper and caseless forms of a text. -/
namespace Compendium.Text

/-- Moves a code point by the row that holds it; a code point in no row stays. -/
def shifted (rows : List (Nat × Nat × Nat × Int)) (c : Char) : Char :=
  match rows.find? fun r => r.1 ≤ c.toNat && c.toNat ≤ r.2.1 && (c.toNat - r.1) % r.2.2.1 = 0 with
  | some r => Char.ofNat (Int.toNat (c.toNat + r.2.2.2))
  | none => c

/-- The characters that a character becomes, by its expansion if it has one, else by its row. -/
def mapped (rows : List (Nat × Nat × Nat × Int)) (expansions : List (Nat × List Nat)) (c : Char) : List Char :=
  match expansions.find? fun e => e.1 = c.toNat with
  | some e => e.2.map Char.ofNat
  | none => [shifted rows c]

def isCased (c : Char) : Bool := inRanges casedRanges c

def isCaseIgnorable (c : Char) : Bool := inRanges caseIgnorableRanges c

/-- Whether the first character that is not passed over has a case. -/
def leadsToCased (s : List Char) : Bool :=
  match s.dropWhile isCaseIgnorable with
  | [] => false
  | c :: _ => isCased c

/-- Lower case of one character between the reversed text before it and the text after it. The capital
sigma has a form of its own at the end of a word. -/
def lowerAt (before : List Char) (c : Char) (after : List Char) : List Char :=
  if c.toNat < 128 then [c.toLower]
  else if c.toNat = 0x130 then ['i', Char.ofNat 0x307]
  else if c.toNat = 0x3A3 then
    [if leadsToCased before && !leadsToCased after then Char.ofNat 0x3C2 else Char.ofNat 0x3C3]
  else [shifted lowerRows c]

/-- Lower case of a text that follows the reversed text `before`; `done` is what stands already, reversed. -/
def lowerFrom (before done : List Char) : List Char → List Char
  | [] => done.reverse
  | c :: after => lowerFrom (c :: before) ((lowerAt before c after).reverse ++ done) after

def lower (s : List Char) : List Char := lowerFrom [] [] s

def upper (s : List Char) : List Char :=
  s.flatMap fun c => if c.toNat < 128 then [c.toUpper] else mapped upperRows upperExpansions c

/-- The caseless form of a text: texts that differ in case alone have the same one. -/
def fold (s : List Char) : List Char :=
  s.flatMap fun c => if c.toNat < 128 then [c.toLower] else mapped foldRows foldExpansions c

def caseless (s : String) : String := String.ofList (fold s.toList)

end Compendium.Text
