import Compendium.Base
import Compendium.Search.Lexical
import Compendium.Text.Checksum

/-! A provider that follows a script: what it does with a text hangs on what the text contains. -/
namespace Compendium.Embedding

/-- The script. The first list with a text that occurs in the input decides; else the input gets the preset
vector, or one that counts its words. -/
structure Script where
  hangsOn : List String := []
  breaksOn : List String := []
  failsOn : List String := []
  rules : List (String × Embedding) := []
  preset : Option Embedding := none
  dimension : Nat := 16

def occursIn (part : List Char) : List Char → Bool
  | [] => part.isEmpty
  | c :: r => part.isPrefixOf (c :: r) || occursIn part r

def anyOccurs (parts : List String) (s : String) : Bool := parts.any fun p => occursIn p.toList s.toList

def slot (dimension : Nat) (word : List Char) : Nat :=
  (Text.checksum (Text.Utf8.encode (String.ofList word))).toNat % dimension

/-- How many of the words of a text count in each component; a text without words counts once in the first. -/
def wordCounts (dimension : Nat) (s : String) : Embedding :=
  let slots := (Search.terms s.toList).map (slot dimension)
  let counts := (List.range dimension).map fun i => slots.count i
  let counts := if slots.isEmpty then (List.range dimension).map fun i => if i = 0 then 1 else 0 else counts
  ofFloats (counts.map Nat.toFloat)

def Script.answer (c : Script) (s : String) : Outcome :=
  if anyOccurs c.hangsOn s then .hangs
  else if anyOccurs c.breaksOn s then .fails (.undecodableVector s.length)
  else if anyOccurs c.failsOn s then .fails (.embedding (.rejected s))
  else
    match c.rules.find? fun r => occursIn r.1.toList s.toList with
    | some r => .vector r.2
    | none => .vector (c.preset.getD (wordCounts c.dimension s))

/-- The provider of a script; what was asked before does not matter to it. -/
def Script.provider (c : Script) : Provider := fun _ s => c.answer s

end Compendium.Embedding
