import Compendium.Text.Blank
import Compendium.Text.WordTable

/-! Words of a text. -/
namespace Compendium.Text

/-- Letters, numerals and the low line make up words. -/
def isWord (c : Char) : Bool :=
  if c.toNat < 128 then c.isAlphanum || c = '_' else inRanges wordRanges c

/-- Puts a character in front of a text whose words are already told apart; the first list is the word
that the character may still join. -/
def addToWords (c : Char) : List (List Char) → List (List Char)
  | [] => if isWord c then [[c]] else [[]]
  | w :: ws => if isWord c then (c :: w) :: ws else [] :: w :: ws

/-- The longest runs of word characters, in order. -/
def words (s : List Char) : List (List Char) :=
  (s.foldr addToWords []).filter fun w => !w.isEmpty

end Compendium.Text
