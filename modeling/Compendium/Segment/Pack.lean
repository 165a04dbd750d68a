import Compendium.Segment.Budget
import Compendium.Segment.Sentence

/-! Packing sentences into units that fit a budget, each unit opening with the tail of the one before. -/
namespace Compendium.Segment

open Compendium.Text

/-- Two texts with a space between them; an empty first text leaves the second alone. -/
def joined (a b : List Char) : List Char := if a.isEmpty then b else a ++ ' ' :: b

/-- The tail of a unit that the next unit opens with: at most the overlap, from the first sentence that
begins inside it if one does. -/
def overlapOf (b : Budget) (unit : List Char) : List Char :=
  if b.overlap = 0 || unit.isEmpty then []
  else
    let count := b.overlap * charsPerToken
    if unit.length ≤ count then trim unit
    else
      let tail := unit.drop (unit.length - count)
      match sentenceEnd? 0 tail with
      | some k => if k < tail.length then trim (tail.drop k) else trim tail
      | none => trim tail

/-- Adds sentences to the unit `current` as long as it fits, and closes it when it does not. -/
def packFrom (b : Budget) (current : List Char) : List (List Char) → List (List Char)
  | [] => if allBlank current then [] else [current]
  | s :: rest =>
    let candidate := joined current s
    if !current.isEmpty && !b.fits candidate then
      current :: packFrom b (joined (overlapOf b current) s) rest
    else packFrom b candidate rest

def units (b : Budget) (paragraph : List Char) : List (List Char) := packFrom b [] (sentences paragraph)

end Compendium.Segment
