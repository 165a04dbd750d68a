import Compendium.Number.Scalar
import Compendium.Text.Case
import Compendium.Text.Word

/-! How far the words of a query occur in a text. -/
namespace Compendium.Search

open Compendium.Number Compendium.Text

def terms (s : List Char) : List (List Char) := words (lower s)

/-- For each term of the query its share among the terms of the text, averaged over the query. -/
def overlap {K : Type} [Scalar K] (query text : List (List Char)) : K :=
  if query.isEmpty || text.isEmpty then Scalar.ofNat 0
  else
    Scalar.sum (query.map fun t => Scalar.ratio (text.count t) text.length) / Scalar.ofNat query.length

def lexicalScore {K : Type} [Scalar K] (query text : String) : K := overlap (terms query.toList) (terms text.toList)

end Compendium.Search
