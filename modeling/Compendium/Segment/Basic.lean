import Compendium.Segment.Pack
import Compendium.Segment.Paragraph
import Compendium.Segment.Section

/-! Cutting a document into chunk texts: by headings, then by paragraphs, then by sentences, each step only
for the pieces that are still over the budget. -/
namespace Compendium.Segment

open Compendium.Text

def ofParagraph (b : Budget) (p : List Char) : List (List Char) := if b.fits p then [p] else units b p

def ofSection (b : Budget) (s : List Char) : List (List Char) :=
  if b.fits s then [s] else (paragraphs s).flatMap (ofParagraph b)

/-- The chunk texts of a document, in order. -/
def segment (b : Budget) (text : List Char) : List (List Char) :=
  if allBlank text then []
  else ((sections text).flatMap (ofSection b)).filter fun c => !allBlank c

def segmentText (b : Budget) (text : String) : List String := (segment b text.toList).map String.ofList

end Compendium.Segment
