import Compendium.Text.Line

/-! Sections of a document: each begins at a heading that stands outside fenced code. -/
namespace Compendium.Segment

open Compendium.Text

/-- One to six number signs, then spaces or tabs, then a character that is not blank. -/
def isHeading (line : List Char) : Bool :=
  let marks := (line.takeWhile (· = '#')).length
  let rest := line.dropWhile (· = '#')
  let isGap (c : Char) : Bool := c = ' ' || c = '\t'
  1 ≤ marks && marks ≤ 6 && rest.head?.any isGap && (rest.dropWhile isGap).head?.any fun c => !isBlank c

/-- Three backquotes or three tildes, blanks before them allowed. -/
def isFence (line : List Char) : Bool :=
  let s := trimStart line
  ['\x60', '\x60', '\x60'].isPrefixOf s || ['~', '~', '~'].isPrefixOf s

def pushLine (line : List Char) : List (List Char) → List (List Char)
  | [] => [line]
  | p :: ps => (line ++ p) :: ps

/-- Cuts lines before every heading outside fenced code; every fence line opens or closes. The first piece
is what stands before the first heading, and may be empty. -/
def cutAtHeadings : (fenced : Bool) → List (List Char) → List (List Char)
  | _, [] => [[]]
  | fenced, l :: ls =>
    if isFence l then pushLine l (cutAtHeadings (!fenced) ls)
    else if !fenced && isHeading l then [] :: pushLine l (cutAtHeadings fenced ls)
    else pushLine l (cutAtHeadings fenced ls)

/-- The sections of a text, trimmed, without those that are blank. A text without headings is one section. -/
def sections (text : List Char) : List (List Char) :=
  match cutAtHeadings false (lines text) with
  | [_] => [trim text]
  | pieces => (pieces.map trim).filter fun s => !s.isEmpty

end Compendium.Segment
