import Compendium.Json.Printer
import Compendium.Number.Decimal
import Compendium.Search.Context

/-! Reports: search results and risk types as plain text. -/
namespace Compendium.Report

open Compendium.Number Compendium.Search

variable {K : Type} [Scalar K]

/-- The matches of one document, in the order of the document, with the most similar one. -/
structure Block (K : Type) where
  document : String
  primary : Match K
  fragments : List (Match K)

/-- The first of the most similar matches. -/
def mostSimilar (first : Match K) (rest : List (Match K)) : Match K :=
  rest.foldl (fun best m => if Scalar.lt best.similarity m.similarity then m else best) first

def inDocumentOrder (ms : List (Match K)) : List (Match K) := ms.mergeSort fun a b => a.chunk.index ≤ b.chunk.index

/-- One block for each document, in order of first appearance. -/
def blocks (ms : List (Match K)) : List (Block K) :=
  (groups ms).filterMap fun g =>
    match g.2 with
    | [] => none
    | m :: r => some ⟨g.1, mostSimilar m r, inDocumentOrder g.2⟩

def foundDocuments (ms : List (Match K)) : List String := (groups ms).map (·.1)

def fragmentLines (b : Block K) (position : Nat) (m : Match K) : List String :=
  let marker := if m.chunk.id = b.primary.chunk.id then " [primary match]" else ""
  ["  [Fragment " ++ toString position ++ marker ++ "]", m.chunk.text]

def fragmentsFrom (b : Block K) : (position : Nat) → List (Match K) → List String
  | _, [] => []
  | position, m :: r => fragmentLines b position m ++ fragmentsFrom b (position + 1) r

def blockLines (percent : K → String) (position : Nat) (b : Block K) : List String :=
  let body :=
    match b.fragments with
    | [_] => ["Content:", b.primary.chunk.text]
    | ms => "Content (in document order):" :: fragmentsFrom b 1 ms
  ("--- Result " ++ toString position ++ " (similarity: " ++ percent b.primary.similarity ++ ") ---") ::
    ("Source: [" ++ b.primary.header.category ++ "] " ++ b.primary.header.title ++
      " (ID: " ++ b.primary.header.id ++ ")") ::
    body ++ [""]

def blocksFrom (percent : K → String) : (position : Nat) → List (Block K) → List String
  | _, [] => []
  | position, b :: r => blockLines percent position b ++ blocksFrom percent (position + 1) r

def trailerStart : String := "<!-- METADATA: "

def trailerEnd : String := " -->"

def trailerValue (ids : List String) : Json :=
  .object [("_metadata", .object [("retrievedItemIDs", .list (ids.map .text))])]

def trailer (ids : List String) : String := trailerStart ++ Json.print Json.spaced (trailerValue ids) ++ trailerEnd

def resultLines (percent : K → String) (ms : List (Match K)) : List String :=
  ("Found " ++ toString ms.length ++ " relevant knowledge chunks (including context expansion):") :: "" ::
    blocksFrom percent 1 (blocks ms) ++ [trailer (foundDocuments ms)]

def joinLines (ls : List String) : String := "\n".intercalate ls

def nothingFound (query : String) : String :=
  joinLines ["No knowledge found for query '" ++ query ++ "'. Suggestions:", "1. Try different keywords",
    "2. Check that the risk type is correct", "3. Confirm the knowledge base contains related content"]

def results (percent : K → String) (query : String) (ms : List (Match K)) : String :=
  if ms.isEmpty then nothingFound query else joinLines (resultLines percent ms)

def percentText (x : Float) : String := fixed 2 (x * 100.0) ++ "%"

def summaryLine (position : Nat) (m : Match Float) : String :=
  toString position ++ ". [" ++ m.header.category ++ "] " ++ m.header.title ++ " #" ++ toString m.chunk.index ++
    " similarity=" ++ percentText m.similarity ++ " score=" ++ fixed 3 m.score ++
      (if m.expanded then " (context)" else "")

def summaryFrom : (position : Nat) → List (Match Float) → List String
  | _, [] => []
  | position, m :: r => summaryLine position m :: summaryFrom (position + 1) r

def summary (ms : List (Match Float)) : String :=
  if ms.isEmpty then "No results" else joinLines ((toString ms.length ++ " results:") :: summaryFrom 1 ms)

def numberedFrom : (position : Nat) → List String → List String
  | _, [] => []
  | position, c :: r => (toString position ++ ". " ++ c) :: numberedFrom (position + 1) r

def riskTypes (categories : List String) : String :=
  if categories.isEmpty then "The knowledge base has no risk types yet."
  else
    joinLines (("The knowledge base has " ++ toString categories.length ++ " risk types:") :: "" ::
      numberedFrom 1 categories ++
      ["", "Tip: pass one of these as the risk type when searching to narrow the scope and improve retrieval."])

end Compendium.Report
