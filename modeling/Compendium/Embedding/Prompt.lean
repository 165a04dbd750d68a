import Compendium.Document

/-! The texts that are embedded. -/
namespace Compendium.Embedding

/-- A query stands behind its risk type if it names one. -/
def queryInput (query : String) (riskType : Option String) : String :=
  match riskType with
  | none => query
  | some c => if c.isEmpty then query else "[category: " ++ c ++ "] " ++ query

/-- A chunk stands below its document's category and title, so that they are part of its meaning. -/
def chunkInput (category title text : String) : String :=
  "[category: " ++ category ++ "] [title: " ++ title ++ "]\n" ++ text

end Compendium.Embedding
