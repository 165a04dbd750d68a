import Compendium.Embedding.Basic
import Compendium.Time.Iso

/-! Documents, the chunks they are cut into, and the records of what a search found. -/
namespace Compendium

/-- A source document. The category is its risk type; the title is the stem of its file. -/
structure Document where
  id : String
  category : String
  title : String
  content : String
  path : String
  created : Option Time
  updated : Option Time
  deriving Inhabited

/-- What a chunk shows of its document. -/
structure Header where
  id : String
  category : String
  title : String
  deriving DecidableEq, Repr, Inhabited

/-- A bounded piece of a document with the vector that stands for it. -/
structure Chunk where
  id : String
  document : String
  index : Int
  text : String
  vector : Option Embedding
  created : Option Time
  deriving Inhabited

structure Candidate where
  chunk : Chunk
  header : Header
  deriving Inhabited

structure RetrievalLog where
  id : String
  conversation : String
  message : String
  query : String
  riskType : String
  found : List String
  created : Time
  /-- What a damaged entry holds in place of the documents. -/
  foreign : Option Json := none
  deriving Inhabited

/-- A ranked chunk. `expanded` marks neighbours that were added for context. -/
structure Match (K : Type) where
  chunk : Chunk
  header : Header
  similarity : K
  score : K
  expanded : Bool

/-- A search call. A count or threshold that is missing or not positive leaves the choice to the settings. -/
structure Request where
  query : String
  riskType : Option String
  topK : Option Int
  threshold : Option Number.Numeral

def Request.isFiltered (r : Request) : Bool := r.riskType.any fun c => !c.isEmpty

def Document.header (d : Document) : Header := ⟨d.id, d.category, d.title⟩

/-- A time as an entry shows it; a missing one is empty. -/
def timeEntry (t : Option Time) : Json := .text ((t.map Time.iso).getD "")

def Document.toJson (d : Document) : Json :=
  .object [("id", .text d.id), ("category", .text d.category), ("title", .text d.title),
    ("filePath", .text d.path), ("content", .text d.content),
    ("createdAt", timeEntry d.created), ("updatedAt", timeEntry d.updated)]

/-- Vectors are never shown. -/
def Chunk.toJson (c : Chunk) : Json :=
  .object [("id", .text c.id), ("itemId", .text c.document), ("chunkIndex", .int c.index), ("chunkText", .text c.text)]

def Header.toJson (h : Header) : Json :=
  .object [("id", .text h.id), ("category", .text h.category), ("title", .text h.title)]

/-- The items that a value of any kind consists of; a value that has none is no list. -/
def itemsOf : Json → Except Fault (List Json)
  | .list items => .ok items
  | .object fields => .ok (fields.map fun f => .text f.1)
  | .text s => .ok (s.toList.map fun c => .text (String.singleton c))
  | .null => .error (.notIterable "NoneType")
  | .bool _ => .error (.notIterable "bool")
  | .number (.whole _) => .error (.notIterable "int")
  | .number (.decimal _) => .error (.notIterable "float")

def RetrievalLog.items (l : RetrievalLog) : Except Fault (List Json) :=
  match l.foreign with
  | none => .ok (l.found.map .text)
  | some v => itemsOf v

def RetrievalLog.toJson (l : RetrievalLog) : Except Fault Json :=
  l.items.map fun items =>
    .object [("id", .text l.id), ("conversationId", .text l.conversation), ("messageId", .text l.message),
      ("query", .text l.query), ("riskType", .text l.riskType), ("retrievedItems", .list items),
      ("createdAt", .text l.created.iso)]

def Match.toJson {K : Type} (shown : K → Json) (m : Match K) : Json :=
  .object [("chunk", m.chunk.toJson), ("item", m.header.toJson), ("similarity", shown m.similarity),
    ("score", shown m.score), ("expanded", .bool m.expanded)]

end Compendium
