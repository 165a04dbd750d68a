import Compendium.Store.Table

/-! Stores of either kind behind one set of operations. -/
namespace Compendium

inductive Store where
  | memory (m : Memory)
  | table (d : Database)

namespace Store

def empty : Store := .memory {}

def put (now : Time) (doc : Document) : Store → Except Fault Store
  | .memory m => .ok (.memory (m.put doc))
  | .table d => (d.put now doc).map .table

def document (id : String) : Store → Reading Document
  | .memory m => Reading.ofExcept (m.document id)
  | .table d => d.document id

def atPath? (path : String) : Store → Reading (Option Document)
  | .memory m => pure (m.atPath? path)
  | .table d => d.atPath? path

def ids : Store → Reading (List String)
  | .memory m => pure m.ids
  | .table d => d.ids

/-- The documents of a category, or all, sorted by category and title. -/
def documentsOf (category : Option String) : Store → Reading (List Document)
  | .memory m => pure (m.documentsOf category)
  | .table d => d.documentsOf category

def delete (id : String) : Store → Except Fault Store
  | .memory m => (m.delete id).map .memory
  | .table d => (d.delete id).map .table

def categories : Store → Reading (List String)
  | .memory m => pure m.categories
  | .table d => d.categories

def documentCount : Store → Reading Nat
  | .memory m => pure m.documents.length
  | .table d => d.documentCount

def replace (now : Time) (id : String) (cs : List Chunk) : Store → Except Fault Store
  | .memory m => (m.replace id cs).map .memory
  | .table d => (d.replace now id cs).map .table

def deleteChunks (id : String) : Store → Except Fault Store
  | .memory m => .ok (.memory (m.deleteChunks id))
  | .table d => (d.deleteChunks id).map .table

def chunksOf (id : String) : Store → Reading (List Chunk)
  | .memory m => pure (m.chunksOf id)
  | .table d => d.chunksOf id

/-- The chunks of the documents whose category matches, each with its document's header. -/
def candidates (category : Option String) : Store → Reading (List Candidate)
  | .memory m => pure (m.candidates category)
  | .table d => d.candidates category

def chunkCount : Store → Reading Nat
  | .memory m => pure m.chunkCount
  | .table d => d.chunkCount

/-- The number of documents with chunks. -/
def indexedCount : Store → Reading Nat
  | .memory m => pure m.indexedCount
  | .table d => d.indexedCount

def addLog (l : RetrievalLog) : Store → Except Fault Store
  | .memory m => .ok (.memory (m.addLog l))
  | .table d => (d.addLog l).map .table

/-- The newest logs of a message, or else of a conversation, or else of all. -/
def logsOf (now : Time) (conversation message : String) (limit : Int) : Store → Reading (List RetrievalLog)
  | .memory m => Reading.ofExcept (m.logsOf conversation message limit)
  | .table d => d.logsOf now conversation message limit

def deleteLog (id : String) : Store → Except Fault Store
  | .memory m => (m.deleteLog id).map .memory
  | .table d => (d.deleteLog id).map .table

/-- A closed store in memory works on; a closed database does not. -/
def close : Store → Store
  | .memory m => .memory m
  | .table d => .table { d with isOpen := false }

def onDatabase (work : Database → Except Fault Database) : Store → Except Fault Store
  | .memory m => .ok (.memory m)
  | .table d => (work d).map .table

end Store

end Compendium
