import Compendium.Document
import Compendium.Keyed
import Compendium.Order
import Compendium.Text.Case

/-! The store that lives in memory: documents, the chunks of each, and the retrieval logs. -/
namespace Compendium

structure Memory where
  documents : List (String × Document) := []
  chunks : List (String × List Chunk) := []
  logs : List RetrievalLog := []

/-- Whether a document is of a category; no category stands for all. -/
def Document.isOf (category : Option String) (d : Document) : Bool :=
  match category with
  | none => true
  | some c => c.isEmpty || d.category = c

/-- Whether a category matches one that is asked for, letter case aside; an empty one asks for nothing. -/
def matchesCategory (asked : Option String) (category : String) : Bool :=
  match asked with
  | none => true
  | some c => c.isEmpty || Text.caseless category = Text.caseless c

/-- Whether a log belongs to a message, or else to a conversation, if one is named. -/
def RetrievalLog.belongsTo (conversation message : String) (l : RetrievalLog) : Bool :=
  if !message.isEmpty then l.message = message
  else conversation.isEmpty || l.conversation = conversation

namespace Memory

def put (d : Document) (m : Memory) : Memory := { m with documents := Keyed.put d.id d m.documents }

def document (id : String) (m : Memory) : Except Fault Document :=
  match Keyed.get? id m.documents with
  | some d => .ok d
  | none => .error (.unknownDocument id)

def atPath? (path : String) (m : Memory) : Option Document :=
  (m.documents.map (·.2)).find? fun d => d.path = path

def ids (m : Memory) : List String := Keyed.keys m.documents

def documentsOf (category : Option String) (m : Memory) : List Document :=
  sortByTexts Document.category Document.title ((m.documents.map (·.2)).filter (Document.isOf category))

def delete (id : String) (m : Memory) : Except Fault Memory :=
  if Keyed.has id m.documents then
    .ok { m with documents := Keyed.erase id m.documents, chunks := Keyed.erase id m.chunks }
  else .error (.unknownDocument id)

def categories (m : Memory) : List String :=
  sortByText id (distinctTexts (m.documents.map fun e => e.2.category))

def byIndex (cs : List Chunk) : List Chunk := cs.mergeSort fun a b => a.index ≤ b.index

def replace (id : String) (cs : List Chunk) (m : Memory) : Except Fault Memory :=
  if Keyed.has id m.documents then
    .ok { m with chunks := if cs.isEmpty then Keyed.erase id m.chunks else Keyed.put id (byIndex cs) m.chunks }
  else .error (.unknownDocument id)

def deleteChunks (id : String) (m : Memory) : Memory := { m with chunks := Keyed.erase id m.chunks }

def chunksOf (id : String) (m : Memory) : List Chunk := (Keyed.get? id m.chunks).getD []

def candidates (category : Option String) (m : Memory) : List Candidate :=
  m.chunks.flatMap fun e =>
    match Keyed.get? e.1 m.documents with
    | none => []
    | some d => if matchesCategory category d.category then e.2.map fun c => ⟨c, d.header⟩ else []

def chunkCount (m : Memory) : Nat := (m.chunks.flatMap fun e => e.2).length

def indexedCount (m : Memory) : Nat := (m.chunks.filter fun e => !e.2.isEmpty).length

def addLog (l : RetrievalLog) (m : Memory) : Memory := { m with logs := m.logs ++ [l] }

/-- Newest first; logs of one time keep their order. -/
def newestFirst (ls : List RetrievalLog) : List RetrievalLog :=
  ls.mergeSort fun a b => b.created.micros ≤ a.created.micros

def inOneOrder (ls : List RetrievalLog) : Bool :=
  match ls with
  | [] => true
  | l :: r => r.all fun k => l.created.comparable k.created

def logsOf (conversation message : String) (limit : Int) (m : Memory) : Except Fault (List RetrievalLog) :=
  let wanted := m.logs.filter (RetrievalLog.belongsTo conversation message)
  if inOneOrder wanted then .ok (upTo limit (newestFirst wanted)) else .error .mixedTimes

/-- Leaves out the first log of an id. -/
def deleteLog (id : String) (m : Memory) : Except Fault Memory :=
  if m.logs.any fun l => l.id = id then .ok { m with logs := m.logs.eraseP fun l => l.id = id }
  else .error (.unknownLog id)

end Memory

end Compendium
