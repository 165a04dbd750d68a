import Compendium.Json.Printer
import Compendium.Json.Reader
import Compendium.Store.Memory
import Compendium.Store.Reading

/-! The store that is a database: rows of plain columns, with times as text, vectors as octets and the
documents of a log as the text of a list. -/
namespace Compendium

structure DocumentRow where
  id : String
  category : String
  title : String
  path : String
  content : String
  created : Option String
  updated : Option String

structure ChunkRow where
  id : String
  document : String
  index : Int
  text : String
  vector : List UInt8
  created : Option String

structure LogRow where
  id : String
  conversation : String
  message : String
  query : String
  riskType : String
  found : String
  created : String

structure Tables where
  documents : List DocumentRow := []
  chunks : List ChunkRow := []
  logs : List LogRow := []

structure Database where
  path : String
  isOpen : Bool := true
  tables : Tables := {}

/-- The path that stands for no file at all. -/
def unfiledPath : String := ":memory:"

/-- Whether a number fits into a column: 64 bits with a sign. -/
def fitsColumn (n : Int) : Bool := -(Number.twoTo 63 : Int) ≤ n && n < (Number.twoTo 63 : Int)

/-- A stored time; one that cannot be read is none, and is worth a notice. -/
def storedTime : Option String → Reading (Option Time)
  | none => pure none
  | some s =>
    if s.isEmpty then pure none
    else
      match Time.ofIso? s with
      | some t => pure (some t)
      | none => do
        Reading.warn ⟨"_parse_time", "Unparseable timestamp in knowledge store", [("value", .text s)]⟩
        return none

def storedVector (bytes : List UInt8) : Reading Embedding := Reading.ofExcept (Embedding.ofBytes? bytes)

/-- A document without time of change was last changed when it was made. -/
def DocumentRow.read (r : DocumentRow) : Reading Document := do
  let created ← storedTime r.created
  let updated ← storedTime r.updated
  return ⟨r.id, r.category, r.title, r.content, r.path, created, updated <|> created⟩

def ChunkRow.read (r : ChunkRow) : Reading Chunk := do
  let vector ← storedVector r.vector
  let created ← storedTime r.created
  return ⟨r.id, r.document, r.index, r.text, some vector, created⟩

/-- The documents of a log, or what stands in their place; an unreadable text counts as no documents. -/
def LogRow.readFound (r : LogRow) : Reading (List String × Option Json) :=
  if r.found.isEmpty then pure ([], none)
  else
    match Json.parse? r.found.toList with
    | none => do
      Reading.warn ⟨"list_retrieval_logs", "Corrupt retrieved_items in retrieval log", [("log_id", .text r.id)]⟩
      return ([], none)
    | some v =>
      match v.list?.bind (·.mapM Json.text?) with
      | some ids => pure (ids, none)
      | none => pure ([], some v)

/-- A log whose time cannot be read counts as made now. -/
def LogRow.read (now : Time) (r : LogRow) : Reading RetrievalLog := do
  let found ← r.readFound
  let created ← storedTime (some r.created)
  return ⟨r.id, r.conversation, r.message, r.query, r.riskType, found.1, created.getD now, found.2⟩

/-- The row of a document; a time that is missing is now. -/
def DocumentRow.ofDocument (now : Time) (d : Document) : DocumentRow :=
  ⟨d.id, d.category, d.title, d.path, d.content, some (d.created.getD now).iso, some (d.updated.getD now).iso⟩

/-- The row of a chunk under a document, unless the chunk has no vector. -/
def ChunkRow.ofChunk (now : Time) (document : String) (c : Chunk) : Except Fault ChunkRow :=
  match c.vector with
  | none => .error (.store .noVector)
  | some v => .ok ⟨c.id, document, c.index, c.text, v.toBytes, some (c.created.getD now).iso⟩

def LogRow.ofLog (l : RetrievalLog) : LogRow :=
  ⟨l.id, l.conversation, l.message, l.query, l.riskType, Json.print Json.spaced (.list (l.found.map .text)),
    l.created.iso⟩

namespace Tables

def hasDocument (id : String) (t : Tables) : Bool := t.documents.any fun r => r.id = id

/-- A row whose id is there takes the old row's place and its time of making. -/
def putDocument (row : DocumentRow) (t : Tables) : Tables :=
  if t.hasDocument row.id then
    { t with documents := t.documents.map fun r => if r.id = row.id then { row with created := r.created } else r }
  else { t with documents := t.documents ++ [row] }

def dropDocument (id : String) (t : Tables) : Tables :=
  { t with documents := t.documents.filter fun r => r.id != id, chunks := t.chunks.filter fun r => r.document != id }

def dropChunks (id : String) (t : Tables) : Tables :=
  { t with chunks := t.chunks.filter fun r => r.document != id }

/-- Adds chunk rows one by one; each needs an id of its own and an index that fits. -/
def addChunks (document : String) : List ChunkRow → Tables → Except Fault Tables
  | [], t => .ok t
  | row :: r, t =>
    if !fitsColumn row.index then .error .numberTooLarge
    else if t.chunks.any fun c => c.id = row.id then
      .error (.store (.replacing document (.duplicate "knowledge_embeddings" "id")))
    else addChunks document r { t with chunks := t.chunks ++ [row] }

def headerOf? (t : Tables) (c : ChunkRow) : Option Header :=
  (t.documents.find? fun d => d.id = c.document).map fun d => ⟨c.document, d.category, d.title⟩

/-- Chunk rows in the order of their documents' ids and of their indexes. -/
def inOrder (rows : List (ChunkRow × Header)) : List (ChunkRow × Header) :=
  rows.mergeSort fun a b => a.1.document < b.1.document || (a.1.document = b.1.document && a.1.index ≤ b.1.index)

end Tables

namespace Database

/-- Reading fails once the database is closed. -/
def reading {α : Type} (d : Database) (r : Reading α) : Reading α :=
  if d.isOpen then r else Reading.fail (.store (.query .closed))

def writing (d : Database) (outcome : Except Fault Tables) : Except Fault Database :=
  if d.isOpen then outcome.map fun t => { d with tables := t } else .error (.store (.write .closed))

def put (now : Time) (doc : Document) (d : Database) : Except Fault Database :=
  d.writing (.ok (d.tables.putDocument (DocumentRow.ofDocument now doc)))

def document (id : String) (d : Database) : Reading Document :=
  d.reading
    (match d.tables.documents.find? fun r => r.id = id with
      | some r => r.read
      | none => Reading.fail (.unknownDocument id))

def atPath? (path : String) (d : Database) : Reading (Option Document) :=
  d.reading
    (match d.tables.documents.find? fun r => r.path = path with
      | some r => some <$> r.read
      | none => pure none)

def ids (d : Database) : Reading (List String) := d.reading (pure (sortByText id (d.tables.documents.map (·.id))))

def documentsOf (category : Option String) (d : Database) : Reading (List Document) :=
  let wanted := d.tables.documents.filter fun r =>
    match category with
    | none => true
    | some c => c.isEmpty || r.category = c
  d.reading (Reading.each DocumentRow.read (sortByTexts DocumentRow.category DocumentRow.title wanted))

def delete (id : String) (d : Database) : Except Fault Database :=
  d.writing (if d.tables.hasDocument id then .ok (d.tables.dropDocument id) else .error (.unknownDocument id))

def categories (d : Database) : Reading (List String) :=
  d.reading (pure (sortByText id (distinctTexts (d.tables.documents.map (·.category)))))

def documentCount (d : Database) : Reading Nat := d.reading (pure d.tables.documents.length)

/-- Puts chunks in the place of a document's chunks, all of them or none. -/
def replace (now : Time) (id : String) (cs : List Chunk) (d : Database) : Except Fault Database := do
  let rows ← cs.mapM (ChunkRow.ofChunk now id)
  if !d.isOpen then throw (.store (.replacing id .closed))
  if !d.tables.hasDocument id then throw (.unknownDocument id)
  let tables ← (d.tables.dropChunks id).addChunks id rows
  return { d with tables := tables }

def deleteChunks (id : String) (d : Database) : Except Fault Database := d.writing (.ok (d.tables.dropChunks id))

def chunksOf (id : String) (d : Database) : Reading (List Chunk) :=
  let rows := (d.tables.chunks.filter fun r => r.document = id).mergeSort fun a b => a.index ≤ b.index
  d.reading (Reading.each ChunkRow.read rows)

def candidates (category : Option String) (d : Database) : Reading (List Candidate) :=
  let joined := d.tables.chunks.filterMap fun c => (d.tables.headerOf? c).map fun h => (c, h)
  let wanted := joined.filter fun e => matchesCategory category e.2.category
  d.reading (Reading.each (fun e => do return ⟨← e.1.read, e.2⟩) (Tables.inOrder wanted))

def chunkCount (d : Database) : Reading Nat := d.reading (pure d.tables.chunks.length)

def indexedCount (d : Database) : Reading Nat :=
  d.reading (pure (distinctTexts (d.tables.chunks.map (·.document))).length)

def addLog (l : RetrievalLog) (d : Database) : Except Fault Database :=
  d.writing
    (if d.tables.logs.any fun r => r.id = l.id then
      .error (.store (.write (.duplicate "knowledge_retrieval_logs" "id")))
    else .ok { d.tables with logs := d.tables.logs ++ [LogRow.ofLog l] })

def belongs (conversation message : String) (r : LogRow) : Bool :=
  if !message.isEmpty then r.message = message
  else conversation.isEmpty || r.conversation = conversation

/-- The first rows of a count; a negative count is none at all. -/
def limited {α : Type} (limit : Int) (rows : List α) : List α := if limit < 0 then rows else rows.take limit.toNat

/-- The logs with the greatest text of a time first. -/
def logsOf (now : Time) (conversation message : String) (limit : Int) (d : Database) : Reading (List RetrievalLog) :=
  let wanted := d.tables.logs.filter (belongs conversation message)
  let sorted := wanted.mergeSort fun a b => !(a.created < b.created)
  d.reading
    (if fitsColumn limit then Reading.each (LogRow.read now) (limited limit sorted) else Reading.fail .numberTooLarge)

def deleteLog (id : String) (d : Database) : Except Fault Database :=
  d.writing
    (if d.tables.logs.any fun r => r.id = id then
      .ok { d.tables with logs := d.tables.logs.filter fun r => r.id != id }
    else .error (.unknownLog id))

def changeRows {R : Type} (idOf : R → String) (id : String) (change : R → R) (rows : List R) : List R :=
  rows.map fun r => if idOf r = id then change r else r

/-- Puts other tables in place without the store's help. A closed database does not allow it, nor may a row
that is there lose a column that it needs. -/
def overwrite (tables : Tables) (isThere : Bool) (lost : Option (String × String)) (d : Database) :
    Except Fault Database :=
  if !d.isOpen then .error (.raised (.named "ProgrammingError") DatabaseFault.closed.message)
  else
    match lost with
    | none => .ok { d with tables := tables }
    | some (table, column) => if isThere then .error (.database (.missing table column)) else .ok d

/-- Overwrites columns of a log; `some none` empties a column. -/
def overwriteLog (id : String) (found created : Option (Option String)) (d : Database) : Except Fault Database :=
  let lost :=
    if found = some none then some ("knowledge_retrieval_logs", "retrieved_items")
    else if created = some none then some ("knowledge_retrieval_logs", "created_at")
    else none
  let change (r : LogRow) : LogRow :=
    { r with found := found.join.getD r.found, created := created.join.getD r.created }
  d.overwrite { d.tables with logs := changeRows LogRow.id id change d.tables.logs }
    (d.tables.logs.any fun r => r.id = id) lost

def overwriteDocument (id : String) (created updated : Option (Option String)) (d : Database) : Except Fault Database :=
  let change (r : DocumentRow) : DocumentRow :=
    { r with created := created.getD r.created, updated := updated.getD r.updated }
  d.overwrite { d.tables with documents := changeRows DocumentRow.id id change d.tables.documents } true none

def overwriteChunk (id : String) (vector : Option (Option (List UInt8))) (created : Option (Option String))
    (d : Database) : Except Fault Database :=
  let lost := if vector = some none then some ("knowledge_embeddings", "embedding") else none
  let change (r : ChunkRow) : ChunkRow :=
    { r with vector := vector.join.getD r.vector, created := created.getD r.created }
  d.overwrite { d.tables with chunks := changeRows ChunkRow.id id change d.tables.chunks }
    (d.tables.chunks.any fun r => r.id = id) lost

end Database

end Compendium
