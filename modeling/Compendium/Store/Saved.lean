import Compendium.Store.Table

/-! The saved form of a database: its rows as one structured value. -/
namespace Compendium

def columnValue (c : Option String) : Json := (c.map .text).getD .null

def columnOf? : Json → Option (Option String)
  | .null => some none
  | .text s => some (some s)
  | _ => none

def DocumentRow.saved (r : DocumentRow) : Json :=
  .list [.text r.id, .text r.category, .text r.title, .text r.path, .text r.content, columnValue r.created,
    columnValue r.updated]

def DocumentRow.ofSaved? : Json → Option DocumentRow
  | .list [.text id, .text category, .text title, .text path, .text content, created, updated] => do
    return ⟨id, category, title, path, content, ← columnOf? created, ← columnOf? updated⟩
  | _ => none

def ChunkRow.saved (r : ChunkRow) : Json :=
  .list [.text r.id, .text r.document, .int r.index, .text r.text, .text (Text.hexOfBytes r.vector),
    columnValue r.created]

def ChunkRow.ofSaved? : Json → Option ChunkRow
  | .list [.text id, .text document, .number (.whole index), .text text, .text vector, created] => do
    return ⟨id, document, index, text, Text.bytesOfHex vector.toList, ← columnOf? created⟩
  | _ => none

def LogRow.saved (r : LogRow) : Json :=
  .list [.text r.id, .text r.conversation, .text r.message, .text r.query, .text r.riskType, .text r.found,
    .text r.created]

def LogRow.ofSaved? : Json → Option LogRow
  | .list [.text id, .text conversation, .text message, .text query, .text riskType, .text found, .text created] =>
    some ⟨id, conversation, message, query, riskType, found, created⟩
  | _ => none

namespace Tables

def saved (t : Tables) : Json :=
  .object [("documents", .list (t.documents.map DocumentRow.saved)), ("chunks", .list (t.chunks.map ChunkRow.saved)),
    ("logs", .list (t.logs.map LogRow.saved))]

def rowsOf? {R : Type} (name : String) (row? : Json → Option R) (v : Json) : Option (List R) := do
  (← (← v.field? name).list?).mapM row?

def ofSaved? (v : Json) : Option Tables := do
  return ⟨← rowsOf? "documents" DocumentRow.ofSaved? v, ← rowsOf? "chunks" ChunkRow.ofSaved? v,
    ← rowsOf? "logs" LogRow.ofSaved? v⟩

end Tables

end Compendium
