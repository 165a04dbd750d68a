import Compendium.Base
import Compendium.Catalog.Name

/-! The catalogue: documents in the store beside the Markdown files that they come from. -/
namespace Compendium.Catalog

open Compendium

def log (level : Level) (origin message : String) (fields : List (String × Json)) : Action Unit :=
  Action.log level "manager" origin message fields

def newDocument (category title content path : String) : Action Document := do
  let now ← Action.now
  return ⟨← Action.newId, category, title, content, path, some now, some now⟩

/-- Brings the document of a file up to date; gives its id if it was added or changed. -/
def scanFile (path : Path) (category title content : String) : Action (Option String) := do
  match ← Action.readStore (Store.atPath? path.text) with
  | none =>
    let d ← newDocument category title content path.text
    Action.putDocument d
    log .info "scan" "Added knowledge item" [("id", .text d.id), ("title", .text title), ("category", .text category)]
    return some d.id
  | some d =>
    if d.content = content && d.category = category && d.title = title then return none
    Action.putDocument
      { d with category := category, title := title, content := content, updated := some (← Action.now) }
    log .debug "scan" "Updated knowledge item" [("id", .text d.id), ("title", .text title)]
    return some d.id

/-- Reads a file of documents; one that cannot be read is logged. -/
def readFile (path : Path) : Action (Option String) := do
  match ← Action.attempt (Action.readFiles fun t => t.read path) with
  | .ok content => return some content
  | .error e =>
    if !(e.isA .system || e.isA .undecodable) then throw e
    log .warning "scan" "Failed to read knowledge file" [("path", .text path.text), ("error", .text e.message)]
    return none

/-- Scans files, given by the names that lead to them below a root; gives the ids of what was added or changed. -/
def scanFiles (root : Path) : List (List String) → Action (List String)
  | [] => return []
  | names :: rest => do
    let path : Path := { root with names := root.names ++ names }
    let (category, title) := entryOf names
    let changed ← match ← readFile path with
      | none => pure none
      | some content => scanFile path category title content
    return changed.toList ++ (← scanFiles root rest)

def filesBelow (root : Path) : Action (List (List String)) := do
  let t := (← get).files
  match t.locate root with
  | .ok place => return t.documentsBelow place
  | .error _ => return []

/-- Brings the documents up to date with the files below a root, which is made unless it is there. Gives the
ids of the documents that were added or changed. -/
def scan (root : Path) : Action (List String) := do
  Action.writeFiles fun t => t.makeDirectories root
  let changed ← scanFiles root (← filesBelow root)
  log .info "scan" "Scanned knowledge base" [("path", .text root.text), ("changed", .nat changed.length)]
  return changed

def create (base : Path) (category title content : String) : Action Document := do
  let category ← Action.ofExcept (validName "category" category)
  let title ← Action.ofExcept (validName "title" title)
  let path := pathOf base category title
  if (← Action.readStore (Store.atPath? path.text)).isSome then throw (.itemExists category title)
  Action.writeFiles fun t => t.makeDirectories path.parent
  Action.writeFiles fun t => t.write path content
  let d ← newDocument category title content path.text
  Action.putDocument d
  log .info "create_item" "Created knowledge item"
    [("id", .text d.id), ("title", .text title), ("category", .text category)]
  return d

/-- Removes the directory of a file if it is left empty and is not the base directory. -/
def tidy (base directory : Path) : Action Unit := do
  if directory != base && (← get).files.hasEmptyDirectory directory then
    Action.writeFiles fun t => t.removeDirectory directory

def moveFile (base old new : Path) : Action Unit := do
  if old != new then
    if (← Action.readFiles fun t => t.look old).isSome then
      Action.writeFiles fun t => t.rename old new
      tidy base old.parent

/-- Rewrites a document and its file, which moves when the category or title changes. The chunks are dropped. -/
def update (base : Path) (id category title content : String) : Action Document := do
  let category ← Action.ofExcept (validName "category" category)
  let title ← Action.ofExcept (validName "title" title)
  let d ← Action.document id
  let path := pathOf base category title
  Action.writeFiles fun t => t.makeDirectories path.parent
  if !d.path.isEmpty then moveFile base (Path.ofText d.path) path
  Action.writeFiles fun t => t.write path content
  Action.putDocument
    { d with
      category := category, title := title, content := content, path := path.text, updated := some (← Action.now) }
  Action.writeStore (Store.deleteChunks id)
  log .info "update_item" "Updated knowledge item"
    [("id", .text id), ("title", .text title), ("category", .text category)]
  Action.document id

/-- Deletes the file of a document; a failure is logged. -/
def deleteFile (path : String) : Action Unit := do
  match ← Action.attempt (Action.writeFiles fun t => t.deleteIfThere (Path.ofText path)) with
  | .ok _ => return
  | .error e =>
    if !e.isA .system then throw e
    log .warning "delete_item" "Failed to delete knowledge file" [("path", .text path), ("error", .text e.message)]

def delete (id : String) : Action Unit := do
  let d ← Action.document id
  if !d.path.isEmpty then deleteFile d.path
  Action.writeStore (Store.delete id)
  log .info "delete_item" "Deleted knowledge item" [("id", .text id)]

/-- How many documents there are, and how many of them have chunks. -/
structure Coverage where
  total : Nat
  indexed : Nat

/-- The share of documents with chunks in percent; all of none. -/
def Coverage.percent {K : Type} [Number.Scalar K] (c : Coverage) : K :=
  if c.total = 0 then Number.Scalar.ofNat 100
  else Number.Scalar.ratio c.indexed c.total * Number.Scalar.ofNat 100

def Coverage.isComplete (c : Coverage) : Bool := 0 < c.total && c.total ≤ c.indexed

def coverage : Action Coverage := do
  return ⟨← Action.readStore Store.documentCount, ← Action.readStore Store.indexedCount⟩

def logRetrieval (query : String) (found : List String) (riskType conversation message : String) :
    Action RetrievalLog := do
  let entry : RetrievalLog :=
    ⟨← Action.newId, conversation, message, query, riskType, found, ← Action.now, none⟩
  Action.writeStore (Store.addLog entry)
  return entry

/-- The newest logs of a message, or else of a conversation, or else of all. -/
def logs (conversation message : String) (limit : Int) : Action (List RetrievalLog) := do
  Action.readStore (Store.logsOf (← Action.now) conversation message limit)

def deleteLog (id : String) : Action Unit := Action.writeStore (Store.deleteLog id)

end Compendium.Catalog
