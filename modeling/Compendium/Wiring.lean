import Compendium.Service
import Compendium.Settings.Basic

/-! The parts of the program as the settings ask for them. -/
namespace Compendium

/-- What a store of some settings is opened with: nothing for memory, else a path. -/
def StorageSettings.opens (s : StorageSettings) : Option String :=
  match s.backend with
  | .memory => none
  | .database => some s.database.text

namespace Action

/-- Whether the file at a path is a database. There may be none yet, and a file of at most one octet may
become one. -/
def isDatabaseAt (t : Tree) (path : Path) : Except DatabaseFault Bool :=
  match t.find path with
  | .ok .directory => .error .cannotOpen
  | .ok (.file (.text s)) => if Text.Utf8.size s ≤ 1 then .ok false else .error .notDatabase
  | .ok (.file (.octets b)) => if b.length ≤ 1 then .ok false else .error .notDatabase
  | .ok (.file .database) => .ok true
  | .error .notFound => .ok false
  | .error _ => .error .cannotOpen

/-- The rows of the database at a place, of which there are none yet in a new one. -/
def savedTables (place : Place) (b : Base) : Tables := (Keyed.get? place b.databases).getD {}

def tablesAt (path : String) (b : Base) : Tables :=
  match b.files.locate (Path.ofText path) with
  | .ok place => savedTables place b
  | .error _ => {}

def restore (path : String) (tables : Tables) : Action Unit := do
  let p := Path.ofText path
  writeFiles fun t => t.makeDirectories p.parent
  writeFiles fun t => Tree.failing [p] (t.store p .database)
  let place ← readFiles fun t => Tree.failing [p] (t.locate p)
  modify fun b => { b with databases := Keyed.put place tables b.databases }

/-- Opens the database at a path, which is made with the directories above it unless it is there. -/
def openFile (path : String) : Action Database := do
  let p := Path.ofText path
  writeFiles fun t => t.makeDirectories p.parent
  if p.hasNul then throw .nulInPath
  match isDatabaseAt (← get).files p with
  | .error cause => throw (.store (.opening path cause))
  | .ok true =>
    let place ← readFiles fun t => Tree.failing [p] (t.locate p)
    return { path := path, tables := savedTables place (← get) }
  | .ok false =>
    writeFiles fun t => Tree.failing [p] (t.store p .database)
    return { path := path }

def save : Action Unit := do
  match (← get).store with
  | .memory _ => return
  | .table d =>
    if d.path = unfiledPath then return
    match (← get).files.locate (Path.ofText d.path) with
    | .error _ => return
    | .ok place => modify fun b => { b with databases := Keyed.put place d.tables b.databases }

def openStore (s : StorageSettings) : Action Unit := do
  match s.opens with
  | none => modify fun b => { b with store := .empty }
  | some path =>
    let d ← if path = unfiledPath then pure { path := path } else openFile path
    modify fun b => { b with store := .table d }
    log .info "sqlite" "__init__" "Opened knowledge store" [("path", .text path)]

/-- Closes the store; the rows of a database stay with its file. -/
def closeStore : Action Unit := do
  save
  modify fun b => { b with store := b.store.close }

end Action

namespace Settings

def budget (s : Settings) : Except Fault Segment.Budget := Segment.Budget.ofInts s.chunking.size s.chunking.overlap

def indexer (s : Settings) : Except Fault Indexer := do
  Indexer.make (← s.budget) s.indexing.lanes (s.indexing.embedLimit.map .decimal)

def retriever (s : Settings) : Retriever where
  topK := s.retrieval.topK
  threshold := s.retrieval.threshold
  hybridWeight := s.retrieval.hybridWeight
  expands := s.retrieval.expands

end Settings

/-- The parts that commands are carried out with. The indexer is made when it is first needed, which may fail. -/
structure Wiring where
  base : Path
  indexer : Except Fault Indexer
  retriever : Retriever
  mostFailures : Int

def Wiring.ofSettings (s : Settings) : Wiring := ⟨s.storage.base, s.indexer, s.retriever, s.indexing.mostFailures⟩

def Wiring.service (w : Wiring) : Except Fault Service := do
  return ⟨w.base, ← w.indexer, w.retriever, w.mostFailures⟩

end Compendium
