import Compendium.Index.Progress
import Compendium.Index.Reindex
import Compendium.Number.Decimal

/-! Reindexing many documents: all of them, or some of them until too many fail in a row. -/
namespace Compendium

open Number (Numeral)

namespace Progress

def errorEntry (id : String) (e : Fault) : String := id ++ ": " ++ e.message

def addDone (r : Reindexed) (p : Progress) : Progress :=
  { p with chunks := p.chunks + r.chunks.length, skipped := p.skipped + r.failed }

def addFailed (id : String) (e : Fault) (p : Progress) : Progress :=
  { p with failed := p.failed + 1, errors := p.errors ++ [errorEntry id e] }

end Progress

namespace Indexer

def seconds : Action Numeral := do return .decimal ((← get).clock.toFloat / 1000000.0)

def rebuildOne (ix : Indexer) (p : Progress) (id : String) : Action Progress := do
  match ← Action.attempt (ix.reindex id) with
  | .ok r => return { p.addDone r with processed := p.processed + 1 }
  | .error e =>
    if !e.isA .general then throw e
    Action.log .error "indexer" "process" "Failed to index document"
      [("document_id", .text id), ("error", .text e.message)]
    return { p.addFailed id e with processed := p.processed + 1 }

def rebuildEach (ix : Indexer) (p : Progress) : List String → Action (List Progress)
  | [] => return []
  | id :: rest => do
    let p ← ix.rebuildOne p id
    return p :: (← rebuildEach ix p rest)

def rounded (x : Numeral) : Numeral :=
  .decimal ((Number.readFloat? (Number.fixed 2 x.toFloat).toList).getD 0.0)

/-- Reindexes every document, whatever fails. Gives the final progress and the one after each document. The documents
are taken one after the other: that as many as `lanes` may be under way at once is not told here. For single documents
`Service.Busy` tells how reindexings go on by turns, and with an orderly provider (`Indexer.Orderly`) a rebuild comes
to the same in every order of the documents. -/
def rebuild (ix : Indexer) : Action (Progress × List Progress) := do
  let ids ← Action.readStore Store.ids
  let start : Progress := { total := ids.length, status := .running, started := some (← seconds) }
  Action.log .info "indexer" "rebuild_all" "Starting index rebuild" [("documents", .nat ids.length)]
  let updates ← ix.rebuildEach start ids
  let p := { updates.getLastD start with status := .completed, ended := some (← seconds) }
  Action.log .info "indexer" "rebuild_all" "Index rebuild completed"
    [("documents", .int p.processed), ("failed", .int p.failed), ("chunks", .int p.chunks),
      ("skipped_chunks", .int p.skipped),
      ("seconds", .number (rounded ((p.duration (← seconds)).getD (.decimal 0.0))))]
  return (p, updates)

def reportFailure (id : String) (inRow : Nat) (e : Fault) : Action Unit :=
  Action.log .warning "indexer" "reindex_many" "Incremental indexing failed"
    [("document_id", .text id), ("consecutive", .nat inRow), ("error", .text e.message)]

/-- Reindexes documents in order when `inRow` of them failed just before, and stops when `most` have failed in
a row. -/
def reindexEach (ix : Indexer) (most : Int) (inRow : Nat) (p : Progress) : List String → Action Progress
  | [] => do return { p with status := .completed, ended := some (← seconds) }
  | id :: rest => do
    match ← Action.attempt (ix.reindex id) with
    | .ok r => reindexEach ix most 0 { p.addDone r with processed := p.processed + 1 } rest
    | .error e =>
      if !e.isA .general then throw e
      reportFailure id (inRow + 1) e
      let p := { p.addFailed id e with processed := p.processed + 1 }
      if most ≤ (inRow + 1 : Nat) then
        Action.log .error "indexer" "reindex_many" "Stopping incremental indexing after repeated failures"
          [("consecutive", .nat (inRow + 1)), ("remaining", .int (p.total - p.processed))]
        return { p with status := .failed, ended := some (← seconds) }
      else reindexEach ix most (inRow + 1) p rest

/-- Reindexes some documents one after the other, until as many as `most` fail in a row. -/
def reindexMany (ix : Indexer) (ids : List String) (most : Int) : Action Progress := do
  ix.reindexEach most 0 { total := ids.length, status := .running, started := some (← seconds) } ids

def hasIndex : Action Bool := do return 0 < (← Action.readStore Store.chunkCount)

def counts : Action (Nat × Nat × Nat) := do
  let documents ← Action.readStore Store.documentCount
  let indexed ← Action.readStore Store.indexedCount
  let chunks ← Action.readStore Store.chunkCount
  return (documents, indexed, chunks)

end Indexer

end Compendium
