import Compendium.Catalog.Basic
import Compendium.Index.Rebuild
import Compendium.Report
import Compendium.Search.Retrieval

/-! The knowledge service: it brings the index up to date, and answers and logs searches. -/
namespace Compendium

open Number (Numeral)

structure Service where
  root : Path
  indexer : Indexer := {}
  retriever : Retriever := {}
  /-- How many documents may fail in a row before an update stops. -/
  mostFailures : Int := 2

namespace Service

def log (message : String) (fields : List (String × Json)) : Action Unit :=
  Action.log .info "service" "bootstrap" message fields

/-- Scans the files and brings the index up to date: all documents if there is no index yet, else those that
were added or changed. -/
def bootstrap (s : Service) : Action Progress := do
  let changed ← Catalog.scan s.root
  if !(← Indexer.hasIndex) then
    log "No index found, building from scratch" []
    return (← s.indexer.rebuild).1
  if changed.isEmpty then
    log "Index is up to date" []
    return { status := .completed }
  log "Incrementally indexing changed documents" [("documents", .nat changed.length)]
  s.indexer.reindexMany changed s.mostFailures

/-- Where a search was asked for, and how long its embedding may take. -/
structure Occasion where
  conversation : String := ""
  message : String := ""
  limit : Option Numeral := none

def search (s : Service) (r : Request) (o : Occasion := {}) : Action (List (Match Float)) := do
  let ms ← s.retriever.retrieve r o.limit
  if !ms.isEmpty then
    let _ ← Catalog.logRetrieval r.query (Report.foundDocuments ms) (r.riskType.getD "") o.conversation o.message
  return ms

def searchText (s : Service) (r : Request) (o : Occasion := {}) : Action String := do
  return Report.results Report.percentText r.query (← s.search r o)

end Service

end Compendium
