import Compendium.Base
import Compendium.Embedding.Prompt
import Compendium.Search.Acceptance
import Compendium.Search.Context
import Compendium.Search.Similarity

/-! Searching the knowledge base: the query is embedded, the stored chunks are rated and judged, and neighbours
of the matches are added. -/
namespace Compendium

open Number (Numeral)
open Search (Tuning Rated Scored Verdict Expansion)

/-- The settings of searches; what is not set is left to the tuning. -/
structure Retriever where
  topK : Option Int := none
  threshold : Option Float := none
  hybridWeight : Option Float := none
  expands : Bool := true
  tuning : Tuning Float := .standard
  expansion : Expansion Float := .standard

namespace Retriever

/-- The number of matches wanted: the request's if it is positive. -/
def topKOf (rt : Retriever) (r : Request) : Int :=
  let preset := rt.topK.getD rt.tuning.topK
  match r.topK with
  | some k => if 0 < k then k else preset
  | none => preset

def thresholdOf (rt : Retriever) (r : Request) : Numeral :=
  let preset := .decimal (rt.threshold.getD rt.tuning.threshold)
  match r.threshold with
  | some t => if 0.0 < t.toFloat then t else preset
  | none => preset

def weight (rt : Retriever) : Float := rt.hybridWeight.getD rt.tuning.hybridWeight

def log (origin message : String) (fields : List (String × Json)) : Action Unit :=
  Action.log .debug "retriever" origin message fields

def tally (f : Tally → Tally) : Action Unit := modify fun b => { b with tally := f b.tally }

/-- The embedding of a query. A provider that does not answer in time has failed. -/
def embedQuery (r : Request) (limit : Option Numeral) : Action Embedding := do
  let text := Embedding.queryInput r.query r.riskType
  let late : Fault := .embedding (.timedOut limit)
  if limit.any fun t => t.toFloat ≤ 0.0 then throw late
  match ← Action.ask text with
  | .vector v => return v
  | .hangs => throw late
  | .fails e => throw (if e.isA .timeout then late else e)

def rate (query : Embedding) (c : Candidate) : Rated Float :=
  ⟨c, Search.cosine (some query.toFloats) (c.chunk.vector.map Embedding.toFloats)⟩

def number (x : Float) : Json := .number (.decimal x)

def explain (rt : Retriever) (threshold : Numeral) (v : Verdict Float) : Action Unit := do
  if v.relaxed then
    tally fun t => { t with relaxed := t.relaxed + 1 }
    log "_accept" "No strong keyword match, relaxing threshold"
      [("threshold", .number threshold), ("effective", number v.effective)]
  match v.fallback with
  | .notNeeded => pure ()
  | .nothingRelevant best =>
    log "_accept" "Nothing relevant in corpus" [("best", number best), ("floor", number rt.tuning.fallbackFloor)]
  | .toFloor best =>
    tally fun t => { t with fallbacks := t.fallbacks + 1 }
    log "_accept" "Falling back to floor" [("best", number best), ("floor", number rt.tuning.fallbackFloor)]

/-- What a search looked at: the candidates, those above the noise, and the matches. -/
structure Found where
  candidates : Nat
  scored : Nat
  matched : List (Match Float)

def find (rt : Retriever) (r : Request) (limit : Option Numeral) : Action Found := do
  let vector ← embedQuery r limit
  let candidates ← Action.readStore (Store.candidates r.riskType)
  let scored := Search.scoredOf rt.tuning r.query (candidates.map (rate vector))
  let verdict := Search.judge rt.tuning (rt.thresholdOf r).toFloat scored
  rt.explain (rt.thresholdOf r) verdict
  return ⟨candidates.length, scored.length, (upTo (rt.topKOf r) verdict.accepted).map (Search.toMatch rt.weight)⟩

def search (rt : Retriever) (r : Request) (limit : Option Numeral := none) : Action (List (Match Float)) := do
  if Text.isBlankText r.query then throw .emptyQuery
  let start := (← get).clock
  let found ← Action.probed "retriever.search"
    [("top_k", .int (rt.topKOf r)), ("filtered", .bool r.isFiltered)] (rt.find r limit)
  tally fun t =>
    { t with queries := t.queries + 1, emptyResults := t.emptyResults + if found.matched.isEmpty then 1 else 0 }
  let duration := ((← get).clock - start).toFloat / 1000000.0
  Action.measure (Meter.queried (.decimal duration) found.matched.length r.isFiltered)
  log "search" "Search completed"
    [("candidates", .nat found.candidates), ("scored", .nat found.scored), ("results", .nat found.matched.length),
      ("threshold", .number (rt.thresholdOf r))]
  return found.matched

/-- Lists the chunks of documents; a store failure is logged and kept in place of the chunks. -/
def listEach : List String → Action (List (String × Except Fault (List Chunk)))
  | [] => return []
  | id :: rest => do
    let listed ← Action.attempt (Action.chunksOf id)
    match listed with
    | .ok _ => pure ()
    | .error e =>
      if !e.isA .store then throw e
      Action.log .warning "context" "expand" "Could not load chunks for expansion"
        [("item_id", .text id), ("error", .text e.message)]
    return (id, listed) :: (← listEach rest)

def expand (e : Expansion Float) (ms : List (Match Float)) : Action (List (Match Float)) := do
  if ms.isEmpty then return []
  let listed ← listEach ((Search.groups ms).map (·.1))
  let out := Search.expand e (fun id => (Keyed.get? id listed).getD (.ok [])) ms
  let added := out.length - (Search.distinct [] ms).length
  if added != 0 then
    Action.log .debug "context" "expand" "Expanded retrieval context"
      [("matches", .nat ms.length), ("added", .nat added)]
  return out

/-- The matches of a query, with their neighbours unless that is switched off. -/
def retrieve (rt : Retriever) (r : Request) (limit : Option Numeral := none) : Action (List (Match Float)) := do
  let ms ← rt.search r limit
  if rt.expands then expand rt.expansion ms else return ms

end Retriever

end Compendium
